import MydakServer.Waiting

/-! How long socket coroutines live: one that comes back to the head of its loop after its
connection has ended has no channel to wait on. -/
namespace MydakServer.Server
open Rendezvous

/-- Whether the client in the slot that the coroutine of `c` was started with has messages. -/
def hasMessages (s : Server) (c : ConnId) : Bool :=
  match s.clientsSlotVector.slotAt (s.connection c).indices.index with
  | some ⟨some client, _⟩ =>
    match client.data.socket, client.data.messages with
    | some _, some q => !(s.messages q).isEmpty
    | _, _ => false
  | _ => false

/-- After `start` has ended, the socket coroutine writes the last message of the queue it drains,
or takes a signal and finds no message to write. -/
def runsOut (s : Server) : Action → Bool
  | .written c =>
    match s.socket c with
    | .writing ⟨some _, some q, _⟩ _ => s.start c = .ended && (s.messages q).length = 1
    | _ => false
  | .resume (.socket c) =>
    s.start c = .ended && s.socket c = .asyncReceive && s.signal (.socket c) = .taken &&
      !s.hasMessages c
  | _ => false

/-- No coroutine has come back to the head of its loop after `start` has ended. -/
def EndsWithStart (s : Server) : Prop := ∀ c, s.start c = .ended → s.socket c ≠ .noChannel

/-- Where a coroutine that comes back to the head of its loop goes on. -/
theorem socketCoroutine_noChannel (s : Server) (c d : ConnId) :
    (s.socketCoroutine c).socket d = .noChannel ↔
      s.socket d = .noChannel ∧ d ≠ c ∨ d = c ∧ s.start c = .ended := by
  obtain ⟨channel, signal, state, he, hstate⟩ := s.socketCoroutine_eq c
  rw [he]
  by_cases hdc : d = c
  · subst hdc
    obtain ⟨hend, rfl⟩ | ⟨hend, rfl⟩ := hstate <;> simp [hend]
  · simp [hdc]

theorem writeMessages_noChannel (s : Server) (c : ConnId) (data : ClientData) (q d : ConnId) :
    (s.writeMessages c data q).socket d = .noChannel ↔
      s.socket d = .noChannel ∧ d ≠ c ∨ d = c ∧ s.start c = .ended ∧ s.messages q = [] := by
  unfold writeMessages
  split
  · rename_i hq
    rw [socketCoroutine_noChannel, hq]
    simp
  · rename_i hq
    by_cases hdc : d = c
    · subst hdc
      simp [setSocket, hq]
    · simp [setSocket, hdc]

theorem signalled_noChannel (s : Server) (c d : ConnId) :
    (s.signalled c).socket d = .noChannel ↔ s.socket d = .noChannel ∧ d ≠ c ∨
      d = c ∧ s.start c = .ended ∧ s.hasMessages c = false := by
  unfold signalled hasMessages
  cases s.clientsSlotVector.slotAt (s.connection c).indices.index with
  | none =>
    rw [socketCoroutine_noChannel]
    simp
  | some slot =>
    obtain ⟨object, generation⟩ := slot
    cases object with
    | none =>
      rw [socketCoroutine_noChannel]
      simp
    | some client =>
      dsimp only
      cases client.data.socket with
      | none =>
        rw [socketCoroutine_noChannel]
        simp
      | some socket =>
        cases client.data.messages with
        | none =>
          rw [socketCoroutine_noChannel]
          simp
        | some q =>
          rw [writeMessages_noChannel]
          simp [List.isEmpty_iff]

variable {s t : Server} {a : Action}

/-- The other moves do not bring a coroutine there. -/
theorem Move.noChannel {I : Tables → Prop} (hs : Sound s) (ha : Aside s) (hm : Move I s a t)
    (hw : ∀ c, a ≠ .written c) (hr : ∀ c, a ≠ .resume (.socket c)) (c : ConnId) :
    t.socket c = .noChannel ↔ s.socket c = .noChannel := by
  cases hm with
  | grant _ d key g v id state hc =>
    have hsocket := socketCoroutine_noChannel
      ((s.setKey d key).emplaced d v { g with dbIndex := id }) d c
    have hunborn := socket_of_logs hs ha hc
    have hend : s.start d ≠ .ended := (phase_of_logs hc).2
    by_cases hcd : c = d
    · subst hcd
      refine hsocket.trans (iff_of_false ?_ ?_)
      · rintro (⟨-, hne⟩ | ⟨-, he⟩)
        · exact hne rfl
        · exact hend he
      · rw [hunborn]
        simp
    · refine hsocket.trans ⟨?_, fun hu => .inl ⟨hu, hcd⟩⟩
      rintro (⟨hu, -⟩ | ⟨he, -⟩)
      · exact hu
      · exact absurd he hcd
  | relay d bytes lookup size recipient e f => rw [asyncSend_socket]; rfl
  | hand d f row rest sent =>
    have hsocket := (s.push f row.data).asyncSend_socket f (.delayed d)
    exact iff_of_eq (congrArg (· c = SocketState.noChannel) hsocket)
  | park d => exact absurd rfl (hr d)
  | write d => exact absurd rfl (hr d)
  | wrote d => exact absurd rfl (hw d)
  | wroteNone d => exact absurd rfl (hw d)
  | tear d socket n q channel m hd =>
    by_cases hcd : c = d
    · subst hcd
      simp [setSocket, hd]
    · simp [setSocket, addTorn, hcd]
  | terminate d => exact absurd rfl (hr d)
  | _ => rfl

/-- A coroutine comes there only when it runs out of messages. -/
theorem step_noChannel (h : Steady s) (hstep : s.step a = some t) (c : ConnId) :
    t.socket c = .noChannel ↔ s.socket c = .noChannel ∨
      s.runsOut a ∧ (a = .written c ∨ a = .resume (.socket c)) := by
  have hother : (∀ d, a ≠ .written d) → (∀ d, a ≠ .resume (.socket d)) →
      (t.socket c = .noChannel ↔ s.socket c = .noChannel) := by
    intro hw hr
    obtain ⟨u, hm, ha⟩ := step_move h.sound h.linked hstep
    rw [ha.socket]
    exact hm.noChannel h.sound h.aside hw hr c
  cases step_cases hstep with
  | written d socket q channel message front rest hc hq =>
    rw [writeMessages_noChannel]
    by_cases hcd : c = d
    · subst hcd
      simp [popped, runsOut, hc, hq]
    · simp [popped, hcd, Ne.symm hcd]
  | writtenNone d socket q channel message hc hq =>
    by_cases hcd : c = d
    · subst hcd
      simp [setSocket, runsOut, hc, hq]
    · simp [setSocket, addWritten, hcd, Ne.symm hcd]
  | resume u _ hs =>
    cases u with
    | socket d =>
      cases hs with
      | signalled _ hc hsig =>
        rw [signalled_noChannel]
        by_cases hcd : c = d
        · subst hcd
          simp [runsOut, hc, hsig]
        · simp [hcd, Ne.symm hcd]
      | socketAborted _ hc hsig =>
        by_cases hcd : c = d
        · subst hcd
          simp [setSocket, runsOut, hc, hsig]
        · simp [setSocket, hcd, Ne.symm hcd]
    | _ =>
      rw [hother (by simp) (by simp)]
      simp [runsOut]
  | _ =>
    rw [hother (by simp) (by simp)]
    simp [runsOut]

/-- A coroutine that runs out was suspended, and its connection stays ended. -/
theorem runsOut_cases (hstep : s.step a = some t) (hout : s.runsOut a) :
    ∃ c, (a = .written c ∨ a = .resume (.socket c)) ∧ s.socket c ≠ .noChannel ∧
      t.start c = .ended := by
  cases step_cases hstep with
  | written c socket q channel message front rest hc hq =>
    simp only [runsOut, hc, Bool.and_eq_true, decide_eq_true_eq] at hout
    refine ⟨c, .inl rfl, by simp [hc], (ended_iff _ c).mpr ?_⟩
    rw [(writeMessages_same (s.popped socket q message rest) c _ q).registry]
    exact (ended_iff s c).mp hout.1
  | writtenNone c socket q channel message hc hq => simp [runsOut, hc, hq] at hout
  | resume u _ hs =>
    cases u with
    | socket c =>
      simp only [runsOut, Bool.and_eq_true, decide_eq_true_eq] at hout
      obtain ⟨⟨⟨hend, hc⟩, hsig⟩, -⟩ := hout
      refine ⟨c, .inr rfl, by simp [hc], (ended_iff _ c).mpr ?_⟩
      cases hs with
      | signalled =>
        rw [(s.signalled_same c).registry]
        exact (ended_iff s c).mp hend
      | socketAborted => exact (ended_iff s c).mp hend
    | _ => cases hout
  | _ => cases hout

/-- In every state of a run the socket coroutines of ended connections have not come back to their
channels, exactly when none of them runs out of messages in it. -/
theorem ends_with_start_iff (native : Proto.Endian) (succeeds : StartStep → Bool)
    (tables : Tables) (as : List Action) (s : Server)
    (hr : Lts.run step (init native succeeds tables) as = some s) :
    (∀ bs, bs <+: as → ∀ t, Lts.run step (init native succeeds tables) bs = some t →
      EndsWithStart t) ↔
      Lts.Along step (fun s a => s.runsOut a = false) (init native succeeds tables) as := by
  have hstart := init_steady native succeeds tables
  constructor
  · intro h
    refine Lts.along_of_initial hr fun bs a m t hp hm hstep => ?_
    cases hout : m.runsOut a with
    | false => rfl
    | true =>
      obtain ⟨c, ha, hc, hend⟩ := runsOut_cases hstep hout
      have hsteady : Steady m := Lts.invariant_all (fun _ _ _ h => h.step) hstart hm
      have hrun := Lts.run_append.mpr ⟨m, hm, Lts.run_single.mpr hstep⟩
      exact absurd ((step_noChannel hsteady hstep c).mpr (.inr ⟨hout, ha⟩))
        (h _ hp t hrun c hend)
  · intro hc bs hp t ht
    have hinv := Lts.invariant (I := fun m => Steady m ∧ ∀ c, m.socket c ≠ .noChannel) ?_
      ⟨hstart, by simp [init]⟩ (hc.initial hp) ht
    · exact fun c _ => hinv.2 c
    · rintro m a t ⟨hm, hnone⟩ hout hstep
      refine ⟨hm.step hstep, fun c hu => ?_⟩
      obtain hu | ⟨hout', -⟩ := (step_noChannel hm hstep c).mp hu
      · exact hnone c hu
      · simp [hout] at hout'

/-- The session that is written to ends during the first of the two writes. -/
def endsWhileWritten : List Action := writesTwice ++ [.readFails 0, .written 0, .written 0]

theorem not_ends_with_start :
    ¬ ∀ bs, bs <+: endsWhileWritten → ∀ t,
      Lts.run step (init .little (fun _ => true) .empty) bs = some t → EndsWithStart t := by
  intro h
  have hrun : (Lts.run step (init .little (fun _ => true) .empty) endsWhileWritten).any fun s =>
      s.start 0 = .ended && s.socket 0 = .noChannel := by
    decide +kernel
  obtain ⟨s, hs, hbad⟩ := (Option.any_eq_true _ _).mp hrun
  simp only [Bool.and_eq_true, decide_eq_true_eq] at hbad
  exact h _ (List.prefix_refl _) s hs 0 hbad.1 hbad.2

/-- The second write fails. -/
theorem ends_with_start_failing : ∃ s,
    Lts.run step (init .little (fun _ => true) .empty)
      (writesTwice ++ [.readFails 0, .written 0, .writeFails 0 0]) = some s ∧
    ∀ bs, bs <+: writesTwice ++ [.readFails 0, .written 0, .writeFails 0 0] → ∀ t,
      Lts.run step (init .little (fun _ => true) .empty) bs = some t → EndsWithStart t := by
  have hsome : (Lts.run step (init .little (fun _ => true) .empty)
      (writesTwice ++ [.readFails 0, .written 0, .writeFails 0 0])).isSome := by
    decide +kernel
  obtain ⟨s, hr⟩ := Option.isSome_iff_exists.mp hsome
  exact ⟨s, hr, (ends_with_start_iff .little (fun _ => true) .empty _ s hr).mpr
    (by decide +kernel)⟩

end MydakServer.Server
