import MydakServer.Closed
import MydakServer.Moves

/-! Connections that `add_client` has rejected: when nothing they do is felt by anyone
else, and the run of the server without them. -/
namespace MydakServer.Server
open Rendezvous

/-- `add_client` has not granted the connection a slot. -/
def Unserved (s : Server) (c : ConnId) : Prop := ∀ g, s.answer c = some g → g = .empty

/-- No signal and no message can reach a connection that has no slot, and its
`send_delayed_messages` finds nothing. -/
structure Aside (s : Server) : Prop where
  held : ∀ i slot c, s.clientsSlotVector.slotAt i = some slot → slot.object = some (.new c) →
    ¬ s.Unserved c
  socket : ∀ c, s.Unserved c → s.socket c = .unborn
  channel : ∀ c, s.Unserved c → s.signalChannel c = {}
  delayed : ∀ c, s.answer c = some .empty → s.delayed c = .fetching ∨ s.delayed c = .finished

theorem init_aside (native : Proto.Endian) (succeeds : StartStep → Bool) (tables : Tables) :
    Aside (init native succeeds tables) := by
  constructor <;> simp [init, SlotVector.slotAt]

theorem Aside.alike {s s' : Server} (h : Aside s) (ha : Alike s s') : Aside s' := by
  have hun : ∀ c, s'.Unserved c ↔ s.Unserved c := by
    intro c
    simp only [Unserved, ha.answer]
  constructor
  · simpa only [ha.clientsSlotVector, hun] using h.held
  · simpa only [ha.socket, hun] using h.socket
  · simpa only [ha.signalChannel, hun] using h.channel
  · simpa only [ha.answer, ha.delayed] using h.delayed

/-- A signal is sent to a connection in a slot. -/
theorem Aside.send {s : Server} (h : Aside s) {i generation : Nat} {d : ConnId} {t : Task}
    {message : Message} (hd : s.clientsSlotVector.slotAt i = some ⟨some (.new d), generation⟩) :
    Aside ((s.push d message).asyncSend d t) := by
  obtain ⟨channel, signal, he⟩ := (s.push d message).asyncSend_eq d t
  rw [he]
  refine ⟨h.held, h.socket, ?_, h.delayed⟩
  intro c hc
  have hcd : c ≠ d := by
    intro heq
    subst heq
    exact h.held i _ c hd rfl hc
  simpa [push, Function.update_of_ne hcd] using h.channel c hc

/-- What the socket coroutine of a connection with a slot does is its own affair. -/
theorem Aside.socketCoroutine {s : Server} (h : Aside s) {c : ConnId} (hc : ¬ s.Unserved c) :
    Aside (s.socketCoroutine c) := by
  obtain ⟨channel, signal, state, he, -⟩ := s.socketCoroutine_eq c
  rw [he]
  have hne : ∀ d, s.Unserved d → d ≠ c := by
    intro d hd heq
    subst heq
    exact hc hd
  refine ⟨h.held, ?_, ?_, h.delayed⟩
  · intro d hd
    simpa [Function.update_of_ne (hne d hd)] using h.socket d hd
  · intro d hd
    simpa [Function.update_of_ne (hne d hd)] using h.channel d hd

theorem Aside.setSocket {s : Server} (h : Aside s) {c : ConnId} (hc : ¬ s.Unserved c)
    (state : SocketState) : Aside (s.setSocket c state) := by
  refine ⟨h.held, ?_, h.channel, h.delayed⟩
  intro d hd
  have hdc : d ≠ c := by
    intro heq
    subst heq
    exact hc hd
  simpa [Server.setSocket, Function.update_of_ne hdc] using h.socket d hd

theorem Aside.remove {s : Server} (h : Aside s) (c : ConnId) : Aside (s.endConnection c) := by
  refine ⟨?_, h.socket, h.channel, h.delayed⟩
  intro i slot d hi ho
  simp only [endConnection, removeClient, setStart, SlotVector.slotAt_pop] at hi
  split at hi
  · obtain ⟨slot', -, rfl⟩ := Option.map_eq_some_iff.mp hi
    cases ho
  · exact h.held i slot d hi ho

theorem Aside.answer {s : Server} (h : Aside s) {c : ConnId} (hc : s.answer c = none)
    (key : PublicKey) (state : DelayedState) (hstate : state = .fetching ∨ state = .finished) :
    Aside (((s.setKey c key).answered c .empty).setDelayed c state) := by
  have hun : ∀ d, (((s.setKey c key).answered c .empty).setDelayed c state).Unserved d ↔
      s.Unserved d := by
    intro d
    by_cases hd : d = c
    · subst hd
      simp [Unserved, answered, setStart, setDelayed, hc]
    · simp [Unserved, answered, setStart, setDelayed, setKey, hd]
  constructor
  case held =>
    intro i slot d hi ho
    rw [hun]
    exact h.held i slot d hi ho
  case socket => exact fun d hd => h.socket d ((hun d).mp hd)
  case channel => exact fun d hd => h.channel d ((hun d).mp hd)
  case delayed =>
    intro d hd
    by_cases hdc : d = c
    · subst hdc
      simpa [setDelayed] using hstate
    · simp only [setDelayed, Function.update_of_ne hdc]
      exact h.delayed d (by simpa [answered, setStart, setDelayed, setKey, hdc] using hd)

theorem Aside.grant {s : Server} (h : Aside s) {c : ConnId} (hc : s.answer c = none)
    (key : PublicKey) {g : ClientIndex} {v : SlotVector Client} (id : Nat) (state : DelayedState)
    (hv : s.clientsSlotVector.emplaceBack (.new c) = some (g, v)) :
    Aside (((s.setKey c key).granted c v { g with dbIndex := id }).setDelayed c state) := by
  have hne := SlotVector.emplaceBack_ne_empty hv id
  obtain ⟨-, hslots, -⟩ := SlotVector.emplaceBack_cases hv
  obtain ⟨channel, signal, socket, he, -⟩ :=
    (s.setKey c key).granted_eq c v { g with dbIndex := id }
  rw [he]
  have hun : ∀ d, (∀ g', Function.update s.answer c (some { g with dbIndex := id }) d = some g' →
      g' = .empty) ↔ d ≠ c ∧ s.Unserved d := by
    intro d
    by_cases hd : d = c
    · subst hd
      simp [Unserved, hne]
    · simp [Unserved, hd]
  constructor
  case held =>
    intro i slot d hi ho hd
    obtain ⟨hdc, hd⟩ := (hun d).mp hd
    have hi' : v.slotAt i = some slot := hi
    rw [hslots] at hi'
    split at hi'
    · cases hi'
      exact hdc (Client.new_inj (Option.some.inj ho)).symm
    · exact h.held i slot d hi' ho hd
  case socket =>
    intro d hd
    obtain ⟨hdc, hd⟩ := (hun d).mp hd
    simpa [setDelayed, setKey, hdc] using h.socket d hd
  case channel =>
    intro d hd
    obtain ⟨hdc, hd⟩ := (hun d).mp hd
    simpa [setDelayed, setKey, hdc] using h.channel d hd
  case delayed =>
    intro d hd
    have hdc : d ≠ c := by
      intro heq
      subst heq
      simp [setDelayed, hne] at hd
    simpa [setDelayed, setKey, hdc] using
      h.delayed d (by simpa [setDelayed, setKey, hdc] using hd)

theorem Aside.served {s : Server} (h : Aside s) {c : ConnId} (hc : s.socket c ≠ .unborn) :
    ¬ s.Unserved c := mt (h.socket c) hc

variable {I : Tables → Prop}

theorem Aside.move {s t : Server} {a : Action} (hs : Sound s) (h : Aside s) (hm : Move I s a t) :
    Aside t := by
  have hread : ∀ c, s.start c = .readKey → s.answer c = none := fun c hc =>
    hs.answer_none (.inr (.inl hc))
  cases hm with
  | other => exact h
  | login c key => exact ⟨h.held, h.socket, h.channel, h.delayed⟩
  | reject c key state hc hk hstate => exact h.answer (hread c hc) key state hstate
  | grant _ c key g v id state hc hv => exact h.grant (answer_of_logs hs hc) key id state hv
  | fail c bytes =>
    exact Aside.remove (s := s.setKey c _) ⟨h.held, h.socket, h.channel, h.delayed⟩ c
  | close _ c => exact h.remove c
  | relay c bytes lookup size recipient e d generation hc he hd => exact h.send hd
  | hand c d row rest sent hc hd =>
    have h' : Aside ((s.push d row.data).asyncSend d (.delayed c)) := h.send hd
    refine ⟨h'.held, h'.socket, h'.channel, ?_⟩
    intro b hb
    have ha : ((s.push d row.data).asyncSend d (.delayed c)).answer = s.answer :=
      congrArg Registry.answer (asyncSend_same (s.push d row.data) d (.delayed c)).registry
    have hb' : s.answer b = some .empty := by
      rw [← ha]
      exact hb
    have hbc : b ≠ c := by
      intro heq
      subst heq
      rw [hs.indices hb', ClientIndex.empty, SlotVector.slotAt_invalid] at hd
      cases hd
    simp only [setDelayed, Function.update_of_ne hbc]
    exact h'.delayed b hb
  | stop c state hc hstate =>
    refine ⟨h.held, h.socket, h.channel, ?_⟩
    intro b hb
    by_cases hbc : b = c
    · subst hbc
      obtain rfl | ⟨-, current, rest, sent, hd⟩ := hstate
      · simp [setDelayed]
      · have := h.delayed b hb
        simp [hd] at this
    · simp only [setDelayed, Function.update_of_ne hbc]
      exact h.delayed b hb
  | park c hc => exact h.socketCoroutine (h.served (by simp [hc]))
  | write c e generation message rest hc => exact h.setSocket (h.served (by simp [hc])) _
  | wrote c socket q channel message front rest hc =>
    have hun : ¬ s.Unserved c := h.served (by simp [hc])
    have h' : Aside (s.popped socket q message rest) := ⟨h.held, h.socket, h.channel, h.delayed⟩
    unfold writeMessages
    split
    · exact h'.socketCoroutine hun
    · exact h'.setSocket hun _
  | wroteNone c socket q channel message hc =>
    have h' : Aside (s.addWritten socket message) := ⟨h.held, h.socket, h.channel, h.delayed⟩
    have hun : ¬ s.Unserved c := h.served (by simp [hc])
    exact h'.setSocket hun _
  | tear c socket n q channel message hc =>
    have h' : Aside (s.addTorn socket (message.data.take n)) :=
      ⟨h.held, h.socket, h.channel, h.delayed⟩
    have hun : ¬ s.Unserved c := h.served (by simp [hc])
    exact h'.setSocket hun _
  | terminate c hc => exact h.setSocket (h.served (by simp [hc])) _
  | cancel c t channel hc ht =>
    refine ⟨h.held, h.socket, ?_, h.delayed⟩
    intro d hd
    have hdc : d ≠ c := by
      intro heq
      subst heq
      simp [h.channel d hd, Channel.cancel] at ht
    simpa [setChannel, setSignal, Function.update_of_ne hdc] using h.channel d hd

/-- The connection one of whose coroutines runs. -/
def Action.actor : Action → Option ConnId
  | .keyFails c _ | .keyRead c _ | .greetings c _ | .message c _ _ | .readFails c | .written c
  | .writeFails c _ | .resume (.start c) | .resume (.socket c) | .resume (.delayed c) => some c
  | _ => none

/-- The same entries, slots and queues, and the same frames read. -/
structure Untouched (s s' : Server) : Prop where
  clientIndices : s'.clientIndices = s.clientIndices
  clientsSlotVector : s'.clientsSlotVector = s.clientsSlotVector
  messages : s'.messages = s.messages
  frames : s'.frames = s.frames

/-- A step of a rejected connection touches nothing. -/
def Inert (s : Server) (a : Action) : Prop :=
  ∀ c s', s.answer c = some .empty → a.actor = some c → s.step a = some s' → Untouched s s'

/-- A rejected connection completes no frame, and finds no entry of its key to erase when
it ends. -/
def quiet (s : Server) : Action → Bool
  | .message c _ _ => s.answer c ≠ some .empty
  | .readFails c => s.leavesEntry c
  | .greetings c g =>
    match Proto.parseGreetings s.native g with
    | .error _ => s.leavesEntry c
    | .ok _ => true
  | _ => true

theorem start_of_answered {s : Server} (hs : Sound s) {c : ConnId} {g : ClientIndex}
    (hc : s.answer c = some g) :
    s.start c ≠ .unborn ∧ s.start c ≠ .readKey ∧ s.start c ≠ .addClient := by
  have hne : s.answer c ≠ none := by simp [hc]
  exact ⟨fun h => hne (hs.answer_none (.inl h)), fun h => hne (hs.answer_none (.inr (.inl h))),
    fun h => hne (hs.answer_none (.inr (.inr h)))⟩

/-- `remove_client` does nothing for a rejected connection whose key is not listed. -/
theorem endConnection_of_rejected {s : Server} (hs : Sound s) {c : ConnId}
    (hc : s.answer c = some .empty) (hk : s.leavesEntry c) : s.endConnection c = s.closed c := by
  have hnone : s.clientIndices (s.connection c).publicKey = none := by
    simpa [leavesEntry, hc] using hk
  have hslot := s.clientsSlotVector.slotAt_invalid
  have hentries : Function.update s.clientIndices (s.connection c).publicKey none =
      s.clientIndices := by
    rw [← hnone, Function.update_eq_self]
  simp only [endConnection, removeClient, hs.indices hc, ClientIndex.empty,
    SlotVector.pop_of_none hslot, hslot, hentries, Option.toList_none, List.map_nil,
    List.append_nil, closed]

theorem untouched_closed (s : Server) (c : ConnId) : Untouched s (s.closed c) :=
  ⟨rfl, rfl, rfl, rfl⟩

/-- What a rejected connection does while it is quiet, coroutine by coroutine. -/
theorem untouched_of_quiet {s s' : Server} {a : Action} {c : ConnId} (hs : Sound s)
    (hl : Linked I none s) (h : Aside s) (hc : s.answer c = some .empty)
    (ha : a.actor = some c) (hq : s.quiet a) (hstep : s.step a = some s') : Untouched s s' := by
  obtain ⟨-, hread, hadd⟩ := start_of_answered hs hc
  have hun : s.Unserved c := by
    intro g hg
    exact Option.some.inj (hg.symm.trans hc)
  have hsocket := h.socket c hun
  have hframes : s'.frames = s.frames := by
    rw [step_frames hs hstep]
    cases a with
    | message d bytes lookup =>
      obtain rfl : d = c := Option.some.inj ha
      simp [quiet, hc] at hq
    | _ => simp [framesOf]
  obtain ⟨t, hm, halike⟩ := step_move hs hl hstep
  have hof : ∀ {u : Server}, Alike u s' → u.clientIndices = s.clientIndices →
      u.clientsSlotVector = s.clientsSlotVector → u.messages = s.messages →
      Untouched s s' := fun hu h₁ h₂ h₃ =>
    ⟨hu.clientIndices.trans h₁, hu.clientsSlotVector.trans h₂, hu.messages.trans h₃, hframes⟩
  cases hm with
  | other => exact hof halike rfl rfl rfl
  | login d key hd =>
    obtain rfl : d = c := Option.some.inj ha
    exact absurd hd hread
  | reject d key state hd =>
    obtain rfl : d = c := Option.some.inj ha
    exact absurd hd hread
  | grant _ d key g v id state hd =>
    obtain ⟨rfl, hd⟩ | ⟨rfl, hd, -⟩ := hd
    · obtain rfl : d = c := Option.some.inj ha
      exact absurd hd hread
    · obtain rfl : d = c := Option.some.inj ha
      exact absurd hd hadd
  | fail d bytes hd =>
    obtain rfl : d = c := Option.some.inj ha
    exact absurd hd hread
  | close _ d hd hact =>
    have hend : d = c ∧ s.leavesEntry c := by
      obtain rfl | ⟨g, e, rfl, he⟩ := hact
      · obtain rfl : d = c := Option.some.inj ha
        exact ⟨rfl, hq⟩
      · obtain rfl : d = c := Option.some.inj ha
        exact ⟨rfl, by simpa [quiet, he] using hq⟩
    obtain ⟨rfl, hleaves⟩ := hend
    rw [endConnection_of_rejected hs hc hleaves] at halike
    exact hof halike rfl rfl rfl
  | relay d bytes lookup size recipient e f generation hd he hf =>
    obtain rfl : d = c := Option.some.inj ha
    simp [quiet, hc] at hq
  | hand d f row rest sent hd hf =>
    obtain rfl : d = c := Option.some.inj ha
    rw [hs.indices hc, ClientIndex.empty, SlotVector.slotAt_invalid] at hf
    cases hf
  | stop d state => exact hof halike rfl rfl rfl
  | park d hd =>
    obtain rfl : d = c := Option.some.inj ha
    rw [hsocket] at hd
    cases hd
  | write d e generation message rest hd =>
    obtain rfl : d = c := Option.some.inj ha
    rw [hsocket] at hd
    cases hd
  | wrote d socket q channel message front rest hd =>
    obtain rfl : d = c := Option.some.inj ha
    rw [hsocket] at hd
    cases hd
  | wroteNone d socket q channel message hd =>
    obtain rfl : d = c := Option.some.inj ha
    rw [hsocket] at hd
    cases hd
  | tear d socket n q channel message hd =>
    obtain rfl : d = c := Option.some.inj ha
    rw [hsocket] at hd
    cases hd
  | terminate d hd =>
    obtain rfl : d = c := Option.some.inj ha
    rw [hsocket] at hd
    cases hd
  | cancel d => cases ha

/-- A rejected connection that reads a frame, or erases an entry, is not inert. -/
theorem quiet_of_inert {s s' : Server} {a : Action} (hs : Sound s) (hin : s.Inert a)
    (hstep : s.step a = some s') : s.quiet a := by
  have hend : ∀ c, a.actor = some c → s' = s.endConnection c → s.leavesEntry c := by
    intro c ha heq
    subst heq
    by_contra hn
    simp only [leavesEntry, Bool.or_eq_true, decide_eq_true_eq, not_or, not_not,
      Option.isNone_iff_eq_none, ne_eq] at hn
    obtain ⟨hc, hk⟩ := hn
    have := congrFun (hin c _ hc ha hstep).clientIndices (s.connection c).publicKey
    simp only [endConnection, removeClient, setStart, Function.update_self] at this
    exact hk this.symm
  cases a with
  | message c bytes lookup =>
    simp only [quiet, decide_eq_true_eq, ne_eq]
    intro hc
    have hf := (hin c _ hc rfl hstep).frames
    rw [step_frames hs hstep] at hf
    cases hst : s.start c with
    | readMessage size recipient => simp [framesOf, hst] at hf
    | _ => simp [step, messageRead, hst] at hstep
  | readFails c =>
    refine hend c rfl ?_
    simp only [step, readFails] at hstep
    split at hstep <;> cases hstep <;> rfl
  | greetings c g =>
    simp only [quiet]
    cases hp : Proto.parseGreetings s.native g with
    | error e =>
      refine hend c rfl ?_
      simp only [step, greetings, hp] at hstep
      split at hstep <;> cases hstep
      rfl
    | ok p => rfl
  | _ => rfl

/-- The steps that `start` of a quiet rejected connection takes are not missed by anyone. -/
theorem closed_of_quiet {s t : Server} {a : Action} {c : ConnId} (hs : Sound s)
    (hc : s.answer c = some .empty) (ha : a.startOf = some c) (hq : s.quiet a)
    (hstep : s.step a = some t) : t.closed c = s.closed c := by
  obtain ⟨-, hread, hadd⟩ := start_of_answered hs hc
  have hend : s.leavesEntry c → (s.endConnection c).closed c = s.closed c := by
    intro hk
    rw [endConnection_of_rejected hs hc hk]
    exact closed_setStart s c .ended
  cases step_cases hstep with
  | keyFails d bytes hd =>
    obtain rfl : d = c := Option.some.inj ha
    exact absurd hd hread
  | keyRead d key _ hd =>
    obtain rfl : d = c := Option.some.inj ha
    exact absurd hd hread
  | badGreetings d g e _ he =>
    obtain rfl : d = c := Option.some.inj ha
    exact hend (by simpa [quiet, he] using hq)
  | greetings d =>
    obtain rfl : d = c := Option.some.inj ha
    exact closed_setStart s d _
  | message d bytes lookup =>
    obtain rfl : d = c := Option.some.inj ha
    simp [quiet, hc] at hq
  | readFails d =>
    obtain rfl : d = c := Option.some.inj ha
    exact hend hq
  | resume u _ hu =>
    cases hu with
    | userAdded d db id _ hd =>
      obtain rfl : d = c := Option.some.inj ha
      exact absurd hd hadd
    | addUser d db v hd =>
      obtain rfl : d = c := Option.some.inj ha
      exact absurd hd hadd
    | relayed d =>
      obtain rfl : d = c := Option.some.inj ha
      exact closed_setStart s d _
    | _ => cases ha
  | _ => cases ha

/-- The invariants a rejected connection relies on. -/
structure Steady (s : Server) : Prop where
  sound : Sound s
  linked : Linked (fun _ => True) none s
  aside : Aside s

theorem init_steady (native : Proto.Endian) (succeeds : StartStep → Bool) (tables : Tables) :
    Steady (init native succeeds tables) :=
  ⟨init_sound native succeeds tables, init_linked native succeeds trivial,
    init_aside native succeeds tables⟩

theorem Steady.step {s s' : Server} {a : Action} (h : Steady s) (hstep : s.step a = some s') :
    Steady s' := by
  obtain ⟨t, hm, ha⟩ := step_move h.sound h.linked hstep
  exact ⟨h.sound.step hstep, (h.linked.step h.sound (fun _ _ _ _ _ => trivial) hstep).1,
    (h.aside.move h.sound hm).alike ha⟩

theorem Steady.answer_step {s t : Server} {a : Action} {c : ConnId} {g : ClientIndex}
    (h : Steady s) (hc : s.answer c = some g) (hstep : s.step a = some t) :
    t.answer c = some g := by
  obtain ⟨u, hm, ha⟩ := step_move h.sound h.linked hstep
  rw [ha.answer]
  exact (hm.session h.sound hc).1

/-- A rejected connection that stays quiet could as well have closed. -/
theorem run_closed {s t : Server} {c : ConnId} {as : List Action} (h : Steady s)
    (hc : s.answer c = some .empty) (hq : Lts.Along step (fun s a => s.quiet a) s as)
    (hr : Lts.run step s as = some t) :
    Lts.run step (s.closed c) (as.filter (·.startOf ≠ some c)) = some (t.closed c) := by
  have hkeep : ∀ s u a t, (Steady s ∧ s.answer c = some .empty ∧ u = s.closed c) → s.quiet a →
      decide (a.startOf ≠ some c) = true → s.step a = some t →
      ∃ w, u.step a = some w ∧ Steady t ∧ t.answer c = some .empty ∧ w = t.closed c := by
    rintro s u a t ⟨h, hc, rfl⟩ - ha hstep
    have hlt : c < s.accepted := h.sound.accepted hc
    have hun : s.Unserved c := fun g hg => Option.some.inj (hg.symm.trans hc)
    refine ⟨t.closed c, ?_, h.step hstep, h.answer_step hc hstep, rfl⟩
    rw [s.step_closed (by simpa using ha) hlt (h.aside.socket c hun) (h.aside.channel c hun), hstep]
    rfl
  have hskip : ∀ s u a t, (Steady s ∧ s.answer c = some .empty ∧ u = s.closed c) → s.quiet a →
      decide (a.startOf ≠ some c) = false → s.step a = some t →
      Steady t ∧ t.answer c = some .empty ∧ u = t.closed c := by
    rintro s u a t ⟨h, hc, rfl⟩ hq ha hstep
    refine ⟨h.step hstep, h.answer_step hc hstep, ?_⟩
    exact (closed_of_quiet h.sound hc (by simpa using ha) hq hstep).symm
  obtain ⟨u, hu, -, -, rfl⟩ := Lts.run_filter hkeep hskip ⟨h, hc, rfl⟩ hq hr
  exact hu

/-- Nothing that rejected connections do in the run touches anything; and after a rejection
everything goes on as if that connection had closed at once. -/
structure RejectedInert (s₀ : Server) (as : List Action) (s : Server) : Prop where
  inert : Lts.Along step Inert s₀ as
  closed : ∀ bs cs c t, as = bs ++ cs → Lts.run step s₀ bs = some t → t.answer c = some .empty →
    ∃ u, Lts.run step (t.closed c) (cs.filter (·.startOf ≠ some c)) = some u ∧ Untouched s u

/-- Rejected connections are inert in a run exactly when each of them completes no frame, and
finds no entry of its key when it ends. -/
theorem rejected_inert_iff (native : Proto.Endian) (succeeds : StartStep → Bool)
    (tables : Tables) (as : List Action) (s : Server)
    (hr : Lts.run step (init native succeeds tables) as = some s) :
    RejectedInert (init native succeeds tables) as s ↔
      Lts.Along step (fun s a => s.quiet a) (init native succeeds tables) as := by
  have hinit := init_steady native succeeds tables
  have hiff : Lts.Along step Inert (init native succeeds tables) as ↔
      Lts.Along step (fun s a => s.quiet a) (init native succeeds tables) as := by
    refine Lts.along_congr (E := fun _ _ => True) (fun s a t h => h.step) ?_ hinit
      (Lts.along_true _ _) hr
    intro s a t h _ hstep
    refine ⟨fun hin => quiet_of_inert h.sound hin hstep, fun hq c s' hc ha hs' => ?_⟩
    exact untouched_of_quiet h.sound h.linked h.aside hc ha hq hs'
  constructor
  · exact fun h => hiff.mp h.inert
  · intro hq
    refine ⟨hiff.mpr hq, ?_⟩
    rintro bs cs c t rfl hbs hc
    obtain ⟨t', hbs', hcs⟩ := Lts.run_append.mp hr
    obtain rfl : t = t' := Option.some.inj (hbs.symm.trans hbs')
    have ht : Steady t := Lts.invariant_all (fun s a t h => h.step) hinit hbs
    exact ⟨_, run_closed ht hc (hq.append hbs) hcs, untouched_closed s c⟩

/-- A client is logged in; a second connection logs in with its key, is rejected, and ends. -/
theorem not_rejected_inert : ∃ s, Lts.run step (init .little (fun _ => true) .empty)
      ([.loop, .accept, .keyRead 0 (.replicate 32 1), .loop, .execute, .resume (.start 0), .accept,
        .keyRead 1 (.replicate 32 1)] ++ [.readFails 1]) = some s ∧
    ¬ RejectedInert (init .little (fun _ => true) .empty)
      ([.loop, .accept, .keyRead 0 (.replicate 32 1), .loop, .execute, .resume (.start 0), .accept,
        .keyRead 1 (.replicate 32 1)] ++ [.readFails 1]) s := by
  refine ⟨_, rfl, fun h => ?_⟩
  have hin := (h.inert.append rfl).1
  have hkey := congrFun (hin 1 _ rfl rfl rfl).clientIndices (.replicate 32 1)
  exact absurd hkey (by decide +kernel)

/-- The second connection ends after the session of its key. -/
theorem rejected_inert_later : ∃ s, Lts.run step (init .little (fun _ => true) .empty)
      [.loop, .accept, .keyRead 0 (.replicate 32 1), .loop, .execute, .resume (.start 0), .accept,
        .keyRead 1 (.replicate 32 1), .readFails 0, .readFails 1] = some s ∧
    RejectedInert (init .little (fun _ => true) .empty)
      [.loop, .accept, .keyRead 0 (.replicate 32 1), .loop, .execute, .resume (.start 0), .accept,
        .keyRead 1 (.replicate 32 1), .readFails 0, .readFails 1] s :=
  ⟨_, rfl, (rejected_inert_iff .little (fun _ => true) .empty _ _ rfl).mpr (by decide)⟩

end MydakServer.Server
