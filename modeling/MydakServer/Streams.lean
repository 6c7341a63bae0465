import MydakServer.Pushes
import MydakServer.Routing

/-! What the socket of a login carries: the messages that were put into its queue, one after
the other, written by its own socket coroutine. -/
namespace MydakServer.Server
open Rendezvous

/-- The messages that were put into the queue of a login. -/
def pushedTo (pushed : List Push) (c : ConnId) : List Message :=
  (pushed.filter (·.login = c)).map Push.message

/-- `socket_coroutine` goes on after a signal to its own client, or to one with an empty queue,
or to none. -/
def drainsOwn (s : Server) : Action → Bool
  | .resume (.socket c) =>
    match s.signal (.socket c), s.clientsSlotVector.slotAt (s.connection c).indices.index with
    | .taken, some ⟨some client, _⟩ =>
      client = .new c || client.data.messages.all fun q => (s.messages q).isEmpty
    | _, _ => true
  | _ => true

/-- A coroutine that writes, writes the front of its own queue to its own socket. -/
def WritesOwn (s : Server) : Prop := ∀ c data m, s.socket c = .writing data m →
  data = (Client.new c).data ∧ ∃ rest, s.messages c = m :: rest

/-- A coroutine writes to the socket that goes with the queue. -/
def WritesClient (s : Server) : Prop := ∀ c data m, s.socket c = .writing data m →
  ∃ e, data = (Client.new e).data

/-- What has been written to a login's socket, and then what is in its queue, is what was put
into the queue; only its own coroutine writes there, and never from an empty queue. -/
structure OwnStreams (s : Server) (pushed : List Push) : Prop where
  stream : ∀ c, s.written c ++ s.messages c = pushedTo pushed c
  writes : WritesOwn s

variable {I : Tables → Prop}

theorem WritesOwn.of_eq {s t : Server} (h : WritesOwn s) (hs : t.socket = s.socket)
    (hm : t.messages = s.messages) : WritesOwn t := by
  intro c data m hc
  rw [hs] at hc
  rw [hm]
  exact h c data m hc

theorem WritesOwn.push {s : Server} (h : WritesOwn s) (d : ConnId) (x : Message) :
    WritesOwn (s.push d x) := by
  intro c data m hc
  obtain ⟨hd, rest, hm⟩ := h c data m hc
  refine ⟨hd, ?_⟩
  by_cases hcd : c = d
  · subst hcd
    exact ⟨rest ++ [x], by simp [Server.push, hm]⟩
  · exact ⟨rest, by simpa [Server.push, Function.update_of_ne hcd] using hm⟩

theorem WritesOwn.asyncSend {s : Server} (h : WritesOwn s) (d : ConnId) (t : Task) :
    WritesOwn (s.asyncSend d t) := by
  exact h.of_eq (s.asyncSend_socket d t) (s.asyncSend_stays d t).messages

/-- One coroutine goes over to a state in which it writes what it should, or nothing. -/
theorem WritesOwn.update {s t : Server} (h : WritesOwn s) {c : ConnId} (state : SocketState)
    (hs : t.socket = Function.update s.socket c state)
    (hm : ∀ d, d ≠ c → t.messages d = s.messages d)
    (hstate : ∀ data m, state = .writing data m →
      data = (Client.new c).data ∧ ∃ rest, t.messages c = m :: rest) : WritesOwn t := by
  intro d data m hd
  rw [hs] at hd
  by_cases hdc : d = c
  · subst hdc
    exact hstate data m (by simpa using hd)
  · rw [hm d hdc]
    exact h d data m (by simpa [Function.update_of_ne hdc] using hd)

theorem socketCoroutine_socket (s : Server) (c : ConnId) : ∃ state,
    (s.socketCoroutine c).socket = Function.update s.socket c state ∧
      ∀ data m, state ≠ .writing data m := by
  obtain ⟨channel, signal, state, he, hstate⟩ := s.socketCoroutine_eq c
  refine ⟨state, by rw [he], ?_⟩
  obtain ⟨-, rfl⟩ | ⟨-, rfl⟩ := hstate <;> simp

/-- A coroutine that writes goes on with its message, or with the front of a queue: that of its
client, or of one it has just found in a slot. -/
theorem Move.writing_front {s t : Server} {a : Action} (hm : Move I s a t) {c : ConnId}
    {data : ClientData} {m : Message} (h : t.socket c = .writing data m) :
    s.socket c = .writing data m ∨
      ((∃ m', s.socket c = .writing data m') ∨ ∃ e i generation, data = (Client.new e).data ∧
        s.clientsSlotVector.slotAt i = some ⟨some (.new e), generation⟩) ∧
      ∃ q rest, data.messages = some q ∧ t.messages q = m :: rest := by
  have hupdate : ∀ d state, t.socket = Function.update s.socket d state →
      (∀ data m, state ≠ .writing data m) → s.socket c = .writing data m := by
    intro d state ht hstate
    rw [ht] at h
    by_cases hcd : c = d
    · subst hcd
      exact absurd (by simpa using h) (hstate data m)
    · simpa [Function.update_of_ne hcd] using h
  have hsend : ∀ (u : Server) d v, u.socket = s.socket → t.socket = (u.asyncSend d v).socket →
      s.socket c = .writing data m := by
    intro u d v hu ht
    rw [← hu, ← h, ht, asyncSend_socket]
  cases hm with
  | grant _ d key g v id state =>
    obtain ⟨state', hs, hstate⟩ :=
      ((s.setKey d key).emplaced d v { g with dbIndex := id }).socketCoroutine_socket d
    exact .inl (hupdate d state' hs hstate)
  | relay d bytes lookup size recipient e f => exact .inl (hsend (s.push f _) f (.start d) rfl rfl)
  | hand d f row => exact .inl (hsend (s.push f row.data) f (.delayed d) rfl rfl)
  | park d =>
    obtain ⟨state, hs, hstate⟩ := s.socketCoroutine_socket d
    exact .inl (hupdate d state hs hstate)
  | write d e generation x rest hd hs he hq =>
    by_cases hcd : c = d
    · subst hcd
      simp only [Server.setSocket, Function.update_self, SocketState.writing.injEq] at h
      obtain ⟨rfl, rfl⟩ := h
      exact .inr ⟨.inr ⟨e, _, generation, rfl, he⟩, e, rest, rfl, hq⟩
    · exact .inl (by simpa [Server.setSocket, Function.update_of_ne hcd] using h)
  | wrote d socket q channel x front rest hd =>
    unfold writeMessages at h hupdate ⊢
    split at h
    · rename_i hq
      simp only [hq] at hupdate
      obtain ⟨state, hs, hstate⟩ := (s.popped socket q x rest).socketCoroutine_socket d
      exact .inl (hupdate d state hs hstate)
    · rename_i next rest' hq
      by_cases hcd : c = d
      · subst hcd
        simp only [Server.setSocket, Function.update_self, SocketState.writing.injEq] at h
        obtain ⟨rfl, rfl⟩ := h
        exact .inr ⟨.inl ⟨x, hd⟩, q, rest', rfl, by simp only [hq, Server.setSocket]⟩
      · exact .inl (by simpa [Server.setSocket, popped, Function.update_of_ne hcd] using h)
  | wroteNone d => exact .inl (hupdate d .noMessage rfl (by simp))
  | tear d | terminate d => exact .inl (hupdate d .terminated rfl (by simp))
  | _ => exact .inl h

/-- A coroutine that writes goes on with its client, or has just found a client in a slot. -/
theorem Move.writing {s t : Server} {a : Action} (hm : Move I s a t) {c : ConnId}
    {data : ClientData} {m : Message} (h : t.socket c = .writing data m) :
    (∃ m', s.socket c = .writing data m') ∨ ∃ e i generation, data = (Client.new e).data ∧
      s.clientsSlotVector.slotAt i = some ⟨some (.new e), generation⟩ := by
  obtain hold | ⟨hclient, -⟩ := hm.writing_front h
  · exact .inl ⟨m, hold⟩
  · exact hclient

theorem WritesClient.move {s t s' : Server} {a : Action} (h : WritesClient s) (hm : Move I s a t)
    (ha : Alike t s') : WritesClient s' := by
  intro c data m hc
  rw [ha.socket] at hc
  obtain ⟨m', hw⟩ | ⟨e, -, -, hdata, -⟩ := hm.writing hc
  · exact h c data m' hw
  · exact ⟨e, hdata⟩

theorem WritesOwn.socketCoroutine {s : Server} (h : WritesOwn s) (c : ConnId) :
    WritesOwn (s.socketCoroutine c) := by
  obtain ⟨state, hs, hstate⟩ := s.socketCoroutine_socket c
  refine h.update state hs (fun d _ => ?_) fun data m hw => absurd hw (hstate data m)
  rw [(s.socketCoroutine_stays c).messages]

/-- The coroutine has written the front of its queue, and takes it out. -/
theorem WritesOwn.wrote {s : Server} (h : WritesOwn s) (c : ConnId) (m : Message)
    (rest : List Message) :
    WritesOwn ((s.popped c c m rest).writeMessages c (Client.new c).data c) := by
  have hother : ∀ d, d ≠ c → (s.popped c c m rest).messages d = s.messages d := by
    intro d hd
    simp [popped, Function.update_of_ne hd]
  unfold writeMessages
  split
  · rename_i hnil
    obtain ⟨state, hs, hstate⟩ := (s.popped c c m rest).socketCoroutine_socket c
    refine h.update state hs (fun d hd => ?_) fun data m hw => absurd hw (hstate data m)
    rw [((s.popped c c m rest).socketCoroutine_stays c).messages, hother d hd]
  · rename_i m' rest' hm'
    refine h.update (.writing (Client.new c).data m') rfl hother fun data x hw => ?_
    cases hw
    exact ⟨rfl, rest', hm'⟩

theorem drainsOwn_write {s : Server} {c e : ConnId} {generation : Nat} {m : Message}
    {rest : List Message} (hd : s.drainsOwn (.resume (.socket c)))
    (hs : s.signal (.socket c) = .taken)
    (he : s.clientsSlotVector.slotAt (s.connection c).indices.index =
      some ⟨some (.new e), generation⟩) (hm : s.messages e = m :: rest) : e = c := by
  simp only [drainsOwn, hs, he] at hd
  simpa [Client.new, hm] using hd

theorem WritesOwn.move {s t : Server} {a : Action} (h : WritesOwn s) (hd : s.drainsOwn a)
    (hm : Move I s a t) : WritesOwn t := by
  cases hm with
  | grant _ c key g v id state =>
    have h₁ : WritesOwn ((s.setKey c key).emplaced c v { g with dbIndex := id }) :=
      h.of_eq rfl rfl
    exact (h₁.socketCoroutine c).of_eq rfl rfl
  | relay c bytes lookup size recipient e d => exact (h.push d _).asyncSend d _
  | hand c d row rest sent => exact ((h.push d row.data).asyncSend d _).of_eq rfl rfl
  | park c => exact h.socketCoroutine c
  | write c e generation m rest hc hs he hq =>
    obtain rfl := drainsOwn_write hd hs he hq
    refine h.update (.writing (Client.new e).data m) rfl (fun _ _ => rfl) ?_
    intro data x hw
    cases hw
    exact ⟨rfl, rest, hq⟩
  | wrote c socket q channel m front rest hc hq =>
    obtain ⟨hdata, -⟩ := h c _ m hc
    cases hdata
    exact h.wrote _ m rest
  | wroteNone c socket q channel m =>
    exact h.update .noMessage rfl (fun _ _ => rfl) fun _ _ hw => by cases hw
  | tear c | terminate c =>
    exact h.update .terminated rfl (fun _ _ => rfl) fun _ _ hw => by cases hw
  | _ => exact h.of_eq rfl rfl

/-- The stream of a login grows by what is put into its queue, if every coroutine that writes
writes the front of its own queue. -/
theorem Queues.stream {s s' : Server} {a : Action} (h : Queues s a s') (hw : WritesOwn s)
    (c : ConnId) : s'.written c ++ s'.messages c =
      s.written c ++ s.messages c ++ pushedTo (s.pushOf a).toList c := by
  cases h with
  | push _ p _ _ _ hp ha =>
    obtain ⟨hm, hwr⟩ := queues_of_push ha
    rw [hp, hm, hwr]
    by_cases hc : p.login = c
    · subst hc
      simp [pushedTo]
    · simp [pushedTo, hc, Function.update_of_ne (Ne.symm hc)]
  | pop d socket q channel m _ hd hm hwr =>
    obtain ⟨hdata, rest, hq⟩ := hw d _ m hd
    cases hdata
    rw [show s.pushOf (.written d) = none from rfl, hm, hwr]
    by_cases hcd : c = d
    · subst hcd
      simp [pushedTo, hq]
    · simp [pushedTo, Function.update_of_ne hcd]
  | same _ _ hp hm hwr => simp [hp, hm, hwr, pushedTo]

/-- The stream of a login stays what was put into its queue. -/
theorem stream_step {s s' : Server} {a : Action} {pushed : List Push} (hw : WritesOwn s)
    (h : ∀ c, s.written c ++ s.messages c = pushedTo pushed c) (hq : Queues s a s') (c : ConnId) :
    s'.written c ++ s'.messages c = pushedTo (pushed ++ (s.pushOf a).toList) c := by
  rw [hq.stream hw, h, pushedTo, pushedTo, pushedTo, List.filter_append, List.map_append]

theorem init_ownStreams (native : Proto.Endian) (succeeds : StartStep → Bool) (tables : Tables) :
    OwnStreams (init native succeeds tables) [] := by
  constructor
  · intro c
    rfl
  · intro c data m hc
    cases hc

/-- A coroutine that goes on to another login's queue writes what it finds there. -/
theorem drainsOwn_of_writesOwn {s s' : Server} {a : Action} (hw : s.registry.WellFormed)
    (hstep : s.step a = some s') (h : WritesOwn s') : s.drainsOwn a := by
  by_contra hn
  cases a with
  | resume t =>
    cases t with
    | socket c =>
      cases hslot : s.clientsSlotVector.slotAt (s.connection c).indices.index with
      | none => simp [drainsOwn, hslot] at hn
      | some slot =>
        obtain ⟨object, generation⟩ := slot
        cases object with
        | none => simp [drainsOwn, hslot] at hn
        | some client =>
          obtain ⟨e, rfl⟩ := hw.objects _ _ client hslot rfl
          cases resume_cases (show s.resume (.socket c) = some s' from hstep) with
          | signalled _ hc hs =>
            simp only [drainsOwn, hs, hslot] at hn
            cases hm : s.messages e with
            | nil => simp [Client.new, hm] at hn
            | cons m rest =>
              have hsocket : (s.signalled c).socket c = .writing (Client.new e).data m := by
                simp [Server.signalled, hslot, Client.new, writeMessages, hm, setSocket]
              obtain ⟨hdata, -⟩ := h c _ m hsocket
              cases hdata
              simp at hn
          | socketAborted _ hc hs => simp [drainsOwn, hs] at hn
    | _ => simp [drainsOwn] at hn
  | _ => simp [drainsOwn] at hn

/-- Only the socket coroutine goes on to a queue. -/
theorem drainsOwn_of_socket {s : Server} {a : Action}
    (h : ∀ c, a = .resume (.socket c) → s.drainsOwn a) : s.drainsOwn a := by
  cases a with
  | resume t =>
    cases t with
    | socket c => exact h c rfl
    | _ => rfl
  | _ => rfl

theorem WritesOwn.step {s s' : Server} {a : Action} (h : WritesOwn s) (hs : Sound s)
    (hl : Linked I none s) (hd : s.drainsOwn a) (hstep : s.step a = some s') : WritesOwn s' := by
  obtain ⟨t, hm, ha⟩ := step_move hs hl hstep
  exact (h.move hd hm).of_eq ha.socket ha.messages

theorem OwnStreams.step {s s' : Server} {a : Action} {pushed : List Push}
    (h : OwnStreams s pushed) (hs : Sound s) (hl : Linked I none s) (hd : s.drainsOwn a)
    (hstep : s.step a = some s') : OwnStreams s' (pushed ++ (s.pushOf a).toList) :=
  ⟨stream_step h.writes h.stream (step_queues hs hl hstep), h.writes.step hs hl hd hstep⟩

theorem run_ownStreams {native : Proto.Endian} {succeeds : StartStep → Bool} {tables : Tables}
    {as : List Action} {s : Server} (hr : Lts.run step (init native succeeds tables) as = some s)
    (hown : Lts.Along step (fun s a => s.drainsOwn a) (init native succeeds tables) as) :
    OwnStreams s ((init native succeeds tables).pushes as) := by
  refine (Lts.invariant_log
    (I := fun s l => (Sound s ∧ Linked (fun _ => True) none s) ∧ OwnStreams s l) ?_
    ⟨⟨init_sound native succeeds tables, init_linked native succeeds trivial⟩,
      init_ownStreams native succeeds tables⟩ hown hr).2
  rintro s l a t ⟨⟨hs, hl⟩, h⟩ hd hstep
  exact ⟨⟨hs.step hstep, (hl.step hs (fun _ _ _ _ _ => trivial) hstep).1⟩,
    h.step hs hl hd hstep⟩

/-- Every login's stream is its own in all states of a run, exactly when no socket coroutine
goes on in it to the filled queue of another login, which has been given its slot. -/
theorem streams_own_iff (native : Proto.Endian) (succeeds : StartStep → Bool) (tables : Tables)
    (as : List Action) (s : Server)
    (hr : Lts.run step (init native succeeds tables) as = some s) :
    (∀ bs, bs <+: as → ∀ t, Lts.run step (init native succeeds tables) bs = some t →
      OwnStreams t ((init native succeeds tables).pushes bs)) ↔
      Lts.Along step (fun s a => s.drainsOwn a) (init native succeeds tables) as := by
  constructor
  · intro h
    refine Lts.along_of_always (P := fun s => WritesOwn s ∧ Sound s) ?_ hr
      fun bs hp t ht => ⟨(h bs hp t ht).writes, run_sound ht⟩
    exact fun s a t hstep hs ht => drainsOwn_of_writesOwn hs.2.wellFormed hstep ht.1
  · exact fun hc bs hp t ht => run_ownStreams ht (hc.initial hp)

/-- Key 2 writes to key 1, whose session ends before its socket coroutine goes on. Key 4 gets
the slot, and key 3 writes to it. -/
def slotInherited : List Action :=
  [.loop, .accept, .keyRead 0 (.replicate 32 1), .loop, .execute, .resume (.start 0), .accept,
    .keyRead 1 (.replicate 32 2), .loop, .execute, .resume (.delayed 0), .loop, .execute,
    .resume (.start 1), .accept, .keyRead 2 (.replicate 32 3), .loop, .execute,
    .resume (.delayed 1), .loop, .execute, .resume (.start 2), .accept,
    .keyRead 3 (.replicate 32 4), .loop, .execute, .resume (.delayed 2),
    .greetings 1 (greetingsTo 1), .greetings 2 (greetingsTo 4), .loop, .execute,
    .message 1 [7] true, .readFails 0, .resume (.start 3), .message 2 [8] true,
    .resume (.socket 0)]

theorem not_streams_own :
    ¬ ∀ bs, bs <+: slotInherited → ∀ t,
      Lts.run step (init .little (fun _ => true) .empty) bs = some t →
      OwnStreams t ((init .little (fun _ => true) .empty).pushes bs) := by
  intro h
  have hrun : (Lts.run step (init .little (fun _ => true) .empty) slotInherited).any fun s =>
      (s.socket 0).holds 3 := by
    decide +kernel
  obtain ⟨s, hs, hholds⟩ := (Option.any_eq_true _ _).mp hrun
  have hw := (h _ (List.prefix_refl _) s hs).writes 0
  cases hc : s.socket 0 with
  | writing data m =>
    obtain ⟨hdata, -⟩ := hw data m hc
    simp [hc, SocketState.holds, hdata, Client.new] at hholds
  | _ => simp [hc, SocketState.holds] at hholds

theorem streams_own_session : ∃ s,
    Lts.run step (init .little (fun _ => true) .empty) writtenToSession = some s ∧
      ∀ bs, bs <+: writtenToSession → ∀ t,
        Lts.run step (init .little (fun _ => true) .empty) bs = some t →
        OwnStreams t ((init .little (fun _ => true) .empty).pushes bs) := by
  have hsome : (Lts.run step (init .little (fun _ => true) .empty) writtenToSession).isSome := by
    decide +kernel
  obtain ⟨s, hr⟩ := Option.isSome_iff_exists.mp hsome
  exact ⟨s, hr, (streams_own_iff .little (fun _ => true) .empty writtenToSession s hr).mpr
    (by decide +kernel)⟩

end MydakServer.Server
