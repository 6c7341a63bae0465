import MydakServer.Moves

/-! The messages that `client::add_message` puts into the queues of logins, step by step. -/
namespace MydakServer.Server

/-- The coroutine `caller` hands a message over to a login; `row` is the id of the stored
message it is, if it is one. -/
structure Push where
  caller : Task
  login : ConnId
  message : Message
  row : Option Nat
  deriving DecidableEq

/-- The client whose queue `add_message_to_queue` finds. -/
def clientAt (s : Server) (recipientIndex generation : Nat) : Option ConnId :=
  (s.clientsSlotVector.slotAt recipientIndex).bind fun slot =>
    if slot.generation = generation then slot.object.bind (·.data.messages) else none

/-- The stored message that `send_delayed_messages` tries to hand over when it resumes. -/
def nextRow (s : Server) (c : ConnId) : Option Row :=
  match s.delayed c with
  | .fetching =>
    match s.db.resume (.delayed c) with
    | some (_, some (.messages (row :: _))) => some row
    | _ => none
  | .sending _ (row :: _) _ => if s.signal (.delayed c) = .taken then some row else none
  | _ => none

/-- The message that a step puts into a queue. -/
def pushOf (s : Server) : Action → Option Push
  | .message c bytes lookup =>
    match s.start c with
    | .readMessage size recipient =>
      (s.getClientIndex recipient lookup).bind fun r =>
        (s.clientAt r.index r.generation).map fun login =>
          ⟨.start c, login, (s.frame c size recipient bytes).message, none⟩
    | _ => none
  | .resume (.delayed c) =>
    (s.nextRow c).bind fun row =>
      (s.clientAt (s.connection c).indices.index (s.connection c).indices.generation).map
        fun login => ⟨.delayed c, login, row.data, some row.id⟩
  | _ => none

/-- All messages that a run has put into queues, in their order. -/
def pushes (s : Server) (as : List Action) : List Push :=
  Lts.log step (fun s a => (s.pushOf a).toList) s as

variable {I : Tables → Prop}

theorem clientAt_eq_some {s : Server} (hw : s.registry.WellFormed) {i generation : Nat}
    {d : ConnId} : s.clientAt i generation = some d ↔
      s.clientsSlotVector.slotAt i = some ⟨some (.new d), generation⟩ := by
  constructor
  · intro h
    obtain ⟨⟨object, generation'⟩, hslot, h⟩ := Option.bind_eq_some_iff.mp h
    split at h
    · rename_i hg
      obtain ⟨client, ho, hd⟩ := Option.bind_eq_some_iff.mp h
      obtain rfl : object = some client := ho
      obtain rfl : generation' = generation := hg
      obtain ⟨e, rfl⟩ := hw.objects _ _ client hslot rfl
      cases hd
      exact hslot
    · cases h
  · intro h
    simp [clientAt, h, Client.new]

/-- `add_message_to_queue` fails where there is no client in the slot, or one of another
generation, and suspends where there is. -/
theorem addMessageToQueue_clientAt {s s' : Server} (hw : s.registry.WellFormed)
    {i generation : Nat} {message : Message} {t : Task} {r : SendResult}
    (h : s.addMessageToQueue i generation message t = some (s', r)) :
    (s.clientAt i generation = none ∧ s' = s ∧ ∃ code, r = .code code ∧ code ≠ .success) ∨
      ∃ d, s.clientAt i generation = some d ∧ r = .suspended ∧
        s' = (s.push d message).asyncSend d t := by
  obtain ⟨slot, hslot, -⟩ := Option.bind_eq_some_iff.mp h
  obtain ⟨hs, code, hr, hcode⟩ | ⟨d, hr, hd, hs⟩ := addMessageToQueue_cases hw h
  · refine .inl ⟨?_, hs, code, hr, hcode⟩
    cases hc : s.clientAt i generation with
    | none => rfl
    | some d =>
      simp [addMessageToQueue, (clientAt_eq_some hw).mp hc, Client.new, hr] at h
  · exact .inr ⟨d, (clientAt_eq_some hw).mpr hd, hr, hs⟩

/-- What a step does to the queues and to what has been written: it puts one message into a
queue and sends a signal, has written one message and takes out the front of a queue, if it is
not empty, or neither. -/
inductive Queues (s : Server) : Action → Server → Prop
  | push (a : Action) (p : Push) (c : ConnId) (state : DelayedState) (s' : Server)
    (hp : s.pushOf a = some p)
    (ha : Alike (((s.push p.login p.message).asyncSend p.login p.caller).setDelayed c state) s') :
    Queues s a s'
  | pop (c socket q : ConnId) (channel : Option ConnId) (message : Message) (s' : Server)
    (hc : s.socket c = .writing ⟨some socket, some q, channel⟩ message)
    (hm : s'.messages = Function.update s.messages q (s.messages q).tail)
    (hw : s'.written = Function.update s.written socket (s.written socket ++ [message])) :
    Queues s (.written c) s'
  | same (a : Action) (s' : Server) (hp : s.pushOf a = none) (hm : s'.messages = s.messages)
    (hw : s'.written = s.written) : Queues s a s'

theorem Queues.alike {s t s' : Server} {a : Action} (h : Queues s a t) (ha : Alike t s') :
    Queues s a s' := by
  cases h with
  | push _ p c state _ hp h => exact .push a p c state s' hp (h.trans ha)
  | pop c socket q channel message _ hc hm hw =>
    exact .pop c socket q channel message s' hc (by rw [ha.messages, hm]) (by rw [ha.written, hw])
  | same _ _ hp hm hw => exact .same a s' hp (by rw [ha.messages, hm]) (by rw [ha.written, hw])

/-- The queues and the writes after a push. -/
theorem queues_of_push {s s' : Server} {p : Push} {c : ConnId} {state : DelayedState}
    (ha : Alike (((s.push p.login p.message).asyncSend p.login p.caller).setDelayed c state) s') :
    s'.messages = Function.update s.messages p.login (s.messages p.login ++ [p.message]) ∧
      s'.written = s.written := by
  obtain ⟨hm, hw, -⟩ := (s.push p.login p.message).asyncSend_stays p.login p.caller
  exact ⟨ha.messages.trans hm, ha.written.trans hw⟩

/-- `send_delayed_messages` goes on with the rows it has left. -/
theorem sendDelayed_queues {s s₁ s' : Server} {c : ConnId} {rows : List Row} {ids : List Nat}
    (hw : s.registry.WellFormed) (ha : Alike s s₁) (hn : s.nextRow c = rows.head?)
    (h : s₁.sendDelayed c rows ids = some s') : Queues s (.resume (.delayed c)) s' := by
  have hw₁ : s₁.registry.WellFormed := ha.registry ▸ hw
  have hnone : s.pushOf (.resume (.delayed c)) = none → s₁.deleteSent c ids = some s' →
      Queues s (.resume (.delayed c)) s' := by
    intro hp hd
    obtain ⟨db, v, -, rfl⟩ := deleteSent_cases hd
    exact .same _ _ hp ha.messages ha.written
  have hat : ∀ i generation, s₁.clientAt i generation = s.clientAt i generation := by
    intro i generation
    rw [clientAt, clientAt, ha.clientsSlotVector]
  cases rows with
  | nil => exact hnone (by simp [pushOf, hn]) h
  | cons row rest =>
    obtain ⟨⟨s₂, r⟩, hq, h⟩ := Option.bind_eq_some_iff.mp h
    rw [ha.connection] at hq
    obtain ⟨hc, rfl, code, rfl, hcode⟩ | ⟨d, hc, rfl, rfl⟩ := addMessageToQueue_clientAt hw₁ hq
    · rw [hat] at hc
      refine hnone (by simp [pushOf, hn, hc]) ?_
      cases code with
      | success => exact absurd rfl hcode
      | _ => exact h
    · rw [hat] at hc
      cases h
      exact .push _ ⟨.delayed c, d, row.data, some row.id⟩ c (.sending row rest ids) _
        (by simp [pushOf, hn, hc])
        (((ha.push d row.data).asyncSend d (.delayed c)).setDelayed c _)

theorem delayed_queues {s s' : Server} {c : ConnId} (hw : s.registry.WellFormed)
    (h : s.resume (.delayed c) = some s') : Queues s (.resume (.delayed c)) s' := by
  cases resume_cases h with
  | fetched _ db rows _ hc hd h =>
    refine sendDelayed_queues hw (alike_db s db) ?_ h
    cases rows <;> simp [nextRow, hc, hd]
  | fetching _ db v hc hd hv =>
    refine .same _ _ ?_ rfl rfl
    cases v with
    | none => simp [pushOf, nextRow, hc, hd]
    | some v =>
      cases v with
      | messages rows => exact absurd rfl (hv rows)
      | _ => simp [pushOf, nextRow, hc, hd]
  | taken _ current rest sent _ hc hs h =>
    refine sendDelayed_queues hw (.refl s) ?_ h
    cases rest <;> simp [nextRow, hc, hs]
  | aborted _ current rest sent _ hc hs h =>
    obtain ⟨db, v, -, rfl⟩ := deleteSent_cases h
    refine .same _ _ ?_ rfl rfl
    cases rest <;> simp [pushOf, nextRow, hc, hs]
  | deleted _ db v hc hd => exact .same _ _ (by simp [pushOf, nextRow, hc]) rfl rfl

theorem message_queues {s s' : Server} (hs : Sound s) (hl : Linked I none s) {c : ConnId}
    {bytes : List UInt8} {lookup : Bool} (h : s.step (.message c bytes lookup) = some s') :
    Queues s (.message c bytes lookup) s' := by
  obtain ⟨size, recipient, hc, ⟨r, hr, hi, ha, -⟩ | ⟨e, d, generation, he, hd, ha⟩⟩ :=
    message_cases hs hl h
  · refine .same _ _ ?_ ha.messages ha.written
    simp [pushOf, hc, hr, hi, clientAt, SlotVector.slotAt_invalid]
  · refine .push _ ⟨.start c, d, (s.frame c size recipient bytes).message, none⟩ c
      (s.delayed c) _ ?_ ?_
    · simp [pushOf, hc, getClientIndex, he, hd, clientAt, Client.new]
    · have hself : ((s.push d (s.frame c size recipient bytes).message).asyncSend d
          (.start c)).setDelayed c (s.delayed c) =
            (s.push d (s.frame c size recipient bytes).message).asyncSend d (.start c) := by
        obtain ⟨channel, signal, heq⟩ :=
          (s.push d (s.frame c size recipient bytes).message).asyncSend_eq d (.start c)
        rw [heq, setDelayed, push, Function.update_eq_self]
      rwa [hself]

/-- A step that does not come to `add_message_to_queue`. -/
theorem Move.queues {s t : Server} {a : Action} (hm : Move I s a t) (hp : s.pushOf a = none)
    (hmessage : ∀ c bytes lookup, a ≠ .message c bytes lookup)
    (hdelayed : ∀ c, a ≠ .resume (.delayed c)) : Queues s a t := by
  cases hm with
  | grant _ c key g v id state =>
    obtain ⟨hm, hw, -⟩ :=
      ((s.setKey c key).emplaced c v { g with dbIndex := id }).socketCoroutine_stays c
    exact .same _ _ hp hm hw
  | relay c bytes lookup => exact absurd rfl (hmessage c bytes lookup)
  | hand c => exact absurd rfl (hdelayed c)
  | stop c => exact absurd rfl (hdelayed c)
  | park c =>
    obtain ⟨hm, hw, -⟩ := s.socketCoroutine_stays c
    exact .same _ _ hp hm hw
  | wrote c socket q channel message front rest hc hq =>
    obtain ⟨hm, hw, -⟩ := (s.popped socket q message rest).writeMessages_stays c
      ⟨some socket, some q, channel⟩ q
    exact .pop c socket q channel message _ hc (by rw [hm, hq]; rfl) hw
  | wroteNone c socket q channel message hc hq =>
    refine .pop c socket q channel message _ hc ?_ rfl
    rw [hq, List.tail_nil, ← hq, Function.update_eq_self]
    rfl
  | _ => exact .same _ _ hp rfl rfl

theorem step_queues {s s' : Server} {a : Action} (hs : Sound s) (hl : Linked I none s)
    (hstep : s.step a = some s') : Queues s a s' := by
  have hother : s.pushOf a = none → (∀ c bytes lookup, a ≠ .message c bytes lookup) →
      (∀ c, a ≠ .resume (.delayed c)) → Queues s a s' := by
    intro hp hmessage hdelayed
    obtain ⟨t, hm, ha⟩ := step_move hs hl hstep
    exact (hm.queues hp hmessage hdelayed).alike ha
  cases a with
  | message c bytes lookup => exact message_queues hs hl hstep
  | resume t =>
    cases t with
    | delayed c => exact delayed_queues hs.wellFormed hstep
    | _ => exact hother rfl (by simp) (by simp)
  | _ => exact hother rfl (by simp) (by simp)

/-- A push is made by the relay or by `send_delayed_messages`, to a client in a slot. -/
theorem pushOf_cases {s : Server} (hw : s.registry.WellFormed) {a : Action} {p : Push}
    (hp : s.pushOf a = some p) : ∃ i generation,
      s.clientsSlotVector.slotAt i = some ⟨some (.new p.login), generation⟩ ∧
      ((∃ c bytes lookup size recipient r, a = .message c bytes lookup ∧
          s.start c = .readMessage size recipient ∧ s.getClientIndex recipient lookup = some r ∧
          i = r.index ∧ p = ⟨.start c, p.login, (s.frame c size recipient bytes).message, none⟩) ∨
        ∃ c row, a = .resume (.delayed c) ∧ s.nextRow c = some row ∧
          i = (s.connection c).indices.index ∧ generation = (s.connection c).indices.generation ∧
          p = ⟨.delayed c, p.login, row.data, some row.id⟩) := by
  cases a with
  | message c bytes lookup =>
    cases hc : s.start c with
    | readMessage size recipient =>
      simp only [pushOf, hc] at hp
      obtain ⟨r, hr, hp⟩ := Option.bind_eq_some_iff.mp hp
      obtain ⟨d, hd, rfl⟩ := Option.map_eq_some_iff.mp hp
      exact ⟨r.index, r.generation, (clientAt_eq_some hw).mp hd,
        .inl ⟨c, bytes, lookup, size, recipient, r, rfl, hc, hr, rfl, rfl⟩⟩
    | _ => simp [pushOf, hc] at hp
  | resume t =>
    cases t with
    | delayed c =>
      obtain ⟨row, hrow, hp⟩ := Option.bind_eq_some_iff.mp hp
      obtain ⟨d, hd, rfl⟩ := Option.map_eq_some_iff.mp hp
      exact ⟨_, _, (clientAt_eq_some hw).mp hd, .inr ⟨c, row, rfl, hrow, rfl, rfl, rfl⟩⟩
    | _ => cases hp
  | _ => cases hp

/-- A step that appends to a queue is the push it makes. -/
theorem Queues.login {s s' : Server} {a : Action} (h : Queues s a s') {d : ConnId} {m : Message}
    (hm : s'.messages = Function.update s.messages d (s.messages d ++ [m])) :
    ∃ p, s.pushOf a = some p ∧ p.login = d ∧ p.message = m := by
  have hd : s'.messages d = s.messages d ++ [m] := by rw [hm, Function.update_self]
  cases h with
  | push _ p c state _ hp ha =>
    refine ⟨p, hp, ?_⟩
    rw [(queues_of_push ha).1] at hd
    by_cases hpd : p.login = d
    · subst hpd
      simpa using hd
    · simp [Function.update_of_ne (Ne.symm hpd)] at hd
  | pop c socket q channel message _ hc hm' hw =>
    rw [hm'] at hd
    by_cases hqd : d = q
    · subst hqd
      have hlen := congrArg List.length hd
      simp at hlen
    · simp [Function.update_of_ne hqd] at hd
  | same _ _ hp hm' hw => simp [hm'] at hd

end MydakServer.Server
