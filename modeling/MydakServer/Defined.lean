import MydakServer.Rest

/-! When a step of the server is possible: exactly when what it waits for has come. No access to
a slot that does not exist keeps it from going on. -/
namespace MydakServer

/-- The vector can take one more object. -/
def SlotVector.HasRoom {α : Type*} (v : SlotVector α) : Prop :=
  v.emptySlots ≠ [] ∨ v.clients.length < maxSize

theorem SlotVector.HasRoom.emplaceBack {α : Type*} {v : SlotVector α} (h : v.HasRoom) (x : α) :
    v.emplaceBack x ≠ none := by
  unfold SlotVector.emplaceBack
  split
  · rename_i index rest he
    have hlt : index < v.clients.length := v.inRange index (by simp [he])
    simp [SlotVector.setSlot, hlt]
  · rename_i he
    have hlt : v.clients.length < maxSize := h.resolve_left (by simp [he])
    simp [hlt]

namespace Server
open Rendezvous

/-- A coroutine that has been suspended can go on: its statement has been executed, its call in
`add_message_to_queue` has come to its end, or there is a signal for it. -/
def Resumable (s : Server) (t : Task) : Prop :=
  (∃ ref stmt, s.db.queue.caller t = .resumed ref stmt) ∨
    s.signal t ≠ .waiting ∧ (s.calling t ∨ ∃ c, t = .socket c ∧ s.socket c = .asyncReceive)

/-- What the action waits for has come. -/
def Ready (s : Server) : Action → Prop
  | .accept => True
  | .keyFails c bytes => s.start c = .readKey ∧ bytes.length ≤ 32
  | .keyRead c _ => s.start c = .readKey
  | .greetings c _ => s.start c = .readGreetings
  | .message c bytes _ => ∃ recipient, s.start c = .readMessage bytes.length recipient
  | .readFails c => s.start c = .readGreetings ∨
      ∃ size recipient, s.start c = .readMessage size recipient
  | .written c => ∃ data m, s.socket c = .writing data m
  | .writeFails c n => ∃ data m, s.socket c = .writing data m ∧ n < m.data.length
  | .resume t => s.Resumable t
  | .cancel c => s.unowned c ∧ s.signalChannel c ≠ .idle
  | .loop => s.db.queue.loop = .spawned ∨ s.db.queue.loop = .pinged ∨
      ∃ ref, s.db.queue.loop = .signalled ref
  | .execute => (∃ ref, s.db.queue.loop = .executing ref) ∧
      ∃ stmt, s.db.pending.head? = some stmt ∧ s.db.tables.exec stmt ≠ none
  | .executeThrows => ∃ ref, s.db.queue.loop = .executing ref

variable {s : Server} {c : ConnId} {t : Task}

/-- The next coroutine that stores a message has not asked for anything yet. -/
theorem Asking.store_none (h : Asking s) : s.db.asked (.store s.stores) = none := by
  by_contra hne
  obtain ⟨stmt, hstmt⟩ := Option.ne_none_iff_exists'.mp hne
  have hlt := (h _ stmt hstmt).1
  omega

theorem addMessageToDb_isSome (hs : s.db.asked (.store s.stores) = none) (index : Nat)
    (message : Message) : (s.addMessageToDb index message).isSome := by
  have hreq := request_isSome hs .addMessage (.insertMessage index message) .unit
  simpa [addMessageToDb, Database.addMessage] using hreq

/-- `get_client_index` finds the slot of an entry, and `add_message_to_queue` the slot that
`get_client_index` has found. -/
theorem tryRelay_isSome (hw : s.registry.WellFormed)
    (hs : s.db.asked (.store s.stores) = none) (recipient : PublicKey) (message : Message)
    (lookup : Bool) (again : Option Server) :
    (s.tryRelay c recipient message lookup again).isSome := by
  have hstore := fun index => addMessageToDb_isSome hs index message
  cases hk : s.clientIndices recipient with
  | none => simpa [tryRelay, getClientIndex, hk] using hstore _
  | some e =>
    obtain ⟨⟨object, generation⟩, hi⟩ := Option.ne_none_iff_exists'.mp (hw.entries recipient e hk)
    have hi' : s.clientsSlotVector.slotAt e.index = some ⟨object, generation⟩ := hi
    cases object with
    | none => simpa [tryRelay, getClientIndex, hk, hi', ClientIndex.empty] using hstore _
    | some client =>
      obtain ⟨d, rfl⟩ := hw.objects _ _ client hi rfl
      have hvalid : e.index ≠ invalidIndex := by
        intro heq
        simp [heq, SlotVector.slotAt_invalid] at hi'
      simp [tryRelay, getClientIndex, hk, hi', hvalid, addMessageToQueue, Client.new]

theorem relay_isSome (hw : s.registry.WellFormed) (hs : s.db.asked (.store s.stores) = none)
    (recipient : PublicKey) (message : Message) (lookup : Bool) (tries : Nat) :
    (s.relay c recipient message lookup tries).isSome := by
  cases tries with
  | zero => exact tryRelay_isSome hw hs recipient message lookup _
  | succ tries => exact tryRelay_isSome hw hs recipient message lookup _

theorem loggedIn_isSome (hc : s.db.asked (.delayed c) = none) (indices : ClientIndex) :
    (s.loggedIn c indices).isSome :=
  sendDelayedMessages_isSome hc

theorem addClient_isSome (hs : s.db.asked (.start c) = none)
    (hd : s.db.asked (.delayed c) = none) (hroom : s.clientsSlotVector.HasRoom) :
    (s.addClient c).isSome := by
  by_cases hk : (s.clientIndices (s.connection c).publicKey).isSome
  · simpa [addClient, hk] using loggedIn_isSome hd _
  · obtain ⟨⟨db, v⟩, hreq⟩ := Option.isSome_iff_exists.mp (request_isSome hs
      (.addUserInsert (s.connection c).publicKey) (.insertUser (s.connection c).publicKey)
      (.userId maxUInt64))
    have hadd : s.db.addUser (.start c) (s.connection c).publicKey = some (db, v) := hreq
    simp only [addClient, hk, hadd, Option.bind_some, if_false, Bool.false_eq_true]
    obtain ⟨-, rfl, rfl⟩ | ⟨q, -, -, -, rfl⟩ := Database.request_cases hreq
    · exact userAdded_isSome hd (hroom.emplaceBack _) _
    · rfl

/-- A coroutine that goes on has got what it waited for. -/
theorem resumable_of_resume (h : (s.resume t).isSome) : s.Resumable t := by
  have hdb : (s.db.resume t).isSome → s.Resumable t := by
    intro hd
    obtain ⟨⟨db, v⟩, hd⟩ := Option.isSome_iff_exists.mp hd
    obtain ⟨r, q, ht, -⟩ := Database.resume_cases hd
    exact .inl (RequestQueue.take_eq_some.mp ht).1
  cases t with
  | start c =>
    cases hc : s.start c with
    | addClient =>
      refine hdb ?_
      cases hd : s.db.resume (.start c) with
      | none => simp [resume, hc, hd] at h
      | some r => rfl
    | addMessageToQueue =>
      refine .inr ⟨fun hw => ?_, .inl (by simp [calling, hc])⟩
      simp [resume, hc, hw] at h
    | _ => simp [resume, hc] at h
  | socket c =>
    cases hc : s.socket c with
    | asyncReceive =>
      refine .inr ⟨fun hw => ?_, .inr ⟨c, rfl, hc⟩⟩
      simp [resume, hc, hw] at h
    | _ => simp [resume, hc] at h
  | delayed c =>
    cases hc : s.delayed c with
    | fetching =>
      refine hdb ?_
      cases hd : s.db.resume (.delayed c) with
      | none => simp [resume, hc, hd] at h
      | some r => rfl
    | sending current rest sent =>
      refine .inr ⟨fun hw => ?_, .inl (by simp [calling, hc])⟩
      simp [resume, hc, hw] at h
    | deleting =>
      refine hdb ?_
      cases hd : s.db.resume (.delayed c) with
      | none => simp [resume, hc, hd] at h
      | some r => rfl
    | _ => simp [resume, hc] at h
  | store n =>
    refine hdb ?_
    cases hd : s.db.resume (.store n) with
    | none => simp [resume, hd] at h
    | some r => rfl

theorem Attentive.resume_iff (h : Attentive s) (hroom : s.clientsSlotVector.HasRoom) :
    (s.resume t).isSome ↔ s.Resumable t := by
  refine ⟨resumable_of_resume, fun hr => ?_⟩
  obtain ⟨ref, stmt, hcaller⟩ | ⟨hsig, hcalling | ⟨c, rfl, hc⟩⟩ := hr
  · obtain hsome | ⟨c, -, hfull⟩ := h.resume_isSome hcaller
    · exact hsome
    · exact absurd hfull (hroom.emplaceBack _)
  · exact h.call_isSome hcalling hsig
  · cases hs : s.signal (.socket c) with
    | waiting => exact absurd hs hsig
    | _ => simp [resume, hc, hs]

/-- The loop goes on with the statement at the back of the deque. -/
theorem execute_iff {d : Database Task} (h : d.queue.Coherent) : d.execute.isSome ↔
    (∃ ref, d.queue.loop = .executing ref) ∧
      ∃ stmt, d.pending.head? = some stmt ∧ d.tables.exec stmt ≠ none := by
  cases hl : d.queue.loop with
  | executing ref =>
    obtain ⟨e, rest, hb, rfl⟩ := h.back ref (by simp [hl, RequestQueue.heldRef])
    have hhead : d.pending.head? = some e.ticket.request := by
      simp [Database.pending, RequestQueue.pending, hl, RequestQueue.served, hb]
    have hentry : d.queue.entryAt e.ticket.id = some e := by simp [RequestQueue.entryAt, hb]
    cases hx : d.tables.exec e.ticket.request with
    | none => simp [Database.execute, hl, hentry, hhead, hx]
    | some r => simp [Database.execute, hl, hentry, hhead, hx, RequestQueue.complete]
  | _ => simp [Database.execute, hl]

theorem runLoop_iff {d : Database Task} : d.runLoop.isSome ↔ d.queue.loop = .spawned ∨
    d.queue.loop = .pinged ∨ ∃ ref, d.queue.loop = .signalled ref := by
  cases hl : d.queue.loop with
  | signalled ref =>
    cases hp : d.queue.popBack <;> simp [Database.runLoop, RequestQueue.runLoop, hl, hp]
  | _ => simp [Database.runLoop, RequestQueue.runLoop, hl]

/-- What start waits for in its message loop. -/
theorem Attentive.message_iff (h : Attentive s) (bytes : List UInt8) (lookup : Bool) :
    (s.messageRead c bytes lookup).isSome ↔
      ∃ recipient, s.start c = .readMessage bytes.length recipient := by
  cases hc : s.start c with
  | readMessage size recipient =>
    by_cases hlen : bytes.length = size
    · subst hlen
      have hrelay := relay_isSome (s := s.addFrame (s.frame c bytes.length recipient bytes))
        (c := c) h.settled.steady.sound.wellFormed h.asking.store_none recipient
        (s.frame c bytes.length recipient bytes).message lookup 2
      simpa [messageRead, hc] using hrelay
    · simp [messageRead, hc, hlen, Ne.symm hlen]
  | _ => simp [messageRead, hc]

theorem Attentive.keyRead_iff (h : Attentive s) (hroom : s.clientsSlotVector.HasRoom)
    (key : PublicKey) : (s.keyRead c key).isSome ↔ s.start c = .readKey := by
  by_cases hc : s.start c = .readKey
  · have hstart := h.asking.start_none (c := c) (by simp [hc])
    have hnone := h.settled.steady.sound.answer_none (.inr (.inl hc))
    have hadd := addClient_isSome (s := s.setKey c key) hstart
      (h.asking.unborn h.settled hnone) hroom
    simpa [keyRead, hc] using hadd
  · simp [keyRead, hc]

theorem Attentive.ready_iff (h : Attentive s) (hroom : s.clientsSlotVector.HasRoom)
    (a : Action) : (s.step a).isSome ↔ s.Ready a := by
  have hdb := h.settled.steady.linked.answered
  cases a with
  | accept => simp [Server.step, accept, Ready]
  | keyFails c bytes => simp [Server.step, keyFails, Ready]
  | keyRead c key => exact h.keyRead_iff hroom key
  | greetings c g =>
    by_cases hc : s.start c = .readGreetings
    · simp only [Server.step, greetings, hc, if_true, Ready, iff_true]
      split <;> rfl
    · simp [Server.step, greetings, hc, Ready]
  | message c bytes lookup => exact h.message_iff bytes lookup
  | readFails c => cases hc : s.start c <;> simp [Server.step, readFails, hc, Ready]
  | written c =>
    cases hc : s.socket c with
    | writing data m =>
      obtain ⟨e, rfl⟩ := h.settled.clients c data m hc
      cases hm : s.messages e <;> simp [Server.step, messageWritten, hc, hm, Client.new, Ready]
    | _ => simp [Server.step, messageWritten, hc, Ready]
  | writeFails c n =>
    cases hc : s.socket c with
    | writing data m =>
      obtain ⟨e, rfl⟩ := h.settled.clients c data m hc
      by_cases hn : n < m.data.length <;> simp [Server.step, writeFails, hc, hn, Client.new, Ready]
    | _ => simp [Server.step, writeFails, hc, Ready]
  | resume t => exact h.resume_iff hroom
  | cancel c =>
    by_cases hc : s.unowned c
    · have hidle := not_congr (Channel.cancel_eq_none (c := s.signalChannel c))
      simp [Server.step, cancel, hc, Ready, Option.isSome_iff_ne_none, hidle]
    · simp [Server.step, cancel, hc, Ready]
  | loop => simpa [Server.step, Ready] using runLoop_iff (d := s.db)
  | execute => simpa [Server.step, Ready] using execute_iff hdb.coherent
  | executeThrows =>
    cases hl : s.db.queue.loop <;>
      simp [Server.step, Database.executeThrows, RequestQueue.throws, hl, Ready]

/-- In every state of every run a step is possible exactly when what it waits for has come, as
long as the slot vector has room: each slot that a step looks up exists. -/
theorem steps_defined (native : Proto.Endian) (succeeds : StartStep → Bool) (tables : Tables)
    (as : List Action) (s : Server)
    (hr : Lts.run step (init native succeeds tables) as = some s)
    (hroom : s.clientsSlotVector.HasRoom) (a : Action) : (s.step a).isSome ↔ s.Ready a :=
  (run_attentive hr).ready_iff hroom a

/-- Key 2 has logged in twice: the second login has been rejected, and fetches under an id that no
user has. -/
theorem steps_defined_login : ∃ s, Lts.run step (init .little (fun _ => true) .empty)
    [.loop, .accept, .keyRead 0 (.replicate 32 2), .loop, .execute, .resume (.start 0), .accept,
      .keyRead 1 (.replicate 32 2)] = some s ∧ ∀ a, (s.step a).isSome ↔ s.Ready a := by
  have hsome : (Lts.run step (init .little (fun _ => true) .empty)
      [.loop, .accept, .keyRead 0 (.replicate 32 2), .loop, .execute, .resume (.start 0), .accept,
        .keyRead 1 (.replicate 32 2)]).any fun s => s.clientsSlotVector.clients.length < 2 := by
    decide +kernel
  obtain ⟨s, hr, hs⟩ := (Option.any_eq_true _ _).mp hsome
  have hlt : s.clientsSlotVector.clients.length < maxSize :=
    Nat.lt_of_lt_of_le (of_decide_eq_true hs) (by decide)
  exact ⟨s, hr, steps_defined .little (fun _ => true) .empty _ s hr (.inr hlt)⟩

end Server
end MydakServer
