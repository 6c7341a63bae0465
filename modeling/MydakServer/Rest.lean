import MydakServer.Suspensions

/-! The server at rest: which coroutines still wait, and for what. -/
namespace MydakServer.Server
open Rendezvous
variable {I : Tables → Prop}

/-- A coroutine that waits for no statement can ask for one. -/
theorem request_isSome {d : Database Task} {t : Task} (ht : d.asked t = none) (op : Operation)
    (stmt : Statement) (failed : Value) : (d.request t op stmt failed).isSome := by
  have hidle : d.queue.caller t = .idle := by
    unfold Database.asked at ht
    split at ht
    · assumption
    · cases ht
    · cases ht
  unfold Database.request
  split <;> simp [RequestQueue.asyncExecuteQueued, hidle]

/-- A coroutine whose statement has been executed can go on. -/
theorem resumeDb_isSome {d : Database Task} (h : d.Answered I) {t : Task} {ref : Nat}
    {stmt : Statement} (ht : d.queue.caller t = .resumed ref stmt) : (d.resume t).isSome := by
  obtain ⟨r, hr, -⟩ := h.coherent.resumed t ref stmt ht
  have htake := RequestQueue.take_eq_some.mpr ⟨⟨ref, stmt, ht⟩, hr, rfl⟩
  have hsends := h.sends t stmt (by simp [Database.asked, ht])
  unfold Database.resume
  rw [htake]
  cases hop : d.operation t with
  | idle => simp [hop, Operation.Sends] at hsends
  | addUserInsert key =>
    simp only [Option.bind_some]
    split
    · rfl
    · exact request_isSome (by simp [Database.asked]) _ _ _
  | _ => rfl

theorem deleteSent_isSome {s : Server} {c : ConnId} (hc : s.db.asked (.delayed c) = none)
    (ids : List Nat) : (s.deleteSent c ids).isSome := by
  unfold deleteSent Database.deleteDelayedMessages
  split
  · rfl
  · simpa using request_isSome hc .deleteDelayedMessages (.deleteMessages ids) .unit

theorem sendDelayed_isSome {s : Server} (hw : s.registry.WellFormed) {c : ConnId}
    (hc : s.db.asked (.delayed c) = none) {rows : List Row}
    (hslot : rows ≠ [] → s.clientsSlotVector.slotAt (s.connection c).indices.index ≠ none)
    (ids : List Nat) : (s.sendDelayed c rows ids).isSome := by
  cases rows with
  | nil => exact deleteSent_isSome hc ids
  | cons row rest =>
    obtain ⟨⟨object, generation⟩, hi⟩ := Option.ne_none_iff_exists'.mp (hslot (by simp))
    unfold sendDelayed addMessageToQueue
    cases object with
    | none => simpa [hi] using deleteSent_isSome hc ids
    | some client =>
      obtain ⟨d, rfl⟩ := hw.objects _ _ client hi rfl
      by_cases hg : generation = (s.connection c).indices.generation
      · simp [hi, hg, Client.new]
      · simpa [hi, hg] using deleteSent_isSome hc ids

theorem sendDelayedMessages_isSome {s : Server} {c : ConnId}
    (hc : s.db.asked (.delayed c) = none) : (s.sendDelayedMessages c).isSome := by
  obtain ⟨⟨db, v⟩, hd⟩ := Option.isSome_iff_exists.mp (request_isSome hc .getDelayedMessages
    (.selectMessages (s.connection c).indices.dbIndex) (.messages []))
  have hget : s.db.getDelayedMessages (.delayed c) (s.connection c).indices.dbIndex =
    some (db, v) := hd
  unfold sendDelayedMessages
  rw [hget]
  obtain ⟨-, rfl, rfl⟩ | ⟨q, -, -, -, rfl⟩ := Database.request_cases hd
  · exact deleteSent_isSome (s := s) hc []
  · rfl

theorem userAdded_isSome {s : Server} {c : ConnId} (hc : s.db.asked (.delayed c) = none)
    (hv : s.clientsSlotVector.emplaceBack (.new c) ≠ none) (id : Nat) :
    (s.userAdded c id).isSome := by
  obtain ⟨⟨g, v⟩, hv⟩ := Option.ne_none_iff_exists'.mp hv
  unfold userAdded
  simp only [hv, Option.bind_some]
  refine sendDelayedMessages_isSome ?_
  simpa [setStart, socketCoroutine_db] using hc

theorem Settled.inRange {s : Server} (h : Settled s) {c : ConnId} (hc : ¬ s.Unserved c) :
    s.clientsSlotVector.slotAt (s.connection c).indices.index ≠ none := by
  simp only [Unserved, not_forall] at hc
  obtain ⟨g, hg, hne⟩ := hc
  have hindices : (s.connection c).indices = (s.answer c).getD {} :=
    h.steady.sound.wellFormed.indices c
  rw [hindices, hg]
  exact h.steady.sound.wellFormed.inRange c g hg hne

/-- No user has the id that a rejected login asks for, so it is sent no stored message. -/
theorem Settled.fetched_rejected {s : Server} (h : Settled s) {c : ConnId}
    (hc : s.answer c = some .empty) (hf : s.delayed c = .fetching) {db : Database Task}
    {rows : List Row} (hd : s.db.resume (.delayed c) = some (db, some (.messages rows))) :
    rows = [] := by
  have hk := h.steady.linked.fetching c (by simp) hf
  have hindices : (s.connection c).indices = (s.answer c).getD {} :=
    h.steady.sound.wellFormed.indices c
  obtain ⟨-, stmt, hs, ⟨value, hv, hans, -⟩ | ⟨key, e, -, hv, -⟩⟩ :=
    h.steady.linked.answered.resume hd
  · cases hv
    rw [hs, Option.some.injEq] at hk
    subst hk
    refine List.eq_nil_iff_forall_not_mem.mpr fun row hrow => ?_
    obtain ⟨hid, hfetched⟩ := hans row hrow
    obtain ⟨u, hu, huid⟩ := hfetched.user
    have hlt := (s.db.tables.userIds u hu).2
    have hrange := s.db.tables.userIdRange.2
    rw [hindices, hc] at hid
    simp only [Option.getD_some, ClientIndex.empty, invalidIndex] at hid
    omega
  · cases hv

/-- `send_delayed_messages` goes on with the rows that it has fetched. -/
theorem Settled.fetched_isSome {s : Server} (h : Settled s) {c : ConnId}
    (hf : s.delayed c = .fetching) {db : Database Task} {v : Option Value}
    (hd : s.db.resume (.delayed c) = some (db, v)) : (s.resume (.delayed c)).isSome := by
  have hans := h.steady.linked.answered
  obtain ⟨rows, rfl⟩ := h.steady.linked.fetches hf hd
  obtain ⟨-, stmt, -, ⟨value, -, -, hr⟩ | ⟨key, e, -, hv, -⟩⟩ := hans.resume hd
  · have hrows : rows ≠ [] →
        s.clientsSlotVector.slotAt (s.connection c).indices.index ≠ none := by
      intro hne
      refine h.inRange fun hun => hne ?_
      cases hc : s.answer c with
      | none => simp [h.reached.begun c hc] at hf
      | some g =>
        obtain rfl := hun g hc
        exact h.fetched_rejected hc hf hd
    simp only [resume, hf, hd, Option.bind_some]
    exact sendDelayed_isSome (s := { s with db }) h.steady.sound.wellFormed
      (asked_none_of_released hr) hrows []
  · cases hv

/-- What a coroutine waits for is still to come, or `add_client` finds no room for a client. -/
theorem Attentive.resume_isSome {s : Server} (h : Attentive s) {t : Task} {ref : Nat}
    {stmt : Statement} (ht : s.db.queue.caller t = .resumed ref stmt) :
    (s.resume t).isSome ∨ ∃ c, t = .start c ∧ s.clientsSlotVector.emplaceBack (.new c) = none := by
  have hans := h.settled.steady.linked.answered
  have hasked : s.db.asked t = some stmt := by simp [Database.asked, ht]
  obtain ⟨⟨db, v⟩, hd⟩ := Option.isSome_iff_exists.mp (resumeDb_isSome hans ht)
  have hwaits := h.asking t stmt hasked
  cases t with
  | socket c => exact hwaits.elim
  | store n => exact .inl (by simp [resume, hd])
  | start c =>
    have hc : s.start c = .addClient := hwaits.1
    by_cases hv : s.clientsSlotVector.emplaceBack (.new c) = none
    · exact .inr ⟨c, rfl, hv⟩
    · refine .inl ?_
      simp only [resume, hc, hd, Option.bind_some]
      split
      · rename_i id heq
        cases heq
        have hnone := h.settled.steady.sound.answer_none (.inr (.inr hc))
        refine userAdded_isSome (s := { s with db }) ?_ hv id
        exact (resume_asked hans hd (by simp)).trans (h.asking.unborn h.settled hnone)
      · rfl
  | delayed c =>
    refine .inl ?_
    obtain ⟨hf, -⟩ | ⟨hdel, -⟩ := hwaits
    · exact h.settled.fetched_isSome hf hd
    · simp [resume, hdel, hd]

/-- A coroutine whose call in `add_message_to_queue` has come to its end can go on. -/
theorem Attentive.call_isSome {s : Server} (h : Attentive s) {t : Task} (ht : s.calling t)
    (hs : s.signal t ≠ .waiting) : (s.resume t).isSome := by
  cases t with
  | start c =>
    have hc : s.start c = .addMessageToQueue := by simpa [calling] using ht
    simp [resume, hc, hs]
  | delayed c =>
    cases hc : s.delayed c with
    | sending current rest sent =>
      have hfree : s.db.asked (.delayed c) = none :=
        h.asking.delayed_none (by simp [hc]) (by simp [hc])
      have hserved : ¬ s.Unserved c := by
        intro hun
        cases ha : s.answer c with
        | none => simp [h.settled.reached.begun c ha] at hc
        | some g =>
          obtain rfl := hun g ha
          obtain hd | hd := h.settled.steady.aside.delayed c ha <;> simp [hd] at hc
      simp only [resume, hc]
      cases hsig : s.signal (.delayed c) with
      | waiting => exact absurd hsig hs
      | taken =>
        exact sendDelayed_isSome h.settled.steady.sound.wellFormed hfree
          (fun _ => h.settled.inRange hserved) _
      | aborted => exact deleteSent_isSome hfree _
    | _ => simp [calling, hc] at ht
  | _ => cases ht

/-- The connection is in its slot, and its socket coroutine has not stopped. -/
def Writable (s : Server) (c : ConnId) : Prop :=
  s.registered c ∧ s.socket c ≠ .terminated ∧ ¬ (s.socket c).undefined

/-- A write can complete. -/
theorem Settled.written_isSome {s : Server} (h : Settled s) {c : ConnId} {data : ClientData}
    {m : Message} (hc : s.socket c = .writing data m) : s.step (.written c) ≠ none := by
  obtain ⟨e, rfl⟩ := h.clients c data m hc
  simp only [Server.step, messageWritten, hc, Client.new]
  split <;> simp

/-- What can happen of itself to the connections and the stores there are. Where a write can fail,
it can also complete. -/
def ownActions (s : Server) : List Action :=
  [.loop, .execute, .executeThrows] ++
    (List.range s.accepted).flatMap (fun c => [.written c, .cancel c,
      .resume (.start c), .resume (.socket c), .resume (.delayed c)]) ++
    (List.range s.stores).map fun n => .resume (.store n)

theorem Attentive.resting_iff (h : Attentive s) :
    Resting s ↔ ∀ a ∈ s.ownActions, s.step a = none := by
  constructor
  · intro hrest a ha
    refine hrest a ?_
    simp only [ownActions, List.mem_append, List.mem_cons, List.mem_flatMap, List.mem_map] at ha
    aesop
  · intro hnone a ha
    have hconn : ∀ c < s.accepted, ∀ b ∈ [.written c, .cancel c,
        .resume (.start c), .resume (.socket c), .resume (.delayed c)], s.step b = none := by
      intro c hc b hb
      refine hnone b ?_
      simp only [ownActions, List.mem_append, List.mem_flatMap, List.mem_range]
      exact .inl (.inr ⟨c, hc, hb⟩)
    cases a with
    | loop | execute | executeThrows => exact hnone _ (by simp [ownActions])
    | written c | cancel c =>
      by_cases hc : c < s.accepted
      · exact hconn c hc _ (by simp)
      · obtain ⟨hstart, hsocket, -⟩ := h.settled.unborn hc
        simp [Server.step, messageWritten, cancel, unowned, hstart, hsocket]
    | writeFails c n =>
      have hwriting : ∀ data m, s.socket c ≠ .writing data m := by
        intro data m hsocket
        by_cases hc : c < s.accepted
        · exact h.settled.written_isSome hsocket (hconn c hc (.written c) (by simp))
        · simp [(h.settled.unborn hc).2.1] at hsocket
      simp only [Server.step, writeFails]
      split
      · exact absurd ‹_› (hwriting _ _)
      · rfl
    | resume t =>
      cases t with
      | store n =>
        by_cases hn : n < s.stores
        · exact hnone _ (by simp [ownActions, hn])
        · by_contra hsome
          obtain ⟨u, hu⟩ := Option.ne_none_iff_exists'.mp hsome
          obtain ⟨⟨db, v⟩, hd, -⟩ := Option.map_eq_some_iff.mp hu
          obtain ⟨r, q, ht, -⟩ := Database.resume_cases hd
          obtain ⟨⟨ref, stmt, hcaller⟩, -⟩ := RequestQueue.take_eq_some.mp ht
          have hwaits := h.asking (.store n) stmt (by simp [Database.asked, hcaller])
          exact hn hwaits.1
      | start c | socket c | delayed c =>
        by_cases hc : c < s.accepted
        · exact hconn c hc _ (by simp)
        · obtain ⟨hstart, hsocket, hdelayed⟩ := h.settled.unborn hc
          simp [Server.step, resume, hstart, hsocket, hdelayed]
    | _ => cases ha

/-- At rest the loop of the request queue is dead, or waits, and then no coroutine waits for a
statement, but for logins that find no free slot; every session has an empty queue, or has stopped
writing; and a coroutine waits in `add_message_to_queue` only for a connection that has not ended
and has stopped writing. -/
structure AtRest (s : Server) : Prop where
  database : s.db.queue.loop = .unborn ∨ s.db.queue.loop = .terminated ∨
    s.db.queue.loop = .waiting ∧ ∀ t, s.db.asked t = none ∨
      ∃ c, t = .start c ∧ s.clientsSlotVector.emplaceBack (.new c) = none
  fetched : s.db.queue.loop = .waiting → ∀ c, s.delayed c ≠ .fetching ∧ s.delayed c ≠ .deleting
  sessions : ∀ c, s.Writable c → s.socket c = .asyncReceive ∧ s.messages c = []
  calls : ∀ t, s.calling t → ∃ c, t ∈ s.senders c ∧ s.start c ≠ .ended ∧
    (s.socket c = .terminated ∨ (s.socket c).undefined)

section AtRest
variable {tables : Tables} {s : Server}

theorem Composed.not_writing (h : Composed tables s) (hst : Resting s) (c : ConnId)
    (data : ClientData) (m : Message) : s.socket c ≠ .writing data m :=
  fun hso => h.attentive.settled.written_isSome hso (hst (.written c) rfl)

/-- No socket coroutine is left with anything to do. -/
theorem Composed.socket_at_rest (h : Composed tables s)
    (hst : Resting s) (c : ConnId) (hc : ¬ s.Unserved c) :
    s.socket c = .terminated ∨ (s.socket c).undefined ∨
      s.socket c = .asyncReceive ∧ s.signal (.socket c) = .waiting := by
  cases hso : s.socket c with
  | unborn => exact absurd hso (h.born c hc)
  | terminated => exact .inl rfl
  | noChannel | noMessage => exact .inr (.inl rfl)
  | writing data m => exact absurd hso (h.not_writing hst c data m)
  | asyncReceive =>
    refine .inr (.inr ⟨rfl, ?_⟩)
    have hstuck := hst (.resume (.socket c)) rfl
    cases hsig : s.signal (.socket c) with
    | waiting => rfl
    | taken => simp [Server.step, resume, hso, hsig] at hstuck
    | aborted => simp [Server.step, resume, hso, hsig] at hstuck

theorem Composed.loop_at_rest (h : Composed tables s)
    (hst : Resting s) :
    s.db.queue.loop = .unborn ∨ s.db.queue.loop = .terminated ∨ s.db.queue.loop = .waiting := by
  have hq := h.attentive.settled.steady.linked.answered.coherent
  have hloop := hst .loop rfl
  simp only [Server.step, Database.runLoop, Option.map_eq_none_iff, RequestQueue.runLoop] at hloop
  cases hl : s.db.queue.loop with
  | unborn => exact .inl rfl
  | terminated => exact .inr (.inl rfl)
  | waiting => exact .inr (.inr rfl)
  | executing ref =>
    have hstuck := hst .executeThrows rfl
    simp [Server.step, Database.executeThrows, RequestQueue.throws, hl] at hstuck
  | signalling ref => exact absurd hl (hq.signalling ref)
  | undefined => exact absurd hl hq.defined
  | signalled ref =>
    simp only [hl] at hloop
    split at hloop <;> cases hloop
  | _ => simp [hl] at hloop

/-- Nobody waits for a loop that waits for a statement. -/
theorem Composed.asked_at_rest (h : Composed tables s)
    (hst : Resting s) (hl : s.db.queue.loop = .waiting)
    (t : Task) : s.db.asked t = none ∨
      ∃ c, t = .start c ∧ s.clientsSlotVector.emplaceBack (.new c) = none := by
  have hq := h.attentive.settled.steady.linked.answered.coherent
  cases hc : s.db.queue.caller t with
  | idle => exact .inl (by simp [Database.asked, hc])
  | suspended ref stmt =>
    obtain ⟨e, he, -⟩ := hq.suspended t ref stmt hc
    simp [RequestQueue.pending, hq.waiting hl] at he
  | resumed ref stmt =>
    obtain hsome | hfull := h.attentive.resume_isSome hc
    · have hstuck : s.resume t = none := hst (.resume t) rfl
      simp [hstuck] at hsome
    · exact .inr hfull

theorem Composed.fetched_at_rest (h : Composed tables s) (hst : Resting s)
    (hl : s.db.queue.loop = .waiting) (c : ConnId) :
    s.delayed c ≠ .fetching ∧ s.delayed c ≠ .deleting := by
  have hasked : s.db.asked (.delayed c) = none :=
    (h.asked_at_rest hst hl (.delayed c)).resolve_right (by simp)
  refine ⟨fun hf => ?_, fun hd => h.deleting c hd ?_⟩
  · have hk := h.attentive.settled.steady.linked.fetching c (by simp) hf
    simp [hasked] at hk
  · unfold Database.asked at hasked
    unfold Database.place
    split at hasked <;> simp_all

/-- No pointer is left to the channel of a connection that has ended. -/
theorem Composed.unowned_at_rest (h : Composed tables s) (hst : Resting s) {c : ConnId}
    (hend : s.start c = .ended) : s.unowned c := by
  simp only [unowned, Bool.and_eq_true, decide_eq_true_eq, List.all_eq_true]
  refine ⟨⟨hend, fun slot hslot => ?_⟩, fun e _ => ?_⟩
  · cases ho : slot.object with
    | none => rfl
    | some client =>
      obtain ⟨i, hi⟩ := List.mem_iff_getElem?.mp hslot
      obtain ⟨d, rfl⟩ := h.attentive.settled.steady.sound.wellFormed.objects i slot client hi ho
      have hdc : d ≠ c := by
        intro heq
        have hreg : s.registered d :=
          registered_iff.mpr ⟨i, slot.generation, by rw [← ho]; exact hi⟩
        have hrun := h.running d hreg
        simp [registry, heq, hend, StartState.phase] at hrun
      simp [Client.new, hdc]
  · cases hso : s.socket e with
    | writing data m => exact absurd hso (h.not_writing hst e data m)
    | _ => rfl

theorem Composed.channel_at_rest (h : Composed tables s) (hst : Resting s) {c : ConnId}
    (hend : s.start c = .ended) : s.signalChannel c = .idle := by
  have hcancel := hst (.cancel c) rfl
  simp only [Server.step, cancel, h.unowned_at_rest hst hend, if_true,
    Option.map_eq_none_iff] at hcancel
  exact Channel.cancel_eq_none.mp hcancel

/-- A call waits on a channel that nobody reads and nobody destroys. -/
theorem Composed.call_at_rest (h : Composed tables s)
    (hst : Resting s) {t : Task} (ht : s.calling t) :
    ∃ c, t ∈ s.senders c ∧ s.start c ≠ .ended ∧
      (s.socket c = .terminated ∨ (s.socket c).undefined) := by
  have hsig : s.signal t = .waiting := by
    by_contra hne
    have hsome := h.attentive.call_isSome ht hne
    have hstuck : s.resume t = none := hst (.resume t) rfl
    simp [hstuck] at hsome
  obtain ⟨c, hc⟩ := h.suspended t ht hsig
  have hserved : ¬ s.Unserved c := by
    intro hun
    have hch := h.attentive.settled.steady.aside.channel c hun
    simp [senders, hch] at hc
  have hsocket := h.socket_at_rest hst c hserved
  refine ⟨c, hc, fun hend => ?_, ?_⟩
  · simp [senders, h.channel_at_rest hst hend] at hc
  · obtain hs | hs | ⟨hs, hsig'⟩ := hsocket
    · exact .inl hs
    · exact .inr hs
    · have hrecv := h.parked c hs hsig'
      obtain hnil | hnil := (s.signalChannel c).exclusive
      · simp [senders, hnil] at hc
      · simp [hnil] at hrecv

theorem Composed.atRest (h : Composed tables s) (hst : Resting s) : AtRest s where
  database := by
    obtain hl | hl | hl := h.loop_at_rest hst
    · exact .inl hl
    · exact .inr (.inl hl)
    · exact .inr (.inr ⟨hl, h.asked_at_rest hst hl⟩)
  fetched := fun hl c => h.fetched_at_rest hst hl c
  sessions := by
    rintro c ⟨hreg, hterminated, hundefined⟩
    obtain ⟨i, generation, hi⟩ := registered_iff.mp hreg
    have hserved := h.attentive.settled.steady.aside.held i _ c hi rfl
    obtain hs | hs | ⟨hs, hsig⟩ := h.socket_at_rest hst c hserved
    · exact absurd hs hterminated
    · exact absurd hs hundefined
    · exact ⟨hs, h.writes.drained c hreg hs hsig⟩
  calls := fun t ht => h.call_at_rest hst ht

end AtRest

/-- At rest a session has been written all that was put into its queue, where every socket
coroutine drains its own queue. -/
theorem written_at_rest {native : Proto.Endian} {succeeds : StartStep → Bool} {tables : Tables}
    {as : List Action} {s : Server} (hr : Lts.run step (init native succeeds tables) as = some s)
    (hown : Lts.Along step (fun s a => s.drainsOwn a) (init native succeeds tables) as)
    (hrest : Resting s) {c : ConnId} (hc : s.Writable c) :
    s.written c = pushedTo (pushes (init native succeeds tables) as) c := by
  have hstream := (run_ownStreams hr hown).stream c
  rwa [(((run_composed hr).atRest hrest).sessions c hc).2, List.append_nil] at hstream

/-- In every state of a run in which nothing can happen until something arrives, nothing is left in
the queues of sessions that still write, and they have been written all that was put there unless a
second coroutine drains a queue; and a coroutine waits for another only where a session has stopped
writing before its connection has ended. -/
theorem at_rest (native : Proto.Endian) (succeeds : StartStep → Bool) (tables : Tables)
    (as : List Action) (s : Server)
    (hr : Lts.run step (init native succeeds tables) as = some s) (hrest : Resting s) :
    AtRest s ∧ (Lts.Along step (fun s a => s.drainsOwn a) (init native succeeds tables) as →
      ∀ c, s.Writable c → s.written c = pushedTo (pushes (init native succeeds tables) as) c) :=
  ⟨(run_composed hr).atRest hrest, fun hown _ hc => written_at_rest hr hown hrest hc⟩

/-- Both messages of key 2 are written to key 1, and all comes to rest. -/
def writtenTwice : List Action :=
  writesTwice ++ [.loop, .written 0, .written 0, .resume (.socket 0), .resume (.start 1),
    .resume (.delayed 1)]

theorem at_rest_twice : ∃ s : Server, s.Writable 0 ∧ AtRest s ∧
    s.written 0 = pushedTo (pushes (init .little (fun _ => true) .empty) writtenTwice) 0 := by
  have hsome : (Lts.run step (init .little (fun _ => true) .empty) writtenTwice).any fun s =>
      s.registered 0 && s.socket 0 = .asyncReceive &&
        s.ownActions.all fun a => (s.step a).isNone := by
    decide +kernel
  have hown : Lts.Along step (fun s a => s.drainsOwn a)
      (init .little (fun _ => true) .empty) writtenTwice := by
    decide +kernel
  obtain ⟨s, hr, hs⟩ := (Option.any_eq_true _ _).mp hsome
  simp only [Bool.and_eq_true, decide_eq_true_eq, List.all_eq_true, Option.isNone_iff_eq_none]
    at hs
  obtain ⟨⟨hc, hsocket⟩, hstuck⟩ := hs
  have hwritable : s.Writable 0 := ⟨hc, by simp [hsocket], by simp [hsocket, SocketState.undefined]⟩
  obtain ⟨hrest, hwritten⟩ := at_rest .little (fun _ => true) .empty writtenTwice s hr
    ((run_attentive hr).resting_iff.mpr hstuck)
  exact ⟨s, hwritable, hrest, hwritten hown 0 hwritable⟩

end MydakServer.Server
