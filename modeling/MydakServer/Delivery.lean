import MydakServer.Stranded

/-! `send_delayed_messages` from its `SELECT` to its `DELETE`: which messages it hands over, to
which login, and which of them it deletes. -/
namespace MydakServer.Server
open Database

variable {I : Tables → Prop} {tables : Tables}

/-- A client in a slot was there before, or has just been granted the slot. -/
theorem Move.slots {s t : Server} {a : Action} (hm : Move I s a t) {i generation : Nat}
    {e : ConnId} (h : t.clientsSlotVector.slotAt i = some ⟨some (.new e), generation⟩) :
    s.clientsSlotVector.slotAt i = some ⟨some (.new e), generation⟩ ∨
      ∃ g v id, s.clientsSlotVector.emplaceBack (.new e) = some (g, v) ∧ g.index = i ∧
        g.generation = generation ∧ .grant e id ∈ s.events a := by
  have hpop : ∀ j, (s.clientsSlotVector.pop j).slotAt i = some ⟨some (.new e), generation⟩ →
      s.clientsSlotVector.slotAt i = some ⟨some (.new e), generation⟩ := by
    intro j hj
    rw [SlotVector.slotAt_pop] at hj
    split at hj
    · obtain ⟨slot, -, hslot⟩ := Option.map_eq_some_iff.mp hj
      simp [Slot.clear] at hslot
    · exact hj
  have hsame : ∀ {u u' : Server}, Same u u' →
      u'.clientsSlotVector.slotAt i = some ⟨some (.new e), generation⟩ →
      u.clientsSlotVector.slotAt i = some ⟨some (.new e), generation⟩ := by
    intro u u' hu h
    have hslots : u'.clientsSlotVector = u.clientsSlotVector :=
      congrArg Registry.clientsSlotVector hu.registry
    rwa [← hslots]
  cases hm with
  | grant _ d key g v id state hc hv hev =>
    obtain ⟨channel, signal, socket, he, -⟩ :=
      (s.setKey d key).granted_eq d v { g with dbIndex := id }
    rw [he] at h
    have hslot : v.slotAt i = some ⟨some (.new e), generation⟩ := h
    obtain ⟨-, hslots, -⟩ := SlotVector.emplaceBack_cases hv
    rw [hslots] at hslot
    split at hslot
    · rename_i hi
      simp only [Option.some.injEq, Slot.mk.injEq] at hslot
      obtain ⟨hd, hg⟩ := hslot
      obtain rfl : d = e := Client.new_inj hd
      exact .inr ⟨g, v, id, hv, hi.symm, hg, hev⟩
    · exact .inl hslot
  | fail c bytes => exact .inl (hpop _ h)
  | close _ c => exact .inl (hpop _ h)
  | relay c bytes lookup size recipient e' d =>
    exact .inl (hsame (u := s.push d _) (asyncSend_same _ d _) h)
  | hand c d row rest sent =>
    exact .inl (hsame (u := s.push d row.data) (asyncSend_same _ d (.delayed c)) h)
  | park c => exact .inl (hsame (s.socketCoroutine_same c) h)
  | wrote c socket q channel message front rest =>
    exact .inl (hsame (u := s.popped socket q message rest) (writeMessages_same _ c _ q) h)
  | _ => exact .inl h

/-- A connection that has just got its answer is alone in its slot, or has none. -/
theorem Move.answers {s t : Server} {a : Action} (hm : Move I s a t) {c : ConnId}
    (hc : s.answer c = none) (ht : t.answer c ≠ none) :
    (t.connection c).indices = .empty ∨
      t.clientsSlotVector.slotAt (t.connection c).indices.index =
        some ⟨some (.new c), (t.connection c).indices.generation⟩ := by
  have hsame : t.answer = s.answer → (t.connection c).indices = .empty ∨
      t.clientsSlotVector.slotAt (t.connection c).indices.index =
        some ⟨some (.new c), (t.connection c).indices.generation⟩ := by
    intro heq
    rw [heq] at ht
    exact absurd hc ht
  cases hm with
  | reject d key state =>
    by_cases hcd : c = d
    · subst hcd
      exact .inl (by simp [answered, setStart, setDelayed, setKey])
    · exact absurd hc (by
        simpa [answered, setStart, setDelayed, setKey, Function.update_of_ne hcd] using ht)
  | grant _ d key g v id state hd hv =>
    obtain ⟨channel, signal, socket, he, -⟩ :=
      (s.setKey d key).granted_eq d v { g with dbIndex := id }
    obtain ⟨-, hslots, -⟩ := SlotVector.emplaceBack_cases hv
    by_cases hcd : c = d
    · subst hcd
      exact .inr (by rw [he]; simp [setDelayed, hslots])
    · exact absurd hc (by
        rw [he] at ht
        simpa [setDelayed, setKey, Function.update_of_ne hcd] using ht)
  | relay d bytes lookup size recipient e f =>
    exact hsame (congrArg Registry.answer (asyncSend_same (s.push f _) f _).registry)
  | hand d f row =>
    exact hsame (congrArg Registry.answer (asyncSend_same (s.push f row.data) f _).registry)
  | park d => exact hsame (congrArg Registry.answer (s.socketCoroutine_same d).registry)
  | wrote d socket q channel m front rest =>
    exact hsame (congrArg Registry.answer
      (writeMessages_same (s.popped socket q m rest) d _ q).registry)
  | _ => exact hsame rfl

/-- While `send_delayed_messages` of the connection may hand over messages, no other connection
has its index and its generation. -/
def Alone (s : Server) (c : ConnId) : Prop :=
  (s.delayed c).delivering → ∀ e, s.clientsSlotVector.slotAt (s.connection c).indices.index =
    some ⟨some (.new e), (s.connection c).indices.generation⟩ → e = c

/-- No connection is granted the index and the generation under which `send_delayed_messages` of
`c` still hands over messages. -/
def sparesHandle (c : ConnId) (s : Server) (a : Action) : Bool :=
  (s.events a).all fun
    | .grant d _ =>
      match s.clientsSlotVector.emplaceBack (.new d) with
      | some (g, _) => !s.delivers g c
      | none => true
    | _ => true

theorem Alone.step {s s' : Server} {a : Action} {c : ConnId} (h : Settled s) (hc : s.Alone c)
    (hf : sparesHandle c s a) (hstep : s.step a = some s') : s'.Alone c := by
  intro hdel e he
  obtain ⟨t, hm, halike⟩ := step_move h.steady.sound h.steady.linked hstep
  rw [halike.clientsSlotVector, halike.connection] at he
  cases hans : s.answer c with
  | none =>
    have hunborn := h.reached.begun c hans
    have ht : t.answer c ≠ none := by
      intro hn
      have hs' := (h.step hstep).reached.begun c (by rw [halike.answer, hn])
      simp [hs', DelayedState.delivering] at hdel
    obtain hempty | hslot := hm.answers hans ht
    · rw [hempty] at he
      simp [ClientIndex.empty, SlotVector.slotAt_invalid] at he
    · rw [hslot] at he
      simp only [Option.some.injEq, Slot.mk.injEq, and_true] at he
      exact (Client.new_inj he).symm
  | some g =>
    rw [(hm.session h.steady.sound hans).2.1] at he
    have hdel' : (s.delayed c).delivering := by
      by_cases ha : a = .resume (.delayed c)
      · subst ha
        by_contra hn
        have hnone : s.goesOn c = none := by
          unfold goesOn
          cases hd : s.delayed c <;> simp [hd, DelayedState.delivering] at hn ⊢
        cases resume_continues h.steady.sound.wellFormed h.steady.linked hstep with
        | hand row rest ids d db hdb hg => simp [hnone] at hg
        | delete ids db _ hdb hids hdelete =>
          obtain ⟨db', v, -, rfl⟩ := deleteSent_cases hdelete
          cases v <;> simp [setDelayed, DelayedState.delivering] at hdel
        | finish db => simp [setDelayed, DelayedState.delivering] at hdel
      · obtain hsame | ⟨hn, -⟩ := h.steady.delayed hstep ha
        · exact hsame ▸ hdel
        · simp [hans] at hn
    obtain hold | ⟨g', v, id, hv, hi, hgen, hev⟩ := hm.slots he
    · exact hc hdel' e hold
    · have hspare := List.all_eq_true.mp hf _ hev
      simp [hv, delivers, hdel', hi, hgen] at hspare

/-- What happens in `send_delayed_messages`: its rows arrive, one of them goes into the queue of a
login, or `add_message_to_queue` returns for it. -/
inductive Handover where
  | fetched (rows : List Row)
  | pushed (row : Row) (login : ConnId)
  | returned (row : Row) (code : SendCode)

def Handover.pushedRow : Handover → Option Row
  | .pushed row _ => some row
  | _ => none

def Handover.outcome : Handover → Option (Row × SendCode)
  | .returned row code => some (row, code)
  | _ => none

def Handover.rows : Handover → Option (List Row)
  | .fetched rows => some rows
  | _ => none

/-- How far the call of `add_message_to_queue` for the row comes. -/
def sendResult (s : Server) (c : ConnId) (row : Row) : Option SendResult :=
  let indices := (s.connection c).indices
  (s.addMessageToQueue indices.index indices.generation row.data (.delayed c)).map Prod.snd

def handsOver (s : Server) (c : ConnId) (row : Row) : List Handover :=
  match s.sendResult c row with
  | some .suspended => (s.ownClient c).toList.map (.pushed row)
  | some (.code code) => [.returned row code]
  | none => []

/-- What `send_delayed_messages` has waited for. -/
def awaited (s : Server) (c : ConnId) : List Handover :=
  match s.delayed c, s.signal (.delayed c) with
  | .fetching, _ =>
    match s.db.resume (.delayed c) with
    | some (_, some (.messages rows)) => [.fetched rows]
    | _ => []
  | .sending current _ _, .taken => [.returned current .success]
  | .sending current _ _, .aborted => [.returned current .exception]
  | _, _ => []

/-- What a step does in `send_delayed_messages` of the connection. -/
def handovers (c : ConnId) (s : Server) : Action → List Handover
  | .resume (.delayed d) =>
    if d = c then
      s.awaited c ++ match s.goesOn c with
        | some (row :: _, _) => s.handsOver c row
        | _ => []
    else []
  | _ => []

theorem sendResult_db (s : Server) (db : Database Task) (c : ConnId) (row : Row) :
    ({ s with db } : Server).sendResult c row = s.sendResult c row := by
  unfold sendResult addMessageToQueue
  simp only
  cases s.clientsSlotVector.slotAt (s.connection c).indices.index with
  | none => rfl
  | some slot =>
    cases hobj : slot.object with
    | none => simp [hobj]
    | some client =>
      simp only [hobj, Option.bind_some]
      split
      · rfl
      · simp [Function.comp_def]

/-- The loop of `send_delayed_messages` ends, fails to hand over its next row, or waits for it to be
taken. -/
theorem sendDelayed_hands {s s' : Server} {c : ConnId} {rows : List Row} {ids : List Nat}
    {db : Database Task} (hw : s.registry.WellFormed)
    (h : { s with db }.sendDelayed c rows ids = some s') :
    (rows = [] ∧ { s with db }.deleteSent c ids = some s') ∨ ∃ row rest, rows = row :: rest ∧
      ((∃ code, code ≠ .success ∧ s.handsOver c row = [.returned row code] ∧
          { s with db }.deleteSent c ids = some s') ∨
        ∃ d, s.ownClient c = some d ∧ s.handsOver c row = [.pushed row d] ∧
          s'.delayed c = .sending row rest ids ∧ s'.db = db) := by
  cases rows with
  | nil => exact .inl ⟨rfl, h⟩
  | cons row rest =>
    obtain ⟨⟨s₂, r⟩, hq, h⟩ := Option.bind_eq_some_iff.mp h
    have hresult : s.sendResult c row = some r := by
      rw [← s.sendResult_db db c row]
      simp [sendResult, hq]
    refine .inr ⟨row, rest, rfl, ?_⟩
    obtain ⟨hc, rfl, code, rfl, hcode⟩ | ⟨d, hc, rfl, rfl⟩ :=
      addMessageToQueue_clientAt (s := { s with db }) hw hq
    · refine .inl ⟨code, hcode, by simp [handsOver, hresult], ?_⟩
      cases code with
      | success => exact absurd rfl hcode
      | _ => exact h
    · have hown : s.ownClient c = some d := hc
      cases h
      refine .inr ⟨d, hown, by simp [handsOver, hresult, hown], by simp [setDelayed], ?_⟩
      exact asyncSend_db ({ s with db }.push d row.data) d (.delayed c)

/-- The ids that a `DELETE` of `send_delayed_messages` of the connection names. -/
def deleteOf (c : ConnId) : Task × Statement → Option (List Nat)
  | (.delayed d, .deleteMessages ids) => if d = c then some ids else none
  | _ => none

/-- What `send_delayed_messages` of the connection has deleted. -/
def deletedBy (d : Database Task) (c : ConnId) : List (List Nat) := d.sent.filterMap (deleteOf c)

theorem deleteOf_eq_some {c : ConnId} {x : Task × Statement} {ids : List Nat} :
    deleteOf c x = some ids ↔ x = (.delayed c, .deleteMessages ids) := by
  constructor
  · intro h
    unfold deleteOf at h
    split at h
    · split at h <;> cases h
      rename_i hd
      rw [hd]
    · cases h
  · rintro rfl
    simp [deleteOf]

/-- A coroutine that goes on in the database deletes nothing. -/
theorem resume_deletedBy {d d' : Database Task} {t : Task} {v : Option Value}
    (hq : d.queue.Coherent) (h : d.resume t = some (d', v)) (c : ConnId) :
    deletedBy d' c = deletedBy d c ∧ d'.connected = d.connected := by
  obtain ⟨r, q, ht, hv⟩ := Database.resume_cases h
  have hcoherent := hq.take ht
  obtain ⟨-, -, rfl⟩ := RequestQueue.take_eq_some.mp ht
  obtain ⟨rfl, -⟩ | ⟨key, -, -, hreq⟩ := hv
  · exact ⟨rfl, rfl⟩
  · obtain ⟨-, rfl, -⟩ | ⟨q', -, hr, rfl, -⟩ := request_cases hreq
    · exact ⟨rfl, rfl⟩
    · obtain ⟨-, rfl⟩ := hcoherent.asyncExecuteQueued hr
      exact ⟨by simp [deletedBy, sent, RequestQueue.queuedBy, deleteOf], rfl⟩

theorem deleteSent_deletedBy {s s' : Server} {c : ConnId} {ids : List Nat}
    (hq : s.db.queue.Coherent) (hc : s.db.connected) (h : s.deleteSent c ids = some s') :
    deletedBy s'.db c = deletedBy s.db c ++ (if ids = [] then [] else [ids]) ∧
      (s'.delayed c = .deleting ∨ s'.delayed c = .finished) := by
  obtain ⟨db, v, hd, rfl⟩ := deleteSent_cases h
  have hstate : ((({ s with db } : Server).setDelayed c
      (if v.isSome then .finished else .deleting)).delayed c = .deleting ∨
      (({ s with db } : Server).setDelayed c
        (if v.isSome then .finished else .deleting)).delayed c = .finished) := by
    cases v <;> simp [setDelayed]
  refine ⟨?_, hstate⟩
  by_cases hids : ids = []
  · subst hids
    cases hd
    simp [setDelayed]
  · obtain ⟨hnil, -⟩ | hreq := deleteDelayedMessages_cases hd
    · exact absurd hnil hids
    · obtain ⟨hc', -⟩ | ⟨q, -, hr, rfl, -⟩ := request_cases hreq
      · exact absurd hc (by simp [hc'])
      · obtain ⟨-, rfl⟩ := hq.asyncExecuteQueued hr
        simp [deletedBy, setDelayed, sent, RequestQueue.queuedBy, deleteOf, hids]

/-- Only `send_delayed_messages` of the connection itself deletes for it. -/
theorem Logged.deletedBy {s s' : Server} {a : Action} (h : Logged tables s)
    (hstep : s.step a = some s') {c : ConnId} (ha : a ≠ .resume (.delayed c)) :
    deletedBy s'.db c = deletedBy s.db c := by
  obtain ⟨h', hgoes⟩ := h.step hstep
  obtain ⟨new, hnew, hruns⟩ := hgoes.sent
  suffices hnone : new.filterMap (deleteOf c) = [] by
    simp [Server.deletedBy, hnew, hnone]
  refine List.filterMap_eq_nil_iff.mpr fun x hx => ?_
  by_contra hn
  obtain ⟨ids, hids⟩ := Option.ne_none_iff_exists'.mp hn
  obtain rfl := deleteOf_eq_some.mp hids
  have hissued : .deleteMessages ids ∈ s'.db.issued.drop s.db.issued.length := by
    rw [← sent_snd, ← sent_snd, hnew, List.map_append, List.drop_left]
    exact List.mem_map_of_mem (f := Prod.snd) hx
  obtain rfl | ⟨d, rfl, -⟩ := h.settled.steady.deletes hstep hissued
  · exact h'.recorded.deletes (.delayed c) (by rw [hnew]; exact List.mem_append_right _ hx)
  · obtain ⟨-, hown⟩ := (resume_continues h.settled.steady.sound.wellFormed
      h.settled.steady.linked hstep).performs.recorded h.recorded h.answered
    obtain ⟨new', hnew', howns⟩ := hown.sent
    obtain rfl : new = new' := List.append_cancel_left (hnew.symm.trans hnew')
    obtain rfl : c = d := by simpa using howns _ hx
    exact ha rfl

/-- How far `send_delayed_messages` has come with its rows: `done` are those for which
`add_message_to_queue` has returned `SUCCESS`, `failed` is the one for which it has not. -/
inductive Progress (trace : List Handover) (deleted : List (List Nat)) : DelayedState → Prop
  | waits (state : DelayedState)
    (hstate : state = .unborn ∨ state = .fetching ∨ state = .finished) (htrace : trace = [])
    (hdeleted : deleted = []) : Progress trace deleted state
  | sends (current : Row) (done rest : List Row)
    (hrows : trace.filterMap Handover.rows = [done ++ current :: rest])
    (hpushed : trace.filterMap Handover.pushedRow = done ++ [current])
    (houtcome : trace.filterMap Handover.outcome = done.map (·, .success))
    (hdeleted : deleted = []) : Progress trace deleted (.sending current rest (done.map Row.id))
  | ends (state : DelayedState) (done rest : List Row) (failed : List (Row × SendCode))
    (hstate : state = .deleting ∨ state = .finished)
    (hrows : trace.filterMap Handover.rows = [done ++ rest])
    (hfailed : failed = [] ∨ ∃ row code rest', failed = [(row, code)] ∧ code ≠ .success ∧
      rest = row :: rest')
    (hpushed : trace.filterMap Handover.pushedRow = done ∨
      trace.filterMap Handover.pushedRow = done ++ failed.map Prod.fst)
    (houtcome : trace.filterMap Handover.outcome = done.map (·, .success) ++ failed)
    (hdeleted : deleted = if done = [] then [] else [done.map Row.id]) :
    Progress trace deleted state

theorem Progress.of_sending {trace : List Handover} {deleted : List (List Nat)} {current : Row}
    {rest : List Row} {ids : List Nat} (h : Progress trace deleted (.sending current rest ids)) :
    ∃ done : List Row, ids = done.map Row.id ∧
      trace.filterMap Handover.rows = [done ++ current :: rest] ∧
      trace.filterMap Handover.pushedRow = done ++ [current] ∧
      trace.filterMap Handover.outcome = done.map (·, .success) ∧ deleted = [] := by
  cases h with
  | waits _ hstate => simp at hstate
  | ends _ done rest failed hstate => simp at hstate
  | sends _ done _ hrows hpushed houtcome hdeleted =>
    exact ⟨done, rfl, hrows, hpushed, houtcome, hdeleted⟩

/-- `send_delayed_messages` goes on with `rows` when all rows before them have been taken. -/
theorem Progress.continues {s s' : Server} {c : ConnId} {rows : List Row} (done : List Row)
    (db : Database Task) {trace : List Handover} (hw : s.registry.WellFormed)
    (hq : db.queue.Coherent) (hc : db.connected) (hg : s.goesOn c = some (rows, done.map Row.id))
    (hrows : trace.filterMap Handover.rows = [done ++ rows])
    (hpushed : trace.filterMap Handover.pushedRow = done)
    (houtcome : trace.filterMap Handover.outcome = done.map (·, .success))
    (hdeleted : deletedBy db c = [])
    (h : { s with db }.sendDelayed c rows (done.map Row.id) = some s') :
    Progress (trace ++ match s.goesOn c with
        | some (row :: _, _) => s.handsOver c row
        | _ => []) (deletedBy s'.db c) (s'.delayed c) := by
  have hids : done.map Row.id = [] ↔ done = [] := List.map_eq_nil_iff
  obtain ⟨rfl, h⟩ | ⟨row, rest, rfl, ⟨code, hcode, hhands, h⟩ | ⟨d, -, hhands, hs, hdb⟩⟩ :=
    sendDelayed_hands hw h
  · obtain ⟨hdel, hstate⟩ := deleteSent_deletedBy (s := { s with db }) hq hc h
    refine .ends _ done [] [] hstate ?_ (.inl rfl) ?_ ?_ ?_
    · simpa [hg] using hrows
    · simpa [hg] using hpushed
    · simpa [hg] using houtcome
    · rw [hdel, hdeleted]
      simp [hids]
  · obtain ⟨hdel, hstate⟩ := deleteSent_deletedBy (s := { s with db }) hq hc h
    refine .ends _ done (row :: rest) [(row, code)] hstate ?_
      (.inr ⟨row, code, rest, rfl, hcode, rfl⟩) (.inl ?_) ?_ ?_
    · simpa [hg, hhands, List.filterMap_cons, Handover.rows] using hrows
    · simpa [hg, hhands, List.filterMap_cons, Handover.pushedRow] using hpushed
    · simpa [hg, hhands, List.filterMap_cons, Handover.outcome] using houtcome
    · rw [hdel, hdeleted]
      simp [hids]
  · rw [hs]
    refine .sends row done rest ?_ ?_ ?_ (by rw [hdb, hdeleted])
    · simpa [hg, hhands, List.filterMap_cons, Handover.rows] using hrows
    · simpa [hg, hhands, List.filterMap_cons, Handover.pushedRow] using hpushed
    · simpa [hg, hhands, List.filterMap_cons, Handover.outcome] using houtcome

/-- A coroutine that has something to go on with has a connection to the database. -/
theorem Logged.connected {s : Server} (h : Logged tables s) {t : Task} {db : Database Task}
    {v : Option Value} (hd : s.db.resume t = some (db, v)) : s.db.connected := by
  obtain ⟨r, q, ht, -⟩ := Database.resume_cases hd
  obtain ⟨⟨ref, stmt, hi⟩, hr, -⟩ := RequestQueue.take_eq_some.mp ht
  have hsent := List.getElem?_of_prefix (executed_initial h.answered.coherent) (x := (t, stmt))
    (n := ref) (by simp [executed_place h.answered.coherent hi hr])
  refine h.recorded.connects fun hnil => ?_
  simp [hnil] at hsent

/-- The rows of the user in the tables when the `SELECT` of `send_delayed_messages` was executed. -/
def RowsOf (tables : Tables) (s : Server) (c : ConnId) (rows : List Row) : Prop :=
  ∃ before after t, s.db.executed = before ++ (.delayed c,
      .selectMessages (s.connection c).indices.dbIndex, .messages rows) :: after ∧
    tables.Replays before t ∧ rows = t.messages.filter (·.userId = (s.connection c).indices.dbIndex)

theorem Logged.rowsOf {s : Server} (h : Logged tables s) {c : ConnId} {db : Database Task}
    {rows : List Row} (hc : s.delayed c = .fetching)
    (hd : s.db.resume (.delayed c) = some (db, some (.messages rows))) :
    RowsOf tables s c rows := by
  have hasked := h.settled.steady.linked.fetching c (by simp) hc
  obtain ⟨hfound, -⟩ := h.settled.steady.linked.found_of_fetching hc hd
  obtain ⟨r, q, htake, -⟩ := Database.resume_cases hd
  obtain ⟨⟨ref, stmt, hi⟩, hr, -⟩ := RequestQueue.take_eq_some.mp htake
  obtain rfl : stmt = .selectMessages (s.connection c).indices.dbIndex := by
    simpa [asked, hi] using hasked
  obtain ⟨before, after, heq, -⟩ := List.exists_split_at (executed_place h.answered.coherent hi hr)
  have hreplays := h.recorded.replays
  rw [heq, Tables.replays_append] at hreplays
  obtain ⟨t, ht, u, hu, -⟩ := hreplays
  have hrows : r.messageRows = rows := by simpa [found, hi, hr] using hfound
  cases hu
  exact ⟨before, after, t, by rw [heq, ← hrows]; rfl, ht, hrows.symm⟩

theorem Progress.resume {s s' : Server} {c : ConnId} {trace : List Handover}
    (h : Logged tables s) (hp : Progress trace (Server.deletedBy s.db c) (s.delayed c))
    (hconn : trace ≠ [] → s.db.connected) (hstep : s.resume (.delayed c) = some s') :
    Progress (trace ++ handovers c s (.resume (.delayed c))) (Server.deletedBy s'.db c)
      (s'.delayed c) := by
  have hw := h.settled.steady.sound.wellFormed
  have hq := h.answered.coherent
  simp only [handovers, if_true]
  rw [← List.append_assoc]
  cases resume_cases hstep with
  | fetched _ db rows _ hc hd hsend =>
    obtain ⟨hdel, hsame⟩ := resume_deletedBy hq hd c
    rw [hc] at hp
    cases hp with
    | ends _ done rest failed hstate => simp at hstate
    | waits _ hstate htrace hdeleted =>
      subst htrace
      have hawaited : s.awaited c = [.fetched rows] := by simp [awaited, hc, hd]
      refine Progress.continues [] db hw (h.answered.resume hd).1.coherent
        (hsame.trans (h.connected hd)) (by simp [goesOn, hc, hd]) ?_ ?_ ?_
        (hdel.trans hdeleted) hsend
      · simp [hawaited, Handover.rows]
      · simp [hawaited, List.filterMap_cons, Handover.pushedRow]
      · simp [hawaited, List.filterMap_cons, Handover.outcome]
  | fetching _ db v hc hd hv =>
    obtain ⟨rows, rfl⟩ := h.settled.steady.linked.fetches hc hd
    exact absurd rfl (hv rows)
  | taken _ current rest sent _ hc hs hsend =>
    rw [hc] at hp
    obtain ⟨done, rfl, hrows, hpushed, houtcome, hdeleted⟩ := hp.of_sending
    have hawaited : s.awaited c = [.returned current .success] := by simp [awaited, hc, hs]
    have hids : done.map Row.id ++ [current.id] = (done ++ [current]).map Row.id := by simp
    rw [hids] at hsend
    have hne : trace ≠ [] := by
      rintro rfl
      simp at hrows
    refine Progress.continues (done ++ [current]) s.db hw hq (hconn hne)
      (by simp [goesOn, hc, hs]) ?_ ?_ ?_ hdeleted hsend
    · simpa [hawaited, List.filterMap_cons, Handover.rows] using hrows
    · simpa [hawaited, List.filterMap_cons, Handover.pushedRow] using hpushed
    · simpa [hawaited, List.filterMap_cons, Handover.outcome] using houtcome
  | aborted _ current rest sent _ hc hs hdelete =>
    rw [hc] at hp
    obtain ⟨done, rfl, hrows, hpushed, houtcome, hdeleted⟩ := hp.of_sending
    have hawaited : s.awaited c = [.returned current .exception] := by simp [awaited, hc, hs]
    have hgoes : s.goesOn c = none := by simp [goesOn, hc, hs]
    have hne : trace ≠ [] := by
      rintro rfl
      simp at hrows
    obtain ⟨hdel, hstate⟩ := deleteSent_deletedBy hq (hconn hne) hdelete
    refine .ends _ done (current :: rest) [(current, .exception)] hstate ?_
      (.inr ⟨current, .exception, rest, rfl, by simp, rfl⟩) (.inr ?_) ?_ ?_
    · simpa [hawaited, hgoes, List.filterMap_cons, Handover.rows] using hrows
    · simpa [hawaited, hgoes, List.filterMap_cons, Handover.pushedRow] using hpushed
    · simpa [hawaited, hgoes, List.filterMap_cons, Handover.outcome] using houtcome
    · rw [hdel, hdeleted]
      simp
  | deleted _ db v hc hd =>
    have hsame : trace ++ s.awaited c ++ (match s.goesOn c with
        | some (row :: _, _) => s.handsOver c row
        | _ => []) = trace := by
      simp [awaited, goesOn, hc]
    have hdel : Server.deletedBy ({ s with db }.setDelayed c .finished).db c =
        Server.deletedBy s.db c := (resume_deletedBy hq hd c).1
    rw [hsame, hdel]
    rw [hc] at hp
    have hstate : ({ s with db }.setDelayed c .finished).delayed c = .finished := by
      simp [setDelayed]
    rw [hstate]
    cases hp with
    | waits _ hstate => simp at hstate
    | ends _ done rest failed _ hrows hfailed hpushed houtcome hdeleted =>
      exact .ends _ done rest failed (.inr rfl) hrows hfailed hpushed houtcome hdeleted

theorem Progress.other {s s' : Server} {a : Action} {c : ConnId} {trace : List Handover}
    (h : Logged tables s) (hp : Progress trace (Server.deletedBy s.db c) (s.delayed c))
    (hstep : s.step a = some s') (ha : a ≠ .resume (.delayed c)) :
    Progress trace (Server.deletedBy s'.db c) (s'.delayed c) := by
  rw [h.deletedBy hstep ha]
  obtain hsame | ⟨hnone, -, hstate⟩ := h.settled.steady.delayed hstep ha
  · rw [hsame]
    exact hp
  · rw [h.settled.reached.begun c hnone] at hp
    cases hp with
    | waits _ _ htrace hdeleted => exact .waits _ (.inr hstate) htrace hdeleted
    | ends _ done rest failed hstate' => simp at hstate'

theorem mem_handovers {s : Server} {a : Action} {c : ConnId} {x : Handover}
    (hx : x ∈ handovers c s a) : a = .resume (.delayed c) ∧
      ((∃ db rows, x = .fetched rows ∧ s.delayed c = .fetching ∧
          s.db.resume (.delayed c) = some (db, some (.messages rows))) ∨
        (∃ row d, x = .pushed row d ∧ (s.delayed c).delivering ∧ s.ownClient c = some d) ∨
        ∃ row code, x = .returned row code) := by
  unfold handovers at hx
  split at hx
  · split at hx
    · rename_i d hd
      subst hd
      refine ⟨rfl, ?_⟩
      obtain hx | hx := List.mem_append.mp hx
      · unfold awaited at hx
        split at hx
        · split at hx
          · rename_i hc _ db rows hd
            exact .inl ⟨db, rows, List.mem_singleton.mp hx, hc, hd⟩
          · cases hx
        · exact .inr (.inr ⟨_, _, List.mem_singleton.mp hx⟩)
        · exact .inr (.inr ⟨_, _, List.mem_singleton.mp hx⟩)
        · cases hx
      · split at hx
        · rename_i row rest ids hg
          have hdel : (s.delayed d).delivering := by
            unfold goesOn at hg
            cases hc : s.delayed d <;> simp [hc, DelayedState.delivering] at hg ⊢
          unfold handsOver at hx
          split at hx
          · obtain ⟨e, he, rfl⟩ := List.mem_map.mp hx
            exact .inr (.inl ⟨row, e, rfl, hdel, by simpa using he⟩)
          · exact .inr (.inr ⟨_, _, List.mem_singleton.mp hx⟩)
          · cases hx
        · cases hx
    · cases hx
  · cases hx

/-- What holds of `send_delayed_messages` of the connection along a run. -/
structure Delivers (tables : Tables) (c : ConnId) (s : Server) (trace : List Handover) : Prop where
  logged : Logged tables s
  alone : s.Alone c
  progress : Progress trace (Server.deletedBy s.db c) (s.delayed c)
  connected : trace ≠ [] → s.db.connected
  rows : ∀ rows, .fetched rows ∈ trace → RowsOf tables s c rows ∧ s.answer c ≠ none
  login : ∀ row d, .pushed row d ∈ trace → d = c

theorem init_delivers (native : Proto.Endian) (succeeds : StartStep → Bool) (tables : Tables)
    (c : ConnId) : Delivers tables c (init native succeeds tables) [] where
  logged := init_logged native succeeds tables
  alone := by
    intro hd
    cases hd
  progress := by
    refine .waits _ (.inl rfl) rfl ?_
    simp [Server.deletedBy, init, start_sent]
  connected := by simp
  rows := by simp
  login := by simp

theorem RowsOf.step {s s' : Server} {a : Action} {c : ConnId} {rows : List Row}
    (h : Logged tables s) (hr : RowsOf tables s c rows) (hc : s.answer c ≠ none)
    (hstep : s.step a = some s') : RowsOf tables s' c rows := by
  obtain ⟨before, after, t, heq, ht, hrows⟩ := hr
  obtain ⟨more, hmore⟩ := (h.step hstep).2.executed
  obtain ⟨g, hg⟩ := Option.ne_none_iff_exists'.mp hc
  obtain ⟨u, hm, halike⟩ := step_move h.settled.steady.sound h.settled.steady.linked hstep
  have hconn : s'.connection c = s.connection c := by
    rw [halike.connection]
    exact (hm.session h.settled.steady.sound hg).2.1
  refine ⟨before, after ++ more, t, ?_, ht, by rw [hconn, hrows]⟩
  rw [← hmore, heq, hconn]
  simp

/-- Nothing happens in `send_delayed_messages` before its rows arrive. -/
theorem Progress.connected {s : Server} {a : Action} {c : ConnId} {deleted : List (List Nat)}
    (hp : Progress [] deleted (s.delayed c)) (h : Logged tables s) (ha : a = .resume (.delayed c))
    (hne : [] ++ handovers c s a ≠ []) : s.db.connected := by
  subst ha
  simp only [handovers, if_true, List.nil_append] at hne
  cases hc : s.delayed c with
  | fetching =>
    cases hd : s.db.resume (.delayed c) with
    | none => simp [awaited, goesOn, hc, hd] at hne
    | some p => exact h.connected hd
  | sending current rest sent =>
    rw [hc] at hp
    obtain ⟨done, -, hrows, -⟩ := hp.of_sending
    simp at hrows
  | _ => simp [awaited, goesOn, hc] at hne

theorem Delivers.step {c : ConnId} {s s' : Server} {a : Action} {trace : List Handover}
    (h : Delivers tables c s trace) (hf : sparesHandle c s a) (hstep : s.step a = some s') :
    Delivers tables c s' (trace ++ handovers c s a) := by
  have hgoes := (h.logged.step hstep).2
  have hanswer : ∀ {d}, s.answer d ≠ none → s'.answer d ≠ none := by
    intro d hd
    obtain ⟨g, hg⟩ := Option.ne_none_iff_exists'.mp hd
    simp [h.logged.settled.steady.answer_step hg hstep]
  refine ⟨(h.logged.step hstep).1, h.alone.step h.logged.settled hf hstep, ?_, ?_, ?_, ?_⟩
  · by_cases ha : a = .resume (.delayed c)
    · subst ha
      exact h.progress.resume h.logged h.connected hstep
    · have hnil : handovers c s a = [] :=
        List.eq_nil_iff_forall_not_mem.mpr fun x hx => ha (mem_handovers hx).1
      rw [hnil, List.append_nil]
      exact h.progress.other h.logged hstep ha
  · intro hne
    rw [hgoes.connected]
    by_cases ht : trace = []
    · subst ht
      obtain ⟨x, hx⟩ := List.exists_mem_of_ne_nil _ hne
      exact h.progress.connected h.logged (mem_handovers hx).1 hne
    · exact h.connected ht
  · intro rows hm
    obtain hm | hm := List.mem_append.mp hm
    · obtain ⟨hr, hc⟩ := h.rows rows hm
      exact ⟨hr.step h.logged hc hstep, hanswer hc⟩
    · obtain ⟨rfl, ⟨db, rows', hx, hc, hd⟩ | ⟨row, d, hx, -⟩ | ⟨row, code, hx⟩⟩ := mem_handovers hm
      · cases hx
        have hans : s.answer c ≠ none := by
          intro hn
          simp [h.logged.settled.reached.begun c hn] at hc
        exact ⟨(h.logged.rowsOf hc hd).step h.logged hans hstep, hanswer hans⟩
      · cases hx
      · cases hx
  · intro row d hm
    obtain hm | hm := List.mem_append.mp hm
    · exact h.login row d hm
    · obtain ⟨rfl, ⟨db, rows', hx, -⟩ | ⟨row', d', hx, hdel, hown⟩ | ⟨row', code, hx⟩⟩ :=
        mem_handovers hm
      · cases hx
      · cases hx
        exact h.alone hdel d
          ((clientAt_eq_some h.logged.settled.steady.sound.wellFormed).mp hown)
      · cases hx

/-- The ids of the rows for which `add_message_to_queue` has returned `SUCCESS`. -/
def successes (trace : List Handover) : List Nat :=
  ((trace.filterMap Handover.outcome).filter (·.2 = .success)).map (·.1.id)

/-- Every message goes into the queue of the login itself; the messages are a prefix of its rows;
after the first code other than `SUCCESS` there is no further one; and at its end
`send_delayed_messages` deletes the rows before that code, which are rows of its own user. -/
structure StaysWithLogin (tables : Tables) (c : ConnId) (s : Server) (trace : List Handover) :
    Prop where
  login : ∀ row d, .pushed row d ∈ trace → d = c
  rows : trace = [] ∨ ∃ rows, RowsOf tables s c rows ∧ rows.Pairwise (·.id < ·.id) ∧
    trace.filterMap Handover.pushedRow <+: rows ∧
    (trace.filterMap Handover.outcome).map Prod.fst <+: rows
  stops : ∀ before x after, trace.filterMap Handover.outcome = before ++ x :: after →
    x.2 ≠ .success →
    after = [] ∧ trace.filterMap Handover.pushedRow <+: before.map Prod.fst ++ [x.1]
  deletes : deletedBy s.db c =
    if (s.delayed c = .deleting ∨ s.delayed c = .finished) ∧ successes trace ≠ []
    then [successes trace] else []
  spares : ∀ row ∈ s.db.tables.messages, row.id ∈ successes trace →
    row.userId = (s.connection c).indices.dbIndex

theorem RowsOf.ascending {s : Server} {c : ConnId} {rows : List Row}
    (h : RowsOf tables s c rows) : rows.Pairwise (·.id < ·.id) := by
  obtain ⟨before, after, t, -, -, rfl⟩ := h
  exact t.ascending.filter _

/-- Rows that have the ids of rows of the user are these rows still. -/
theorem RowsOf.spares {s : Server} {c : ConnId} {rows : List Row} (h : RowsOf tables s c rows)
    (hl : Logged tables s) {row : Row} (hrow : row ∈ s.db.tables.messages)
    (hid : row.id ∈ rows.map Row.id) : row.userId = (s.connection c).indices.dbIndex := by
  obtain ⟨before, after, t, heq, ht, rfl⟩ := h
  have hreplays := hl.recorded.replays
  rw [heq, Tables.replays_append] at hreplays
  obtain ⟨u, hu, hafter⟩ := hreplays
  obtain rfl : t = u := ht.unique hu
  obtain ⟨row', hrow', hsame⟩ := List.mem_map.mp hid
  obtain ⟨hrow', huser⟩ := List.mem_filter.mp hrow'
  have hold : row ∈ t.messages := hafter.evolves.rows row hrow (hsame ▸ t.rowIds row' hrow')
  rw [← Tables.row_of_id hrow' hold hsame]
  simpa using huser

theorem successes_subset (trace : List Handover) :
    successes trace ⊆ ((trace.filterMap Handover.outcome).map Prod.fst).map Row.id := by
  intro id hid
  obtain ⟨x, hx, rfl⟩ := List.mem_map.mp hid
  exact List.mem_map_of_mem (List.mem_map_of_mem (List.mem_of_mem_filter hx))

theorem Delivers.rowsOf {c : ConnId} {s : Server} {trace : List Handover} {rows : List Row}
    (h : Delivers tables c s trace) (hr : trace.filterMap Handover.rows = [rows]) :
    RowsOf tables s c rows := by
  have hm : rows ∈ trace.filterMap Handover.rows := by simp [hr]
  obtain ⟨x, hx, hrows⟩ := List.mem_filterMap.mp hm
  cases x with
  | fetched rows' =>
    cases hrows
    exact (h.rows rows hx).1
  | pushed row d => cases hrows
  | returned row code => cases hrows

theorem successes_eq {trace : List Handover} {done : List Row} {failed : List (Row × SendCode)}
    (h : trace.filterMap Handover.outcome = done.map (·, .success) ++ failed)
    (hf : ∀ x ∈ failed, x.2 ≠ .success) : successes trace = done.map Row.id := by
  have hnil : failed.filter (fun x => x.2 = .success) = [] :=
    List.filter_eq_nil_iff.mpr fun x hx => by simpa using hf x hx
  have hall : (done.map (·, SendCode.success)).filter (fun x => x.2 = .success) =
      done.map (·, .success) :=
    List.filter_eq_self.mpr fun x hx => by
      obtain ⟨row, -, rfl⟩ := List.mem_map.mp hx
      rfl
  rw [successes, h, List.filter_append, hnil, hall]
  simp [Function.comp_def]

/-- The only outcome that is not `SUCCESS` is the last one. -/
theorem last_of_failed {done : List Row} {failed before after : List (Row × SendCode)}
    {x : Row × SendCode} (hx : x.2 ≠ .success) (hlen : failed.length ≤ 1)
    (h : done.map (·, SendCode.success) ++ failed = before ++ x :: after) :
    after = [] ∧ before = done.map (·, .success) ∧ failed = [x] := by
  have hnot : x ∉ done.map (·, SendCode.success) := by
    intro hm
    obtain ⟨row, -, rfl⟩ := List.mem_map.mp hm
    exact hx rfl
  obtain ⟨more, hdone, hfailed⟩ | ⟨more, hdone, hafter⟩ := List.append_eq_append_iff.mp h
  · rw [hfailed, List.length_append, List.length_cons] at hlen
    obtain rfl : more = [] := List.eq_nil_of_length_eq_zero (by omega)
    obtain rfl : after = [] := List.eq_nil_of_length_eq_zero (by omega)
    exact ⟨rfl, by simpa using hdone, by simpa using hfailed⟩
  · cases more with
    | nil =>
      rw [List.nil_append] at hafter
      rw [← hafter, List.length_cons] at hlen
      obtain rfl : after = [] := List.eq_nil_of_length_eq_zero (by omega)
      exact ⟨rfl, by simpa using hdone.symm, hafter.symm⟩
    | cons y more =>
      obtain rfl : x = y := (List.cons.inj hafter).1
      exact absurd (by simp [hdone]) hnot

theorem Delivers.stays {c : ConnId} {s : Server} {trace : List Handover}
    (h : Delivers tables c s trace) : StaysWithLogin tables c s trace := by
  have hp := h.progress
  have hlogin := h.login
  have hspares : ∀ {rows}, RowsOf tables s c rows →
      (trace.filterMap Handover.outcome).map Prod.fst <+: rows →
      ∀ row ∈ s.db.tables.messages, row.id ∈ successes trace →
        row.userId = (s.connection c).indices.dbIndex := by
    intro rows hr hprefix row hrow hid
    exact hr.spares h.logged hrow
      (List.map_subset _ hprefix.subset (successes_subset trace hid))
  generalize hstate : s.delayed c = state at hp
  cases hp with
  | waits _ hs htrace hdeleted =>
    subst htrace
    exact ⟨hlogin, .inl rfl, by simp, by simp [hdeleted, successes], by simp [successes]⟩
  | sends current done rest hrows hpushed houtcome hdeleted =>
    have hr := h.rowsOf hrows
    have houtcomes : (trace.filterMap Handover.outcome).map Prod.fst <+:
        done ++ current :: rest := by
      rw [houtcome]
      simp [Function.comp_def]
    refine ⟨hlogin, .inr ⟨_, hr, hr.ascending, ?_, houtcomes⟩, ?_, by simp [hdeleted, hstate],
      hspares hr houtcomes⟩
    · rw [hpushed]
      simp
    · intro before x after heq hx
      rw [houtcome, ← List.append_nil (done.map _)] at heq
      obtain ⟨-, -, hnil⟩ := last_of_failed hx (Nat.zero_le _) heq
      cases hnil
  | ends _ done rest failed hs hrows hfailed hpushed houtcome hdeleted =>
    have hr := h.rowsOf hrows
    have hprefix : failed.map Prod.fst <+: rest := by
      obtain rfl | ⟨row, code, rest', rfl, -, rfl⟩ := hfailed
      · simp
      · exact ⟨rest', rfl⟩
    have hbad : ∀ x ∈ failed, x.2 ≠ .success := by
      obtain rfl | ⟨row, code, rest', rfl, hcode, -⟩ := hfailed
      · simp
      · simpa using hcode
    have hlen : failed.length ≤ 1 := by
      obtain rfl | ⟨row, code, rest', rfl, -⟩ := hfailed <;> simp
    have houtcomes : (trace.filterMap Handover.outcome).map Prod.fst <+: done ++ rest := by
      rw [houtcome]
      simpa [Function.comp_def] using hprefix
    refine ⟨hlogin, .inr ⟨_, hr, hr.ascending, ?_, houtcomes⟩, ?_, ?_, hspares hr houtcomes⟩
    · obtain hpushed | hpushed := hpushed <;> rw [hpushed]
      · simp
      · exact (List.prefix_append_right_inj _).mpr hprefix
    · intro before x after heq hx
      rw [houtcome] at heq
      obtain ⟨rfl, rfl, rfl⟩ := last_of_failed hx hlen heq
      refine ⟨rfl, ?_⟩
      obtain hpushed | hpushed := hpushed <;> rw [hpushed] <;> simp [Function.comp_def]
    · rw [successes_eq houtcome hbad, hdeleted, hstate]
      by_cases hd : done = [] <;> simp [hs, hd]

/-- In every run `send_delayed_messages` stays with its login, unless another login is granted
the same index and the same generation before it has handed over its last message. -/
theorem delivery_stays_with_login (native : Proto.Endian) (succeeds : StartStep → Bool)
    (tables : Tables) (as : List Action) (s : Server) (c : ConnId)
    (hr : Lts.run step (init native succeeds tables) as = some s)
    (hc : Lts.Along step (fun s a => sparesHandle c s a) (init native succeeds tables) as) :
    StaysWithLogin tables c s (Lts.log step (handovers c) (init native succeeds tables) as) :=
  (Lts.invariant_log (I := Delivers tables c) (fun _ _ _ _ h hf hstep => h.step hf hstep)
    (init_delivers native succeeds tables c) hc hr).stays

/-- The message stored for key 1 is fetched at its login, handed over, taken and deleted. -/
def handedOver : List Action :=
  loginSuspended ++ .message 1 [7] true :: loginContinues ++
    [.resume (.start 2), .loop, .execute, .resume (.delayed 2), .resume (.socket 2),
      .resume (.delayed 2), .loop, .execute]

theorem delivery_stays_with_login_taken : ∃ s,
    Lts.run step (init .little (fun _ => true) .empty) handedOver = some s ∧
      successes (Lts.log step (handovers 2) (init .little (fun _ => true) .empty) handedOver) =
        [1] ∧
      StaysWithLogin .empty 2 s
        (Lts.log step (handovers 2) (init .little (fun _ => true) .empty) handedOver) := by
  have hsome : (Lts.run step (init .little (fun _ => true) .empty) handedOver).isSome := by
    decide +kernel
  have hspares : Lts.Along step (fun s a => sparesHandle 2 s a)
      (init .little (fun _ => true) .empty) handedOver := by
    decide +kernel
  have htaken : successes (Lts.log step (handovers 2) (init .little (fun _ => true) .empty)
      handedOver) = [1] := by
    decide +kernel
  obtain ⟨s, hr⟩ := Option.isSome_iff_exists.mp hsome
  exact ⟨s, hr, htaken,
    delivery_stays_with_login .little (fun _ => true) .empty handedOver s 2 hr hspares⟩

end MydakServer.Server
