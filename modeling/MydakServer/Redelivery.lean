import MydakServer.Atomicity
import MydakServer.Delivery
import MydakServer.Mailboxes

/-! How often a stored message is written to a socket, when a login fetches it that follows
another one of its key. -/
namespace MydakServer

theorem Tables.rowsAt_ascending {ι : Type*} [DecidableEq ι] (t : Tables) (i : ι)
    (calls : List (ι × Statement)) : (t.rowsAt i calls).Pairwise (·.id < ·.id) := by
  induction calls generalizing t with
  | nil => exact List.Pairwise.nil
  | cons x calls ih =>
    obtain ⟨j, stmt⟩ := x
    simp only [rowsAt]
    cases hx : t.exec stmt with
    | none => exact List.Pairwise.nil
    | some p =>
      obtain ⟨r, t'⟩ := p
      by_cases hj : j = i
      · simp only [if_pos hj]
        exact t.ascending.sublist (exec_rows hx)
      · simp only [if_neg hj]
        exact ih t'

namespace Server
open Database

/-- Messages are written in the order in which they were put into the queue, and no two of them
are the same row, to one socket or to two. -/
structure WrittenOnce (pushed : List Push) (s : Server) : Prop where
  stream : ∀ c, s.written c <+: pushedTo pushed c
  once : ∀ c, (rowsWritten pushed s c).Nodup
  apart : ∀ c d, c ≠ d → (rowsWritten pushed s c).Disjoint (rowsWritten pushed s d)

/-- The ids that `send_delayed_messages` of the login has collected, and that of the message for
which it waits, unless this call has been aborted. -/
def claimed (s : Server) (c : ConnId) : List Nat :=
  match s.delayed c, s.signal (.delayed c) with
  | .sending _ _ sentIndices, .aborted => sentIndices
  | .sending current _ sentIndices, _ => sentIndices ++ [current.id]
  | _, _ => []

/-- The ids in the `DELETE` of the login, as long as it has not been executed. -/
def deleting (s : Server) (c : ConnId) : List Nat := (s.db.calls.filterMap (deleteOf c)).flatten

/-- The rows whose messages are left in the queue of a login that is in no slot, where nobody writes
from the queue. -/
def leftBehind (pushed : List Push) (s : Server) (c : ConnId) : List Nat :=
  if s.drained c then []
  else ((pushed.filter (·.login = c)).rtake (s.messages c).length).filterMap Push.row

/-- The rows that the login has under way: those that its `send_delayed_messages` has handed over
and that are still to be deleted, unless they have been left behind, and those that it has still
to hand over. -/
def underway (pushed : List Push) (s : Server) (c : ConnId) : List Nat :=
  (s.claimed c ++ s.deleting c).filter (· ∉ leftBehind pushed s c) ++
    if s.registered c then (s.fetched c).map Row.id else []

/-- A `SELECT` that is executed for a login in its slot finds no row that a login has under way.
`send_delayed_messages` is not aborted when more coroutines wait with it than messages are left in
the queue; it hands over to its own login, and no second coroutine drains a queue. -/
def fetchesOnce (p : Server × List Push) : Action → Bool
  | .resume (.socket c) => p.1.drainsOwn (.resume (.socket c))
  | .resume (.delayed c) => (p.1.ownClient c).all (· = c)
  | .cancel c =>
    match p.1.senders c with
    | .delayed _ :: rest => rest.length < (p.1.messages c).length
    | _ => true
  | .execute =>
    match p.1.db.calls with
    | (.delayed c, _) :: _ => !p.1.registered c || (p.1.backlog c).all fun row =>
        (List.range p.1.accepted).all fun d => row.id ∉ underway p.2 p.1 d
    | _ => true
  | _ => true

/-- How many of the messages that were put into the queue of a login have been written, or may
yet be. -/
def reach (s : Server) (c : ConnId) : Nat :=
  (s.written c).length + if s.drained c then (s.messages c).length else 0

/-- The rows that have been written to the socket of a login, or may yet be. -/
def carried (pushed : List Push) (s : Server) (c : ConnId) : List Nat :=
  rowsTo pushed c (s.reach c) ++ if s.registered c then (s.fetched c).map Row.id else []

theorem rowsTo_mono (pushed : List Push) (c : ConnId) {m n : Nat} (h : m ≤ n) :
    (rowsTo pushed c m).Sublist (rowsTo pushed c n) :=
  (List.take_sublist_take_left h).filterMap _

theorem reach_le (s : Server) (c : ConnId) :
    s.reach c ≤ (s.written c ++ s.messages c).length := by
  unfold reach
  split <;> simp

/-- More messages are within reach only when one is put into the queue. -/
theorem Settled.reach {s s' : Server} {a : Action} (h : Settled s) (hstep : s.step a = some s')
    {c : ConnId} (hq : s'.written c ++ s'.messages c = s.written c ++ s.messages c) :
    s'.reach c ≤ s.reach c := by
  have hlen := congrArg List.length hq
  cases hc : s.drained c with
  | true =>
    have hle := s'.reach_le c
    simp only [List.length_append] at hlen hle
    simp only [Server.reach, hc, if_true] at hle ⊢
    omega
  | false =>
    have hwritten := h.written hstep hc
    by_cases hc' : s'.drained c
    · obtain hd | hnone := h.drained hstep hc'
      · simp [hc] at hd
      · obtain ⟨hm, hw⟩ := h.reached.queues c hnone
        have hle := s'.reach_le c
        simp only [hm, hw, List.length_append, List.length_nil] at hlen hle
        omega
    · simp [Server.reach, hc, hc', hwritten]

/-- What is put into the queue of a login comes last of its messages. -/
theorem Settled.rowsTo_step {s s' : Server} {a : Action} {pushed : List Push} (h : Settled s)
    (hw : WritesOwn s) (hstep : s.step a = some s') {c : ConnId}
    (hs : s.written c ++ s.messages c = pushedTo pushed c) :
    (rowsTo (pushed ++ (s.pushOf a).toList) c (s'.reach c)).Sublist
      (rowsTo pushed c (s.reach c) ++ rowsTo (s.pushOf a).toList c 1) := by
  have hstream := h.stream hw hstep c
  have hkeep : (s.pushOf a).toList.filter (·.login = c) = [] →
      (rowsTo (pushed ++ (s.pushOf a).toList) c (s'.reach c)).Sublist
        (rowsTo pushed c (s.reach c) ++ rowsTo (s.pushOf a).toList c 1) := by
    intro hnil
    have hreach := h.reach hstep (c := c) (by simp [hstream, pushedTo, hnil])
    simp only [rowsTo, List.filter_append, hnil, List.append_nil, List.take_nil,
      List.filterMap_nil]
    exact rowsTo_mono pushed c hreach
  cases hp : s.pushOf a with
  | none =>
    rw [hp] at hkeep
    exact hkeep rfl
  | some p =>
    rw [hp] at hkeep
    by_cases hlogin : p.login = c
    · subst hlogin
      obtain ⟨i, generation, hslot, -⟩ := pushOf_cases h.steady.sound.wellFormed hp
      have hdrained : s.drained p.login := by
        simp [Server.drained, registered_iff.mpr ⟨i, generation, hslot⟩]
      -- all that was put into the queue so far is within reach
      have hreach : s.reach p.login = (pushed.filter (·.login = p.login)).length := by
        have hlen := congrArg List.length hs
        simpa [Server.reach, hdrained, pushedTo] using hlen
      simp only [rowsTo, Option.toList_some, List.filter_append, hreach, List.take_length]
      refine ((List.take_sublist _ _).filterMap _).trans ?_
      simp
    · exact hkeep (by simp [hlogin])

theorem fetched_of_unanswered {s : Server} (h : Settled s) {c : ConnId} (hc : s.answer c = none) :
    s.fetched c = [] := by
  refine List.sublist_nil.mp ((s.fetched_sublist c).trans ?_)
  simp [Server.backlog, h.reached.begun c hc]

/-- What `send_delayed_messages` of the login puts into its queue it had fetched; nobody else puts
a row there. -/
theorem rowsTo_pushOf {pushed : List Push} {s : Server} (hs : Settled s) {a : Action}
    (hc : fetchesOnce (s, pushed) a) {c : ConnId} (ha : a ≠ .resume (.delayed c)) :
    rowsTo (s.pushOf a).toList c 1 = [] := by
  cases hp : s.pushOf a with
  | none => rfl
  | some p =>
    by_cases hlogin : p.login = c
    · obtain ⟨i, generation, hslot, ⟨d, bytes, lookup, size, recipient, r, -, -, -, -, hpeq⟩ |
        ⟨d, row, rfl, -⟩⟩ := pushOf_cases hs.steady.sound.wellFormed hp
      · have hrow : p.row = none := by rw [hpeq]
        simp [rowsTo, hlogin, hrow]
      · have hown : p.login = d := pushOf_own hc hp
        exact absurd (by rw [← hown, hlogin]) ha
    · simp [rowsTo, hlogin]

theorem claimed_of_signal {s : Server} {c : ConnId} (h : s.signal (.delayed c) ≠ .aborted) :
    s.claimed c = s.collected c := by
  unfold claimed collected
  cases s.delayed c <;> cases hs : s.signal (.delayed c) <;> simp_all

theorem claimed_of_goesOn {s : Server} {c : ConnId} {rows : List Row} {ids : List Nat}
    (h : s.goesOn c = some (rows, ids)) : s.claimed c = ids := by
  unfold goesOn at h
  cases hc : s.delayed c with
  | fetching =>
    simp only [hc] at h
    split at h <;> cases h
    simp [claimed, hc]
  | sending current rest sent =>
    simp only [hc] at h
    split at h <;> cases h
    rename_i hs
    simp [claimed, hc, hs]
  | _ => simp [hc] at h

/-- What `send_delayed_messages` deletes is what it has claimed. -/
theorem claimed_of_deletes {s : Server} {c : ConnId} {ids : List Nat}
    (h : s.deletes c = some ids) : s.claimed c = ids := by
  unfold Server.deletes at h
  split at h
  · rename_i hg
    cases h
    exact claimed_of_goesOn hg
  · rename_i hg
    split at h <;> cases h
    exact claimed_of_goesOn hg
  · split at h <;> cases h
    rename_i hc hs
    simp [claimed, hc, hs]

/-- A call that a coroutine has made was made last at some point. -/
theorem exists_lastPush {pushed : List Push} {t : Task} (h : ∃ p ∈ pushed, p.caller = t) :
    ∃ before p, LastPush pushed t before p := by
  induction pushed using List.reverseRecOn with
  | nil => simp at h
  | append_singleton pushed q ih =>
    by_cases hq : q.caller = t
    · subst hq
      exact ⟨pushed, q, lastPush_concat pushed q⟩
    · obtain ⟨p, hp, ht⟩ := h
      have hp : p ∈ pushed := (List.mem_append.mp hp).resolve_right fun hp => by
        rw [List.mem_singleton.mp hp] at ht
        exact hq ht
      obtain ⟨before, p, hlast⟩ := ih ⟨p, hp, ht⟩
      exact ⟨before, p, (lastPush_concat_iff hq).mpr hlast⟩

/-- The last message that `send_delayed_messages` has put into a queue is the last row that it has
handed over. -/
theorem HandsOwn.lastPush {pushed before : List Push} (h : HandsOwn pushed) {c : ConnId} {p : Push}
    (hp : LastPush pushed (.delayed c) before p) :
    p.login = c ∧ ∃ id, handedRows pushed c = handedRows before c ++ [id] := by
  have hmem := hp.mem
  obtain ⟨after, rfl, hcaller, hafter⟩ := hp
  obtain ⟨hrow, hlogin⟩ := (h p hmem c).mp hcaller
  obtain ⟨id, hid⟩ := Option.isSome_iff_exists.mp hrow
  have hnone : handedRows after c = [] := by
    have hnil : after.filter (·.caller = .delayed c) = [] :=
      List.filter_eq_nil_iff.mpr fun q hq => by simpa using hafter q hq
    simp [handedRows, hnil]
  refine ⟨hlogin, id, ?_⟩
  rw [← List.singleton_append, handedRows_append, handedRows_append, hnone]
  simp [handedRows, hcaller, hid]

/-- The rows of the messages that were put into the queue before the last one. -/
theorem HandsOwn.rowsTo_lastPush {pushed before : List Push} (h : HandsOwn pushed) {c : ConnId}
    {p : Push} (hp : LastPush pushed (.delayed c) before p) {n : Nat}
    (hn : n ≤ (pushedTo before c).length) : rowsTo pushed c n ⊆ handedRows before c := by
  obtain ⟨after, rfl, -, -⟩ := hp
  have hbefore : HandsOwn before := fun q hq => h q (List.mem_append_left _ hq)
  rw [pushedTo, List.length_map] at hn
  rw [rowsTo, List.filter_append, List.take_append_of_le_length hn, ← hbefore.rows]
  exact List.filterMap_subset _ (List.take_subset _ _)

/-- What is sent stays sent. -/
theorem deletedBy_mono {d d' : Database Task} {P : Task → Prop} (h : Goes P d d') {c : ConnId} :
    deletedBy d c ⊆ deletedBy d' c := by
  obtain ⟨new, hnew, -⟩ := h.sent
  intro ids hids
  rw [deletedBy, hnew, List.filterMap_append]
  exact List.mem_append_left _ hids

theorem Reads.deletedBy {I : Tables → Prop} {s : Server} {c : ConnId} {db : Database Task}
    (hdb : s.Reads c db) (h : Linked I none s) (d : ConnId) :
    Server.deletedBy db d = Server.deletedBy s.db d ∧ db.connected = s.db.connected := by
  obtain rfl | ⟨v, hd⟩ := hdb
  · exact ⟨rfl, rfl⟩
  · exact resume_deletedBy h.answered.coherent hd d

/-- Rows have been found only where there is a connection to the database. -/
theorem Mailed.connected {tables : Tables} {s : Server} (h : Mailed tables s) {c : ConnId}
    {ids : List Nat} (hids : s.deletes c = some ids) : s.db.connected := by
  obtain ⟨userId, rows, ⟨r, hm, -⟩, -⟩ := h.deleting hids
  refine h.logged.recorded.connects fun hnil => ?_
  have hsent := (executed_initial h.logged.answered.coherent).subset
    (List.mem_map_of_mem (f := fun x => (x.1, x.2.1)) hm)
  simp [hnil] at hsent

/-- The rows that are within reach of a login are claimed by its `send_delayed_messages`, or it has
sent the `DELETE` that names them. -/
structure Reported (tables : Tables) (pushed : List Push) (s : Server) : Prop where
  accounted : Accounted pushed s
  mailed : Mailed tables s
  own : OwnStreams s pushed
  hands : HandsOwn pushed
  handed : HandedOver pushed s
  rows : ∀ c, ∀ id ∈ rowsTo pushed c (s.reach c),
    id ∈ s.claimed c ∨ ∃ ids ∈ deletedBy s.db c, id ∈ ids

variable {tables : Tables} {pushed : List Push} {s s' : Server} {a : Action}

theorem rowsTo_of_unanswered (h : Accounted pushed s) {c : ConnId} (hc : s.answer c = none)
    (n : Nat) : rowsTo pushed c n = [] := by
  have hnil : pushed.filter (·.login = c) = [] := by
    refine List.filter_eq_nil_iff.mpr fun p hp hlogin => ?_
    exact h.calls.answered p hp (by rw [of_decide_eq_true hlogin, hc])
  simp [rowsTo, hnil]

/-- A call of `send_delayed_messages` that is aborted has put a row into a queue that nobody
writes from any more, behind all that has been written. -/
theorem Reported.aborted (h : Reported tables pushed s) (hc : fetchesOnce (s, pushed) a)
    (hstep : s.step a = some s') {c : ConnId} (ha : a ≠ .resume (.delayed c))
    (hs : s.signal (.delayed c) ≠ .aborted) (hs' : s'.signal (.delayed c) = .aborted)
    {current : Row} {rest : List Row} {sent : List Nat}
    (hd : s.delayed c = .sending current rest sent) : rowsTo pushed c (s.reach c) ⊆ sent := by
  have hcollected : handedRows pushed c = sent ++ [current.id] := by
    have hh := h.handed c
    simpa [hd, collected] using hh
  obtain ⟨before, p, hp⟩ : ∃ before p, LastPush pushed (.delayed c) before p := by
    refine exists_lastPush ?_
    have hmem : current.id ∈ handedRows pushed c := by simp [hcollected]
    obtain ⟨p, hp, -⟩ := List.mem_filterMap.mp hmem
    obtain ⟨hp, hcaller⟩ := List.mem_filter.mp hp
    exact ⟨p, hp, of_decide_eq_true hcaller⟩
  obtain ⟨hlogin, id, hrows⟩ := h.hands.lastPush hp
  have hsent : handedRows before c = sent :=
    (List.append_inj' (hrows.symm.trans hcollected) rfl).1
  obtain ⟨hsettled, hheard, hcalls⟩ := h.accounted
  have hp' : LastPush (pushed ++ (s.pushOf a).toList) (.delayed c) before p := by
    cases hpush : s.pushOf a with
    | none => simpa using hp
    | some q =>
      refine (lastPush_concat_iff fun hq => ?_).mpr hp
      obtain ⟨i, generation, -, ⟨d, bytes, lookup, size, recipient, r, -, -, -, -, heq⟩ |
        ⟨d, row, rfl, -, -, -, heq⟩⟩ := pushOf_cases hsettled.steady.sound.wellFormed hpush
      · rw [heq] at hq
        cases hq
      · rw [heq] at hq
        cases hq
        exact ha rfl
  obtain ⟨-, hold⟩ | ⟨-, rfl, hun, senders, hsend, hlen⟩ :=
    hcalls.aborted hsettled hheard hstep hp' hs'
  · exact absurd hold hs
  · rw [hlogin] at hun hsend hlen hc
    simp only [fetchesOnce, hsend, decide_eq_true_eq] at hc
    have hstream := congrArg List.length (h.own.stream c)
    rw [List.length_append] at hstream
    rw [Server.reach, drained_of_unowned hun, ← hsent]
    exact h.hands.rowsTo_lastPush hp (by simp only [Bool.false_eq_true, if_false]; omega)

/-- A step in which `send_delayed_messages` of the connection does not go on. -/
theorem Reported.others (h : Reported tables pushed s) (hc : fetchesOnce (s, pushed) a)
    (hstep : s.step a = some s') {c : ConnId} (ha : a ≠ .resume (.delayed c)) :
    ∀ id ∈ rowsTo (pushed ++ (s.pushOf a).toList) c (s'.reach c),
      id ∈ s'.claimed c ∨ ∃ ids ∈ deletedBy s'.db c, id ∈ ids := by
  have hsettled := h.accounted.settled
  have hrows := hsettled.rowsTo_step h.own.writes hstep (h.own.stream c)
  rw [rowsTo_pushOf hsettled hc ha, List.append_nil] at hrows
  intro id hid
  have hid := hrows.subset hid
  rw [h.mailed.logged.deletedBy hstep ha]
  refine (h.rows c id hid).imp_left fun hold => ?_
  obtain hsame | ⟨hnone, -⟩ := hsettled.steady.delayed hstep ha
  · by_cases hs' : s'.signal (.delayed c) = .aborted
    · by_cases hs : s.signal (.delayed c) = .aborted
      · simpa [claimed, hsame, hs, hs'] using hold
      · -- what has been claimed as the current row is not within reach
        cases hd : s.delayed c with
        | sending current rest sent =>
          have hsent := h.aborted hc hstep ha hs hs' hd
          simpa [claimed, hsame, hd, hs'] using hsent hid
        | _ => simp [claimed, hd] at hold
    · have hcollected : id ∈ s.collected c := by
        unfold claimed at hold
        unfold collected
        split at hold
        · rename_i hd _
          simp [hd, hold]
        · rename_i hd _
          simpa [hd] using hold
        · cases hold
      rw [claimed_of_signal hs', collected, hsame]
      exact hcollected
  · rw [rowsTo_of_unanswered h.accounted hnone] at hid
    cases hid

/-- `send_delayed_messages` goes on: it claims the next row that it hands over, and what it has
claimed it deletes. -/
theorem Reported.continues (h : Reported tables pushed s)
    (hc : (s.ownClient c).all (· = c)) (hstep : s.step (.resume (.delayed c)) = some s') :
    ∀ id ∈ rowsTo (pushed ++ (s.pushOf (.resume (.delayed c))).toList) c (s'.reach c),
      id ∈ s'.claimed c ∨ ∃ ids ∈ deletedBy s'.db c, id ∈ ids := by
  have hsteady := h.accounted.settled.steady
  have hrows := h.accounted.settled.rowsTo_step h.own.writes hstep (h.own.stream c)
  have hmono := deletedBy_mono (h.mailed.logged.step hstep).2 (c := c)
  have hold : ∀ ids, s.claimed c = ids → ∀ id ∈ rowsTo pushed c (s.reach c),
      id ∈ ids ∨ ∃ ids ∈ deletedBy s'.db c, id ∈ ids := by
    rintro _ rfl id hid
    exact (h.rows c id hid).imp_right fun ⟨ids, hm, hid⟩ => ⟨ids, hmono hm, hid⟩
  have hnone : s.pushOf (.resume (.delayed c)) = none →
      rowsTo (pushed ++ (s.pushOf (.resume (.delayed c))).toList) c (s'.reach c) ⊆
        rowsTo pushed c (s.reach c) := by
    intro hp
    rw [hp] at hrows ⊢
    simpa [rowsTo] using hrows.subset
  cases resume_continues hsteady.sound.wellFormed hsteady.linked hstep with
  | hand row rest ids d db hdb hg hd =>
    obtain rfl : d = c := by simpa [hd] using hc
    have hpush : s.pushOf (.resume (.delayed d)) = some ⟨.delayed d, d, row.data, some row.id⟩ := by
      simp [pushOf_delayed, hg, hd]
    intro id hid
    have hid := hrows.subset hid
    have hclaimed : ((({ s with db }.push d row.data).asyncSend d (.delayed d)).setDelayed d
        (.sending row rest ids)).claimed d = ids ++ [row.id] := by
      rw [claimed_of_signal, collected]
      · simp [setDelayed]
      · obtain ⟨channel, ⟨-, -, -, he⟩ | ⟨r, -, -, he⟩⟩ :=
          ({ s with db }.push d row.data).asyncSend_cases d (.delayed d)
        · simp [he, setDelayed]
        · simp [he, setDelayed]
    rw [hclaimed]
    obtain hid | hid := List.mem_append.mp hid
    · exact (hold ids (claimed_of_goesOn hg) id hid).imp_left (List.mem_append_left _)
    · refine .inl (List.mem_append_right _ ?_)
      simpa [rowsTo, hpush] using hid
  | delete ids db _ hdb hids hdel =>
    intro id hid
    refine .inr ((hold ids (claimed_of_deletes hids) id (hnone (pushOf_of_deletes hids) hid)).elim
      (fun hid => ?_) fun hdeleted => hdeleted)
    obtain ⟨hdeletedBy, hconnected⟩ := hdb.deletedBy hsteady.linked c
    obtain ⟨hnew, -⟩ := deleteSent_deletedBy (s := { s with db })
      (hdb.adds hsteady.linked).1.answered.coherent
      (hconnected.trans (h.mailed.connected hids)) hdel
    rw [hnew]
    exact ⟨ids, by simp [List.ne_nil_of_mem hid], hid⟩
  | finish db hdb hdeleting =>
    intro id hid
    have hpush : s.pushOf (.resume (.delayed c)) = none := by
      simp [pushOf_delayed, goesOn, hdeleting]
    have hnil := hold [] (by simp [claimed, hdeleting]) id (hnone hpush hid)
    exact hnil.imp_left fun hid => by cases hid

theorem drainsOwn_of_fetchesOnce (hc : fetchesOnce (s, pushed) a) : s.drainsOwn a :=
  drainsOwn_of_socket fun c ha => by
    subst ha
    exact hc

theorem ownClient_of_fetchesOnce (hc : fetchesOnce (s, pushed) a) {c : ConnId}
    (ha : a = .resume (.delayed c)) : (s.ownClient c).all (· = c) := by
  subst ha
  exact hc

theorem Reported.step (h : Reported tables pushed s) (hc : fetchesOnce (s, pushed) a)
    (hstep : s.step a = some s') : Reported tables (pushed ++ (s.pushOf a).toList) s' where
  accounted := h.accounted.step hstep
  mailed := h.mailed.step hstep
  own := h.own.step h.accounted.settled.steady.sound h.accounted.settled.steady.linked
    (drainsOwn_of_fetchesOnce hc) hstep
  hands := h.hands.step h.accounted.settled.steady.sound.wellFormed
    fun _ ha => ownClient_of_fetchesOnce hc ha
  handed := h.handed.step h.accounted.settled hstep
  rows := by
    intro c
    by_cases ha : a = .resume (.delayed c)
    · subst ha
      exact h.continues hc hstep
    · exact h.others hc hstep ha

/-- What has been put into the queue of a login are no rows that have been put there before, nor is
what is still to be put there; and rows that have been written to a socket, or may yet be, are
carried there alone. -/
structure Once (pushed : List Push) (s : Server) : Prop where
  nodup : ∀ c, (handedRows pushed c ++ (s.fetched c).map Row.id).Nodup
  apart : ∀ c d, c ≠ d → (carried pushed s c).Disjoint (carried pushed s d)

theorem Reported.carried_sublist (h : Reported tables pushed s) (c : ConnId) :
    (carried pushed s c).Sublist (handedRows pushed c ++ (s.fetched c).map Row.id) := by
  refine List.Sublist.append ?_ ?_
  · rw [← h.hands.rows]
    exact (List.take_sublist _ _).filterMap _
  · split
    · exact List.Sublist.refl _
    · exact List.nil_sublist _

/-- A row that `send_delayed_messages` hands over was to be handed over before. -/
theorem Reported.carried_continues (h : Reported tables pushed s) {c : ConnId}
    (hc : fetchesOnce (s, pushed) (.resume (.delayed c)))
    (hstep : s.step (.resume (.delayed c)) = some s') :
    (Server.carried (pushed ++ (s.pushOf (.resume (.delayed c))).toList) s' c).Sublist
      (Server.carried pushed s c) := by
  have hs := h.accounted.settled
  have hrows := hs.rowsTo_step h.own.writes hstep (h.own.stream c)
  have hrest : (if s'.registered c then (s'.fetched c).map Row.id else []).Sublist
      ((s'.fetched c).map Row.id) := by
    split
    · exact List.Sublist.refl _
    · exact List.nil_sublist _
  obtain ⟨row, d, hf, hp⟩ | ⟨hp, hf⟩ := hs.steady.fetched_continues hstep
  · obtain rfl : d = c := pushOf_own hc hp
    obtain ⟨i, generation, hslot, -⟩ := pushOf_cases hs.steady.sound.wellFormed hp
    have hreg : s.registered d := registered_iff.mpr ⟨i, generation, hslot⟩
    have hone : rowsTo (s.pushOf (.resume (.delayed d))).toList d 1 = [row.id] := by
      simp [rowsTo, hp]
    rw [hone] at hrows
    rw [Server.carried, Server.carried, if_pos hreg, hf, List.map_cons, List.append_cons]
    exact hrows.append hrest
  · have hnone : rowsTo (s.pushOf (.resume (.delayed c))).toList c 1 = [] := by
      simp [rowsTo, hp]
    rw [hnone, List.append_nil] at hrows
    refine hrows.append (hrest.trans ?_)
    rw [hf]
    exact List.nil_sublist _

/-- A row is carried only when a `SELECT` has found it. -/
theorem Reported.carried (h : Reported tables pushed s) (hc : fetchesOnce (s, pushed) a)
    (hstep : s.step a = some s') (c : ConnId) :
    (carried (pushed ++ (s.pushOf a).toList) s' c).Sublist (Server.carried pushed s c) ∨
      s.Executes a c ∧ s.registered c ∧ s.delayed c = .fetching ∧ s.db.awaits (.delayed c) ∧
        (Server.carried (pushed ++ (s.pushOf a).toList) s' c).Sublist
          (Server.carried pushed s c ++ (s.backlog c).map Row.id) := by
  by_cases ha : a = .resume (.delayed c)
  · subst ha
    exact .inl (h.carried_continues hc hstep)
  have hs := h.accounted.settled
  have hrows := hs.rowsTo_step h.own.writes hstep (h.own.stream c)
  rw [rowsTo_pushOf hs hc ha, List.append_nil] at hrows
  have hnil : s'.fetched c = [] → (Server.carried (pushed ++ (s.pushOf a).toList) s' c).Sublist
      (Server.carried pushed s c) := by
    intro hf
    refine hrows.append ?_
    simp [hf]
  by_cases hreg' : s'.registered c
  · obtain hf | ⟨hx, hfetching, hawaits, hf⟩ | ⟨-, hf⟩ := hs.steady.fetched hstep ha
    · obtain hreg | hnone := hs.steady.registered hstep hreg'
      · refine .inl (hrows.append ?_)
        rw [if_pos hreg', if_pos hreg]
        exact hf.map _
      · rw [fetched_of_unanswered hs hnone] at hf
        exact .inl (hnil (List.sublist_nil.mp hf))
    · obtain hreg | hnone := hs.steady.registered hstep hreg'
      · refine .inr ⟨hx, hreg, hfetching, hawaits, ?_⟩
        rw [Server.carried, Server.carried, if_pos hreg', hf]
        exact (hrows.trans (List.sublist_append_left _ _)).append_right _
      · simp [hs.reached.begun c hnone] at hfetching
    · exact .inl (hnil hf)
  · refine .inl (hrows.append ?_)
    simp [hreg']

theorem backlog_of_awaits (s : Server) {c : ConnId} (hf : s.delayed c = .fetching)
    (ha : s.db.awaits (.delayed c)) :
    s.backlog c = s.db.tables.rowsAt (.delayed c) s.db.calls := by
  simp only [Server.backlog, hf, Database.found]
  unfold Database.awaits at ha
  split at ha
  · rename_i hcaller
    rw [hcaller]
  · cases ha

/-- What a `SELECT` finds at the head of the queue is in the tables. -/
theorem backlog_of_head {c : ConnId} (hx : s.Executes a c) (hf : s.delayed c = .fetching)
    (ha : s.db.awaits (.delayed c)) : (s.backlog c).Sublist s.db.tables.messages := by
  obtain ⟨stmt, rest, hcalls⟩ := hx.calls
  rw [s.backlog_of_awaits hf ha, hcalls]
  simp only [Tables.rowsAt, if_true]
  split
  · rename_i r t' hexec
    exact Tables.exec_rows hexec
  · exact List.nil_sublist _

/-- A row whose `DELETE` has been executed is in the tables no more. -/
theorem Mailed.removed (h : Mailed tables s) {c : ConnId} {ids : List Nat}
    (hd : (.delayed c, .deleteMessages ids) ∈ s.db.executed.map fun x => (x.1, x.2.1)) :
    ∀ row ∈ s.db.tables.messages, row.id ∉ ids := by
  obtain ⟨⟨t, stmt, r⟩, hx, heq⟩ := List.mem_map.mp hd
  cases heq
  have hentry : .remove ids ∈ entries s.db.executed :=
    List.mem_filterMap.mpr ⟨_, hx, rfl⟩
  intro row hrow hid
  rw [h.logged.recorded.replays.messages, Ledger.replay_eq h.fresh] at hrow
  have hnot := of_decide_eq_true (List.mem_filter.mp hrow).2
  exact hnot (List.mem_flatMap.mpr ⟨_, hentry, hid⟩)

/-- What has been written, or may yet be, is not left behind. -/
theorem Once.not_leftBehind (ho : Once pushed s) (h : Reported tables pushed s) {c : ConnId}
    {id : Nat} (hid : id ∈ rowsTo pushed c (s.reach c)) : id ∉ leftBehind pushed s c := by
  intro hleft
  unfold leftBehind at hleft
  split at hleft
  · cases hleft
  · rename_i hdrained
    have hlen := congrArg List.length (h.own.stream c)
    rw [List.length_append, pushedTo, List.length_map] at hlen
    have hrtake : (pushed.filter (·.login = c)).rtake (s.messages c).length =
        (pushed.filter (·.login = c)).drop (s.reach c) := by
      simp only [Server.reach, hdrained, List.rtake]
      congr 1
      simp only [Bool.false_eq_true, if_false]
      omega
    have hnodup := (List.nodup_append'.mp (ho.nodup c)).1
    rw [← h.hands.rows, ← List.take_append_drop (s.reach c) (pushed.filter _),
      List.filterMap_append] at hnodup
    rw [hrtake] at hleft
    exact (List.nodup_append'.mp hnodup).2.2 hid hleft

/-- What a `SELECT` of a login in its slot finds, no login has under way. -/
theorem not_underway_of_fetchesOnce (hc : fetchesOnce (s, pushed) a) {c d : ConnId}
    (hx : s.Executes a c) (hreg : s.registered c) (hd : d < s.accepted) {row : Row}
    (hrow : row ∈ s.backlog c) : row.id ∉ underway pushed s d := by
  obtain ⟨stmt, rest, hcalls⟩ := hx.calls
  obtain ⟨rfl, -⟩ := hx
  simp only [fetchesOnce, hcalls, hreg, Bool.not_true, Bool.false_or, List.all_eq_true,
    List.mem_range, decide_eq_true_eq] at hc
  exact hc row hrow d hd

/-- A login that carries a row has been accepted. -/
theorem Reported.accepted (h : Reported tables pushed s) {d : ConnId} {id : Nat}
    (hd : id ∈ Server.carried pushed s d) : d < s.accepted := by
  by_contra hlt
  have hnone : s.answer d = none := by
    by_contra hn
    obtain ⟨g, hg⟩ := Option.ne_none_iff_exists'.mp hn
    exact hlt (h.accounted.settled.steady.sound.accepted hg)
  rw [Server.carried, rowsTo_of_unanswered h.accounted hnone,
    fetched_of_unanswered h.accounted.settled hnone] at hd
  simp at hd

/-- A row that is carried is under way, as long as it is in the tables. -/
theorem Once.underway (ho : Once pushed s) (h : Reported tables pushed s) {d : ConnId} {row : Row}
    (hrow : row ∈ s.db.tables.messages) (hd : row.id ∈ Server.carried pushed s d) :
    row.id ∈ underway pushed s d := by
  obtain hreach | hfetched := List.mem_append.mp hd
  · refine List.mem_append_left _ (List.mem_filter.mpr
      ⟨?_, decide_eq_true (ho.not_leftBehind h hreach)⟩)
    obtain hclaimed | ⟨ids, hids, hid⟩ := h.rows d row.id hreach
    · exact List.mem_append_left _ hclaimed
    · -- its `DELETE` has not been executed, since the row is in the tables
      obtain ⟨x, hx, hids⟩ := List.mem_filterMap.mp hids
      obtain rfl := deleteOf_eq_some.mp hids
      rw [sent_eq h.mailed.logged.answered.coherent] at hx
      refine List.mem_append_right _ (List.mem_flatten.mpr ⟨ids, ?_, hid⟩)
      refine List.mem_filterMap.mpr ⟨_, (List.mem_append.mp hx).resolve_left fun hx => ?_, hids⟩
      exact h.mailed.removed hx row hrow hid
  · exact List.mem_append_right _ hfetched

/-- What a `SELECT` finds is carried by no login. -/
theorem Once.found (ho : Once pushed s) (h : Reported tables pushed s)
    (hc : fetchesOnce (s, pushed) a) {c : ConnId} (hx : s.Executes a c) (hreg : s.registered c)
    (hf : s.delayed c = .fetching) (hawaits : s.db.awaits (.delayed c)) (d : ConnId) :
    (Server.carried pushed s d).Disjoint ((s.backlog c).map Row.id) := by
  intro id hd hid
  obtain ⟨row, hrow, rfl⟩ := List.mem_map.mp hid
  have htables := (backlog_of_head hx hf hawaits).subset hrow
  exact not_underway_of_fetchesOnce hc hx hreg (h.accepted hd) hrow (ho.underway h htables hd)

theorem Once.nodup_step (ho : Once pushed s) (h : Reported tables pushed s)
    (hstep : s.step a = some s') (c : ConnId) :
    (handedRows (pushed ++ (s.pushOf a).toList) c ++ (s'.fetched c).map Row.id).Nodup := by
  have hsteady := h.accounted.settled.steady
  rw [handedRows_append]
  by_cases ha : a = .resume (.delayed c)
  · subst ha
    obtain ⟨row, d, hf, hp⟩ | ⟨hp, hf⟩ := hsteady.fetched_continues hstep
    · have hnodup := ho.nodup c
      rw [hf, List.map_cons, List.append_cons] at hnodup
      simpa [hp, handedRows] using hnodup
    · simpa [hp, hf, handedRows] using (List.nodup_append'.mp (ho.nodup c)).1
  · rw [handedRows_pushOf hsteady.sound.wellFormed ha, List.append_nil]
    obtain hf | ⟨-, hfetching, hawaits, hf⟩ | ⟨-, hf⟩ := hsteady.fetched hstep ha
    · exact (ho.nodup c).sublist ((hf.map _).append_left _)
    · have hnil : handedRows pushed c = [] := by
        have hh := h.handed c
        simpa [hfetching, collected] using hh
      rw [hnil, List.nil_append, hf, backlog_of_awaits s hfetching hawaits]
      exact List.pairwise_map.mpr
        ((s.db.tables.rowsAt_ascending (.delayed c) s.db.calls).imp Nat.ne_of_lt)
    · simpa [hf] using (List.nodup_append'.mp (ho.nodup c)).1

theorem Once.step (ho : Once pushed s) (h : Reported tables pushed s)
    (hc : fetchesOnce (s, pushed) a) (hstep : s.step a = some s') :
    Once (pushed ++ (s.pushOf a).toList) s' := by
  refine ⟨ho.nodup_step h hstep, fun c d hcd => ?_⟩
  obtain hsub | ⟨hx, hreg, hf, hawaits, hsub⟩ := h.carried hc hstep c
  · obtain hsub' | ⟨hx, hreg, hf, hawaits, hsub'⟩ := h.carried hc hstep d
    · exact List.disjoint_of_subset_left hsub.subset
        (List.disjoint_of_subset_right hsub'.subset (ho.apart c d hcd))
    · refine List.disjoint_of_subset_left hsub.subset
        (List.disjoint_of_subset_right hsub'.subset ?_)
      exact List.disjoint_append_right.mpr ⟨ho.apart c d hcd, ho.found h hc hx hreg hf hawaits c⟩
  · obtain hsub' | ⟨hx', -⟩ := h.carried hc hstep d
    · refine List.disjoint_of_subset_left hsub.subset
        (List.disjoint_of_subset_right hsub'.subset ?_)
      exact List.disjoint_append_left.mpr
        ⟨ho.apart c d hcd, List.disjoint_symm (ho.found h hc hx hreg hf hawaits d)⟩
    · have heq := hx.2.symm.trans hx'.2
      simp [hcd] at heq

theorem Once.writtenOnce (ho : Once pushed s) (h : Reported tables pushed s) :
    WrittenOnce pushed s := by
  have hsub : ∀ c, (rowsWritten pushed s c).Sublist (Server.carried pushed s c) := fun c =>
    (rowsTo_mono pushed c (Nat.le_add_right _ _)).trans (List.sublist_append_left _ _)
  refine ⟨fun c => ⟨s.messages c, h.own.stream c⟩,
    fun c => (ho.nodup c).sublist ((hsub c).trans (h.carried_sublist c)), ?_⟩
  intro c d hcd
  exact List.disjoint_of_subset_left (hsub c).subset
    (List.disjoint_of_subset_right (hsub d).subset (ho.apart c d hcd))

theorem init_reported (native : Proto.Endian) (succeeds : StartStep → Bool) (tables : Tables) :
    Reported tables [] (init native succeeds tables) where
  accounted := init_accounted native succeeds tables
  mailed := init_mailed native succeeds tables
  own := init_ownStreams native succeeds tables
  hands := by
    intro p hp
    cases hp
  handed := fun c => .inr (.inr rfl)
  rows := by simp [rowsTo]

/-- In a run in which no `SELECT` of a login in its slot is executed while a login has one of the
rows under way that it finds, and no `send_delayed_messages` is aborted whose message may have been
written, no row is written twice. -/
theorem rows_written_once (native : Proto.Endian) (succeeds : StartStep → Bool) (tables : Tables)
    (as : List Action)
    (hc : Lts.Along (Lts.logged step fun s a => (s.pushOf a).toList) (fun p a => fetchesOnce p a)
      (init native succeeds tables, []) as) :
    Lts.Always (Lts.logged step fun s a => (s.pushOf a).toList) (fun p => WrittenOnce p.2 p.1)
      (init native succeeds tables, []) as := by
  intro bs hp p hr
  have hinv := Lts.invariant (I := fun p : Server × List Push =>
    Reported tables p.2 p.1 ∧ Once p.2 p.1) ?_ ⟨init_reported native succeeds tables, ?_⟩
    (hc.initial hp) hr
  · exact hinv.2.writtenOnce hinv.1
  · rintro ⟨s, pushed⟩ a ⟨t, pushed'⟩ ⟨h, ho⟩ hc hstep
    obtain ⟨hstep, rfl⟩ := Lts.logged_eq_some.mp hstep
    exact ⟨h.step hc hstep, ho.step h hc hstep⟩
  · constructor <;> simp [handedRows, Server.carried, rowsTo, fetched, backlog, registered, init]

/-- Key 2 writes twice to key 1, which has left. Key 1 logs in again, and the first message is
being written to its socket; the second one is in its queue. -/
def twoStored : List Action :=
  [.loop, .accept, .keyRead 0 (.replicate 32 1), .loop, .execute, .resume (.start 0), .loop,
    .execute, .resume (.delayed 0), .readFails 0, .accept, .keyRead 1 (.replicate 32 2), .loop,
    .execute, .resume (.start 1), .loop, .execute, .resume (.delayed 1),
    .greetings 1 (greetingsTo 1), .message 1 [7] true, .loop, .execute, .resume (.store 0),
    .greetings 1 (greetingsTo 1), .message 1 [8] true, .loop, .execute, .resume (.store 1), .accept,
    .keyRead 2 (.replicate 32 1), .loop, .execute, .resume (.start 2), .loop, .execute,
    .resume (.start 2), .loop, .execute, .resume (.delayed 2), .resume (.socket 2),
    .resume (.delayed 2)]

/-- The login after it fetches and writes all it finds. -/
def nextLogin : List Action :=
  [.readFails 2, .accept, .keyRead 3 (.replicate 32 1), .loop, .execute, .resume (.start 3), .loop,
    .execute, .resume (.start 3), .loop, .execute, .resume (.delayed 3)]

/-- Key 1 leaves when the first message has been written and before the second one has, so that
no `DELETE` has been queued. -/
theorem not_rows_written_once :
    ¬ Lts.Always (Lts.logged step fun s a => (s.pushOf a).toList) (fun p => WrittenOnce p.2 p.1)
      (init .little (fun _ => true) .empty, [])
      (twoStored ++ [.written 2] ++ nextLogin ++ [.resume (.socket 3), .written 3]) := by
  intro h
  have hrun : (Lts.run (Lts.logged step fun s a => (s.pushOf a).toList)
      (init .little (fun _ => true) .empty, [])
      (twoStored ++ [.written 2] ++ nextLogin ++ [.resume (.socket 3), .written 3])).any fun p =>
      1 ∈ rowsWritten p.2 p.1 2 ∧ 1 ∈ rowsWritten p.2 p.1 3 := by
    decide +kernel
  obtain ⟨p, hs, hbad⟩ := (Option.any_eq_true _ _).mp hrun
  obtain ⟨h2, h3⟩ := of_decide_eq_true hbad
  exact (h _ (List.prefix_refl _) p hs).apart 2 3 (by decide) h2 h3

/-- Both have been written and the `DELETE` is executed before key 1 leaves. -/
theorem rows_written_once_session :
    Lts.Always (Lts.logged step fun s a => (s.pushOf a).toList) (fun p => WrittenOnce p.2 p.1)
      (init .little (fun _ => true) .empty, [])
      (twoStored ++ [.written 2, .written 2, .resume (.delayed 2), .loop, .execute] ++
        nextLogin) :=
  rows_written_once .little (fun _ => true) .empty _ (by decide +kernel)

end Server
end MydakServer
