import MydakServer.Conservation
import MydakServer.Inert
import MydakServer.Streams

/-! How `send_delayed_messages` goes from one stored message to the next, and which of them it
deletes. -/
namespace MydakServer.Server

/-- The rows that `send_delayed_messages` goes on with when it resumes, and the ids that it has
collected by then. -/
def goesOn (s : Server) (c : ConnId) : Option (List Row × List Nat) :=
  match s.delayed c with
  | .fetching =>
    match s.db.resume (.delayed c) with
    | some (_, some (.messages rows)) => some (rows, [])
    | _ => none
  | .sending current rest sent =>
    if s.signal (.delayed c) = .taken then some (rest, sent ++ [current.id]) else none
  | _ => none

/-- The client that `add_message_to_queue` finds for `send_delayed_messages`. -/
def ownClient (s : Server) (c : ConnId) : Option ConnId :=
  s.clientAt (s.connection c).indices.index (s.connection c).indices.generation

/-- The ids that `send_delayed_messages` passes to `delete_delayed_messages` when it resumes. -/
def deletes (s : Server) (c : ConnId) : Option (List Nat) :=
  match s.goesOn c with
  | some ([], ids) => some ids
  | some (_ :: _, ids) => if (s.ownClient c).isNone then some ids else none
  | none =>
    match s.delayed c, s.signal (.delayed c) with
    | .sending _ _ sent, .aborted => some sent
    | _, _ => none

/-- The database when the coroutine has read the results it waited for, if it waited. -/
def Reads (s : Server) (c : ConnId) (db : Database Task) : Prop :=
  db = s.db ∨ ∃ v, s.db.resume (.delayed c) = some (db, v)

/-- `send_delayed_messages` hands over its next row, or deletes, or has nothing left to do. -/
inductive Continues (s : Server) (c : ConnId) : Server → Prop
  | hand (row : Row) (rest : List Row) (ids : List Nat) (d : ConnId) (db : Database Task)
    (hdb : s.Reads c db) (hg : s.goesOn c = some (row :: rest, ids))
    (hd : s.ownClient c = some d) :
    Continues s c ((({ s with db }.push d row.data).asyncSend d (.delayed c)).setDelayed c
      (.sending row rest ids))
  | delete (ids : List Nat) (db : Database Task) (s' : Server) (hdb : s.Reads c db)
    (hids : s.deletes c = some ids) (h : { s with db }.deleteSent c ids = some s') :
    Continues s c s'
  | finish (db : Database Task) (hdb : s.Reads c db) (hc : s.delayed c = .deleting) :
    Continues s c ({ s with db }.setDelayed c .finished)

theorem nextRow_eq (s : Server) (c : ConnId) :
    s.nextRow c = (s.goesOn c).bind fun p => p.1.head? := by
  unfold nextRow goesOn
  cases s.delayed c with
  | fetching =>
    dsimp only
    split <;> rename_i h
    · simp [h]
    · split
      · rename_i db rows hd
        cases rows with
        | nil => rfl
        | cons row rest => exact absurd hd (h db row rest)
      · rfl
  | sending current rest sent =>
    cases rest with
    | nil => by_cases h : s.signal (.delayed c) = .taken <;> simp [h]
    | cons row rest => by_cases h : s.signal (.delayed c) = .taken <;> simp [h]
  | _ => rfl

theorem sendDelayed_continues {s s' : Server} {c : ConnId} {rows : List Row} {ids : List Nat}
    {db : Database Task} (hdb : s.Reads c db) (hw : s.registry.WellFormed)
    (hg : s.goesOn c = some (rows, ids))
    (h : { s with db }.sendDelayed c rows ids = some s') : Continues s c s' := by
  cases rows with
  | nil => exact .delete ids db s' hdb (by simp [deletes, hg]) h
  | cons row rest =>
    obtain ⟨⟨s₂, r⟩, hq, h⟩ := Option.bind_eq_some_iff.mp h
    obtain ⟨hc, rfl, code, rfl, hcode⟩ | ⟨d, hc, rfl, rfl⟩ :=
      addMessageToQueue_clientAt (s := { s with db }) hw hq
    · have hown : s.ownClient c = none := hc
      refine .delete ids db s' hdb (by simp [deletes, hg, hown]) ?_
      cases code with
      | success => exact absurd rfl hcode
      | _ => exact h
    · cases h
      exact .hand row rest ids d db hdb hg hc

theorem resume_continues {I : Tables → Prop} {s s' : Server} {c : ConnId}
    (hw : s.registry.WellFormed) (hl : Linked I none s) (h : s.resume (.delayed c) = some s') :
    Continues s c s' := by
  cases resume_cases h with
  | fetched _ db rows _ hc hd h =>
    exact sendDelayed_continues (.inr ⟨_, hd⟩) hw (by simp [goesOn, hc, hd]) h
  | fetching _ db v hc hd hv =>
    obtain ⟨rows, rfl⟩ := hl.fetches hc hd
    exact absurd rfl (hv rows)
  | taken _ current rest sent _ hc hs h =>
    exact sendDelayed_continues (.inl rfl) hw (by simp [goesOn, hc, hs]) h
  | aborted _ current rest sent _ hc hs h =>
    exact .delete sent s.db s' (.inl rfl) (by simp [deletes, goesOn, hc, hs]) h
  | deleted _ db v hc hd => exact .finish db (.inr ⟨v, hd⟩) hc

/-- The message that `send_delayed_messages` puts into a queue is that of its next row. -/
theorem pushOf_delayed (s : Server) (c : ConnId) : s.pushOf (.resume (.delayed c)) =
    (s.goesOn c).bind fun p => p.1.head?.bind fun row =>
      (s.ownClient c).map fun d => ⟨.delayed c, d, row.data, some row.id⟩ := by
  simp only [pushOf, nextRow_eq, Option.bind_assoc, ownClient]

/-- `send_delayed_messages` hands over to its own login. -/
theorem pushOf_own {s : Server} {d : ConnId} {p : Push} (hown : (s.ownClient d).all (· = d))
    (hp : s.pushOf (.resume (.delayed d)) = some p) : p.login = d := by
  rw [pushOf_delayed] at hp
  obtain ⟨⟨rows, ids⟩, -, hp⟩ := Option.bind_eq_some_iff.mp hp
  obtain ⟨row, -, hp⟩ := Option.bind_eq_some_iff.mp hp
  obtain ⟨e, he, rfl⟩ := Option.map_eq_some_iff.mp hp
  simpa [he] using hown

/-- Whatever else happens, `send_delayed_messages` of the connection stays where it is, unless
it has just been spawned. -/
theorem Move.delayed {I : Tables → Prop} {s t : Server} {a : Action} (hs : Sound s)
    (hm : Move I s a t) {c : ConnId} (ha : a ≠ .resume (.delayed c)) :
    t.delayed c = s.delayed c ∨ s.answer c = none ∧ t.answer c ≠ none ∧
      (t.delayed c = .fetching ∨ t.delayed c = .finished) := by
  have hset : ∀ (u : Server) d state, u.delayed = s.delayed → s.answer d = none →
      u.answer d ≠ none → (state = .fetching ∨ state = .finished) →
      (u.setDelayed d state).delayed c = s.delayed c ∨
        s.answer c = none ∧ (u.setDelayed d state).answer c ≠ none ∧
          ((u.setDelayed d state).delayed c = .fetching ∨
            (u.setDelayed d state).delayed c = .finished) := by
    intro u d state hu hd hd' hstate
    by_cases hcd : c = d
    · subst hcd
      exact .inr ⟨hd, hd', by simpa [setDelayed] using hstate⟩
    · exact .inl (by simp [setDelayed, Function.update_of_ne hcd, hu])
  cases hm with
  | reject d key state hd hk hstate =>
    exact hset _ d state rfl (hs.answer_none (.inr (.inl hd))) (by simp [answered, setStart]) hstate
  | grant _ d key g v id state hd hv hev hid hstate =>
    exact hset _ d state (((s.setKey d key).emplaced d v
      { g with dbIndex := id }).socketCoroutine_stays d).delayed (answer_of_logs hs hd)
      (by simp [granted, answered, setStart]) hstate
  | relay d bytes lookup size recipient e f =>
    exact .inl (congrFun ((s.push f _).asyncSend_stays f _).delayed c)
  | hand d =>
    have hcd : c ≠ d := by
      intro heq
      subst heq
      exact ha rfl
    refine .inl ?_
    simp only [setDelayed, Function.update_of_ne hcd]
    exact congrFun ((s.push _ _).asyncSend_stays _ _).delayed c
  | stop d =>
    have hcd : c ≠ d := by
      intro heq
      subst heq
      exact ha rfl
    exact .inl (by simp [setDelayed, Function.update_of_ne hcd])
  | park d => exact .inl (congrFun (s.socketCoroutine_stays d).delayed c)
  | wrote d socket q channel m front rest =>
    exact .inl (congrFun ((s.popped socket q m rest).writeMessages_stays d _ q).delayed c)
  | _ => exact .inl rfl

theorem Reads.adds {I : Tables → Prop} {s : Server} {c : ConnId} {db : Database Task}
    (h : Linked I none s) (hdb : s.Reads c db) :
    Linked I (some (.delayed c)) { s with db } ∧
      Adds (fun stmt => ∃ key, stmt = .selectUser key) s.db db := by
  obtain rfl | ⟨v, hd⟩ := hdb
  · exact ⟨h.weaken _, .refl _ _⟩
  · exact h.resumeDb hd

/-- The statement that `send_delayed_messages` sends when it resumes names what it deletes. -/
theorem delayed_adds {I : Tables → Prop} {s s' : Server} {c : ConnId}
    (hw : s.registry.WellFormed) (h : Linked I none s) (hs : s.resume (.delayed c) = some s') :
    Adds (fun stmt => (∃ key, stmt = .selectUser key) ∨
      ∃ ids, s.deletes c = some ids ∧ stmt = .deleteMessages ids) s.db s'.db := by
  cases resume_continues hw h hs with
  | hand row rest ids d db hdb =>
    have hkeep : ((({ s with db }.push d row.data).asyncSend d (.delayed c)).setDelayed c
        (.sending row rest ids)).db = db := by
      have hsend := asyncSend_db ({ s with db }.push d row.data) d (.delayed c)
      exact hsend
    rw [hkeep]
    exact (hdb.adds h).2.mono fun _ => .inl
  | delete ids db _ hdb hids hdel =>
    obtain ⟨hl, hadds⟩ := hdb.adds h
    refine (hadds.mono fun _ => .inl).trans ((hl.deleteSent hdel).2.mono ?_)
    exact fun _ hstmt => .inr ⟨ids, hids, hstmt⟩
  | finish db hdb => exact (hdb.adds h).2.mono fun _ => .inl

/-- A `DELETE` that names rows is sent by a `send_delayed_messages` that has come to its end. -/
theorem Steady.deletes {s s' : Server} {a : Action} (h : Steady s) (hstep : s.step a = some s')
    {ids : List Nat} (hd : .deleteMessages ids ∈ s'.db.issued.drop s.db.issued.length) :
    ids = [] ∨ ∃ c, a = .resume (.delayed c) ∧ s.deletes c = some ids := by
  obtain ⟨-, -, hi, -⟩ | ⟨-, -, stmts, hmay, -, hi⟩ :=
    (h.linked.step h.sound (fun _ _ _ _ _ => trivial) hstep).2
  · simp [hi] at hd
  · rw [hi, List.drop_left] at hd
    obtain hnil | ⟨c, current, rest, sent, rfl, -⟩ := hmay _ hd
    · exact .inl hnil
    · obtain ⟨-, -, stmts', hstmts, -, hi'⟩ := delayed_adds h.sound.wellFormed h.linked hstep
      obtain rfl : stmts = stmts' := List.append_cancel_left (hi.symm.trans hi')
      obtain ⟨key, hkey⟩ | ⟨ids', hids, heq⟩ := hstmts _ hd
      · cases hkey
      · cases heq
        exact .inr ⟨c, rfl, hids⟩

theorem Steady.delayed {s s' : Server} {a : Action} (h : Steady s) (hstep : s.step a = some s')
    {c : ConnId} (ha : a ≠ .resume (.delayed c)) :
    s'.delayed c = s.delayed c ∨ s.answer c = none ∧ s'.answer c ≠ none ∧
      (s'.delayed c = .fetching ∨ s'.delayed c = .finished) := by
  obtain ⟨t, hm, halike⟩ := step_move h.sound h.linked hstep
  rw [halike.delayed, halike.answer]
  exact hm.delayed h.sound ha

/-- The ids collected so far, the current one included, when `send_delayed_messages` waits for a
message to be taken. -/
def collected (s : Server) (c : ConnId) : List Nat :=
  match s.delayed c with
  | .sending current _ sent => sent ++ [current.id]
  | _ => []

theorem collected_of_goesOn {s : Server} {c : ConnId} {rows : List Row} {ids : List Nat}
    (h : s.goesOn c = some (rows, ids)) : ids = s.collected c := by
  unfold goesOn at h
  cases hc : s.delayed c with
  | fetching =>
    simp only [hc] at h
    split at h <;> cases h
    simp [collected, hc]
  | sending current rest sent =>
    simp only [hc] at h
    split at h <;> cases h
    simp [collected, hc]
  | _ => simp [hc] at h

end MydakServer.Server
