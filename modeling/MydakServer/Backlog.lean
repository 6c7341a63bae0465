import MydakServer.Fetches
import MydakServer.Handovers

/-! The messages that `send_delayed_messages` of a login still has to hand over, from the moment
its `SELECT` is queued. -/
namespace MydakServer.Server
open Database

/-- What is left of the rows that were fetched, or what the `SELECT` will find. -/
def backlog (s : Server) (c : ConnId) : List Row :=
  match s.delayed c with
  | .fetching => s.db.found (.delayed c)
  | .sending _ rest _ => rest
  | _ => []

variable {x : Prop}

theorem deleteSent_undisturbed {s s' : Server} {c : ConnId} {ids : List Nat}
    (h : s.db.queue.Coherent) (hs : s.deleteSent c ids = some s') {i : Task}
    (hi : i ≠ .delayed c) : Undisturbed x s.db s'.db i := by
  obtain ⟨db, v, hd, rfl⟩ := deleteSent_cases hs
  obtain ⟨-, rfl, -⟩ | hreq := deleteDelayedMessages_cases hd
  · exact .refl _ i
  · exact request_undisturbed h (Ne.symm hi) hreq

/-- For `send_delayed_messages` of the connection nothing has changed, or only that its `SELECT`
has been executed. -/
def Rests (x : Prop) (s s' : Server) (c : ConnId) : Prop :=
  s'.delayed c = s.delayed c ∧ Undisturbed x s.db s'.db (.delayed c)

/-- `send_delayed_messages` of the connection is spawned, and waits for its `SELECT` or has
returned. -/
structure Spawns (x : Prop) (s s' : Server) (c : ConnId) : Prop where
  others : ∀ d, d ≠ c → Rests x s s' d
  own : s'.delayed c = .fetching ∧ s'.db.awaits (.delayed c) ∨ s'.delayed c = .finished

theorem sendDelayedMessages_spawns {s s' : Server} {c : ConnId} (h : s.db.queue.Coherent)
    (hs : s.sendDelayedMessages c = some s') : Spawns x s s' c := by
  obtain ⟨⟨db, v⟩, hd, hs⟩ := Option.bind_eq_some_iff.mp hs
  have hother : ∀ d, d ≠ c → Undisturbed x s.db db (.delayed d) := fun d hd' =>
    request_undisturbed h (by simpa using Ne.symm hd') hd
  obtain ⟨-, rfl, rfl⟩ | ⟨q, -, -, -, rfl⟩ := request_cases hd
  · obtain ⟨db, v, hdel, rfl⟩ := deleteSent_cases (show Server.deleteSent _ c [] = some s' from hs)
    cases hdel
    refine ⟨fun d hd => ⟨?_, hother d hd⟩, .inr (by simp [setDelayed])⟩
    simp [setDelayed, Function.update_of_ne hd]
  · have hawaits := request_awaits h hd
    cases hs
    refine ⟨fun d hd => ⟨?_, hother d hd⟩, .inl ⟨by simp [setDelayed], hawaits⟩⟩
    simp [setDelayed, Function.update_of_ne hd]

theorem userAdded_spawns {s s' : Server} {c : ConnId} {id : Nat} (h : s.db.queue.Coherent)
    (hs : s.userAdded c id = some s') : Spawns x s s' c := by
  obtain ⟨g, v, -, hs⟩ := userAdded_cases hs
  obtain ⟨channel, signal, state, he, -⟩ :=
    (s.emplaced c v { g with dbIndex := id }).socketCoroutine_eq c
  have hsend := sendDelayedMessages_spawns (x := x) (by rw [he]; exact h) hs
  rw [he] at hsend
  exact ⟨hsend.others, hsend.own⟩

theorem addClient_spawns {s s' : Server} {c : ConnId} (h : s.db.queue.Coherent)
    (hs : s.addClient c = some s') : Spawns x s s' c ∨ ∀ d, Rests x s s' d := by
  obtain ⟨-, hs⟩ | ⟨-, db, v, hd, hv⟩ := addClient_cases hs
  · have hsend := sendDelayedMessages_spawns (x := x) (s := s.answered c .empty) h hs
    exact .inl ⟨hsend.others, hsend.own⟩
  · obtain ⟨-, rfl, rfl⟩ | ⟨q, -, -, -, rfl⟩ := request_cases hd
    · obtain ⟨id, -, hs⟩ | ⟨hv, -⟩ := hv
      · exact .inl (userAdded_spawns h hs)
      · exact absurd rfl (hv _)
    · obtain ⟨id, hv, -⟩ | ⟨-, rfl⟩ := hv
      · cases hv
      · exact .inr fun d => ⟨rfl, request_undisturbed h (by simp) hd⟩

theorem signalled_delayed (s : Server) (c : ConnId) : (s.signalled c).delayed = s.delayed := by
  have hloop := (s.socketCoroutine_stays c).delayed
  unfold signalled
  split
  · split
    · exact (s.writeMessages_stays c _ _).delayed
    · exact hloop
  · exact hloop

/-- `send_delayed_messages` of another connection goes on. -/
theorem Continues.rests {s s' : Server} {c d : ConnId} (h : s.db.queue.Coherent)
    (hs : Continues s d s') (hcd : c ≠ d) (hlinked : Linked (fun _ => True) none s) :
    Rests x s s' c := by
  have hreads : ∀ db, s.Reads d db →
      db.queue.Coherent ∧ Undisturbed x s.db db (.delayed c) := by
    intro db hdb
    refine ⟨(hdb.adds hlinked).1.answered.coherent, ?_⟩
    obtain rfl | ⟨v, hd⟩ := hdb
    · exact .refl _ _
    · exact resume_undisturbed h (by simpa using Ne.symm hcd) hd
  cases hs with
  | hand row rest ids e db hdb =>
    obtain ⟨channel, signal, he⟩ := ({ s with db }.push e row.data).asyncSend_eq e (.delayed d)
    rw [he]
    exact ⟨by simp [setDelayed, push, Function.update_of_ne hcd], (hreads db hdb).2⟩
  | delete ids db _ hdb hids hdel =>
    obtain ⟨hq, hu⟩ := hreads db hdb
    refine ⟨?_, hu.trans (deleteSent_undisturbed (s := { s with db }) hq hdel (by simpa using hcd))⟩
    obtain ⟨db', v, -, rfl⟩ := deleteSent_cases hdel
    simp [setDelayed, Function.update_of_ne hcd]
  | finish db hdb =>
    exact ⟨by simp [setDelayed, Function.update_of_ne hcd], (hreads db hdb).2⟩

/-- The statement that `send_delayed_messages` of the connection waits for is executed. -/
def Executes (s : Server) (a : Action) (c : ConnId) : Prop :=
  a = .execute ∧ s.db.calls.head?.map Prod.fst = some (.delayed c)

theorem Executes.calls {s : Server} {a : Action} {c : ConnId} (h : s.Executes a c) :
    ∃ stmt rest, s.db.calls = (.delayed c, stmt) :: rest := by
  have hhead := h.2
  cases hq : s.db.calls with
  | nil => simp [hq] at hhead
  | cons x rest =>
    obtain ⟨t, stmt⟩ := x
    obtain rfl : t = .delayed c := by simpa [hq] using hhead
    exact ⟨stmt, rest, rfl⟩

/-- A step in which `send_delayed_messages` of the connection does not go on. -/
theorem Steady.rests {s s' : Server} {a : Action} (h : Steady s) (hstep : s.step a = some s')
    {c : ConnId} (ha : a ≠ .resume (.delayed c)) (hx : s.Executes a c → x) :
    Rests x s s' c ∨ s.answer c = none ∧
      (s'.delayed c = .fetching ∧ s'.db.awaits (.delayed c) ∨ s'.delayed c = .finished) := by
  have hq := h.linked.answered.coherent
  have hspawn : ∀ {u : Server} {d}, u.delayed = s.delayed → s.answer d = none →
      Undisturbed x s.db u.db (.delayed c) → Spawns x u s' d →
      Rests x s s' c ∨ s.answer c = none ∧
        (s'.delayed c = .fetching ∧ s'.db.awaits (.delayed c) ∨ s'.delayed c = .finished) := by
    intro u d hdel hd hu hs
    by_cases hcd : c = d
    · subst hcd
      exact .inr ⟨hd, hs.own⟩
    · obtain ⟨hsame, hu'⟩ := hs.others c hcd
      exact .inl ⟨hsame.trans (congrFun hdel c), hu.trans hu'⟩
  have hrest : ∀ {db : Database Task}, s'.delayed c = s.delayed c → s'.db = db →
      Undisturbed x s.db db (.delayed c) → Rests x s s' c := fun hdel hdb hu => ⟨hdel, hdb ▸ hu⟩
  cases step_cases hstep with
  | keyRead d key _ hd hstep =>
    obtain hs | hr := addClient_spawns (x := x) (s := s.setKey d key) hq hstep
    · exact hspawn (u := s.setKey d key) rfl (h.sound.answer_none (.inr (.inl hd))) (.refl _ _) hs
    · exact .inl ⟨(hr c).1, (hr c).2⟩
  | message d bytes lookup size recipient _ hd hstep =>
    obtain ⟨r, s₁, -, -, hs₁, rfl⟩ | ⟨e, f, generation, -, -, rfl⟩ :=
      relay_cases (s := s.addFrame (s.frame d size recipient bytes)) h.sound.wellFormed hstep
    · obtain ⟨db, v, hdb, rfl⟩ := addMessageToDb_cases hs₁
      exact .inl ⟨rfl, request_undisturbed hq (by simp) hdb⟩
    · obtain ⟨channel, signal, he⟩ := ((s.addFrame (s.frame d size recipient bytes)).push f
        (s.frame d size recipient bytes).message).asyncSend_eq f (.start d)
      rw [he]
      exact .inl ⟨rfl, .refl _ _⟩
  | written d socket q channel m front rest hd hf =>
    have hdel := ((s.popped socket q m rest).writeMessages_stays d
      ⟨some socket, some q, channel⟩ q).delayed
    refine .inl (hrest (congrFun hdel c) ?_ (.refl _ _))
    obtain ⟨-, hdb⟩ := Linked.writeMessages (s := s.popped socket q m rest)
      ⟨h.linked.answered, h.linked.adding, h.linked.fetching⟩ d ⟨some socket, some q, channel⟩ q
    exact hdb
  | resume t _ hs =>
    have hdelayed : ∀ d, t = .delayed d → Rests x s s' c := by
      intro d hd
      subst hd
      have hcd : c ≠ d := by
        intro heq
        subst heq
        exact ha rfl
      exact (resume_continues h.sound.wellFormed h.linked hstep).rests hq hcd h.linked
    cases hs with
    | userAdded d db id _ hd hdb hs =>
      refine hspawn (u := { s with db }) rfl (h.sound.answer_none (.inr (.inr hd)))
        (resume_undisturbed hq (by simp) hdb) (userAdded_spawns ?_ hs)
      exact (h.linked.answered.resume hdb).1.coherent
    | addUser d db v hd hdb => exact .inl ⟨rfl, resume_undisturbed hq (by simp) hdb⟩
    | relayed d => exact .inl ⟨rfl, .refl _ _⟩
    | signalled d =>
      exact .inl (hrest (congrFun (s.signalled_delayed d) c) (h.linked.signalled d).2 (.refl _ _))
    | socketAborted d => exact .inl ⟨rfl, .refl _ _⟩
    | stored n db v hdb => exact .inl ⟨rfl, resume_undisturbed hq (by simp) hdb⟩
    | fetched d | fetching d | taken d | aborted d | deleted d => exact .inl (hdelayed d rfl)
  | loop db hd => exact .inl ⟨rfl, runLoop_undisturbed hq hd _⟩
  | execute db hd =>
    exact .inl ⟨rfl, (execute_undisturbed hq hd _).mono fun hhead => hx ⟨rfl, hhead⟩⟩
  | executeThrows db hd => exact .inl ⟨rfl, executeThrows_undisturbed hd _⟩
  | _ => exact .inl ⟨rfl, .refl _ _⟩

/-- The backlog of a connection changes only when its `send_delayed_messages` is spawned or goes
on. -/
theorem Steady.backlog {s s' : Server} {a : Action} (h : Steady s) (hstep : s.step a = some s')
    {c : ConnId} (ha : a ≠ .resume (.delayed c)) : s'.backlog c = s.backlog c ∨
      s.answer c = none ∧ ((s'.backlog c).map Row.data).Sublist s'.db.stored := by
  obtain ⟨hdel, hu⟩ | ⟨hc, ⟨hdel, hawaits⟩ | hdel⟩ := h.rests hstep ha fun _ => trivial
  · simp only [Server.backlog, hdel, hu.found, true_or]
  · refine .inr ⟨hc, ?_⟩
    simpa only [Server.backlog, hdel] using found_stored hawaits
  · exact .inr ⟨hc, by simp [Server.backlog, hdel]⟩

theorem Linked.found_of_fetching {I : Tables → Prop} {s : Server} (h : Linked I none s)
    {c : ConnId} {db : Database Task} {rows : List Row} (hc : s.delayed c = .fetching)
    (hd : s.db.resume (.delayed c) = some (db, some (.messages rows))) :
    s.db.found (.delayed c) = rows ∧ s.db.awaits (.delayed c) = false := by
  have hsends := h.answered.sends _ _ (h.fetching c (by simp) hc)
  apply found_of_resume hd
  cases hop : s.db.operation (.delayed c) <;> simp [hop, Operation.Sends] at hsends
  rfl

theorem Steady.backlog_of_goesOn {s : Server} (h : Steady s) {c : ConnId} {rows : List Row}
    {ids : List Nat} (hg : s.goesOn c = some (rows, ids)) : s.backlog c = rows := by
  unfold goesOn at hg
  cases hc : s.delayed c with
  | fetching =>
    simp only [hc] at hg
    split at hg <;> cases hg
    rename_i db hd
    simp [Server.backlog, hc, (h.linked.found_of_fetching hc hd).1]
  | sending current rest sent =>
    simp only [hc] at hg
    split at hg <;> cases hg
    simp [Server.backlog, hc]
  | _ => simp [hc] at hg

/-- A `send_delayed_messages` that has come to its end hands over nothing. -/
theorem pushOf_of_deletes {s : Server} {c : ConnId} {ids : List Nat}
    (h : s.deletes c = some ids) : s.pushOf (.resume (.delayed c)) = none := by
  unfold Server.deletes at h
  split at h
  · rename_i hg
    simp [pushOf_delayed, hg]
  · split at h
    · rename_i hown
      rw [Option.isNone_iff_eq_none] at hown
      simp [pushOf_delayed, hown]
    · cases h
  · rename_i hg
    simp [pushOf_delayed, hg]

/-- `send_delayed_messages` hands over the first row of its backlog, or none any more. -/
theorem Steady.backlog_continues {s s' : Server} {c : ConnId} (h : Steady s)
    (hstep : s.step (.resume (.delayed c)) = some s') :
    (∃ row d, s.backlog c = row :: s'.backlog c ∧
      s.pushOf (.resume (.delayed c)) = some ⟨.delayed c, d, row.data, some row.id⟩) ∨
      s.pushOf (.resume (.delayed c)) = none ∧ s'.backlog c = [] := by
  cases resume_continues h.sound.wellFormed h.linked hstep with
  | hand row rest ids d db hdb hg hd =>
    refine .inl ⟨row, d, ?_, by simp [pushOf_delayed, hg, hd]⟩
    rw [h.backlog_of_goesOn hg]
    simp [Server.backlog, setDelayed]
  | delete ids db _ hdb hids hdel =>
    obtain ⟨db', v, -, rfl⟩ := deleteSent_cases hdel
    exact .inr ⟨pushOf_of_deletes hids, by cases v <;> simp [Server.backlog, setDelayed]⟩
  | finish db hdb hc =>
    exact .inr ⟨by simp [pushOf_delayed, goesOn, hc], by simp [Server.backlog, setDelayed]⟩

/-- The rows that have been fetched and not handed over. -/
def fetched (s : Server) (c : ConnId) : List Row :=
  if s.delayed c = .fetching ∧ s.db.awaits (.delayed c) then [] else s.backlog c

theorem fetched_sublist (s : Server) (c : ConnId) : (s.fetched c).Sublist (s.backlog c) := by
  unfold fetched
  split
  · exact List.nil_sublist _
  · exact List.Sublist.refl _

/-- Rows are fetched when the `SELECT` is executed. -/
theorem Steady.fetched {s s' : Server} {a : Action} (h : Steady s) (hstep : s.step a = some s')
    {c : ConnId} (ha : a ≠ .resume (.delayed c)) : (s'.fetched c).Sublist (s.fetched c) ∨
      (s.Executes a c ∧ s.delayed c = .fetching ∧ s.db.awaits (.delayed c) ∧
        s'.fetched c = s.backlog c) ∨ s.answer c = none ∧ s'.fetched c = [] := by
  obtain ⟨hdel, hu⟩ | ⟨hc, hs⟩ := h.rests hstep ha id
  · have hback : s'.backlog c = s.backlog c := by simp only [Server.backlog, hdel, hu.found]
    by_cases hold : s.delayed c = .fetching ∧ s.db.awaits (.delayed c)
    · by_cases hnew : s'.db.awaits (.delayed c)
      · have hnil : s'.fetched c = [] := if_pos ⟨hdel.trans hold.1, hnew⟩
        exact .inl (hnil ▸ List.nil_sublist _)
      · refine .inr (.inl ⟨(hu.executed hold.2).resolve_left hnew, hold.1, hold.2, ?_⟩)
        exact (if_neg fun h => hnew h.2).trans hback
    · have heq : s.fetched c = s.backlog c := if_neg hold
      rw [heq, ← hback]
      exact .inl (s'.fetched_sublist c)
  · refine .inr (.inr ⟨hc, ?_⟩)
    obtain hs | hs := hs
    · exact if_pos hs
    · unfold Server.fetched
      simp [Server.backlog, hs]

theorem Steady.fetched_of_goesOn {s : Server} (h : Steady s) {c : ConnId} {rows : List Row}
    {ids : List Nat} (hg : s.goesOn c = some (rows, ids)) : s.fetched c = rows := by
  rw [← h.backlog_of_goesOn hg]
  refine if_neg fun hc => ?_
  simp only [goesOn, hc.1] at hg
  split at hg <;> cases hg
  rename_i db hd
  simp [(h.linked.found_of_fetching hc.1 hd).2] at hc

/-- Once it goes on, `send_delayed_messages` no longer fetches. -/
theorem Continues.not_fetching {s s' : Server} {c : ConnId} (h : Continues s c s') :
    s'.delayed c ≠ .fetching := by
  cases h with
  | hand row rest ids d db => simp [setDelayed]
  | delete ids db _ hdb hids hdel =>
    obtain ⟨db', v, -, rfl⟩ := deleteSent_cases hdel
    cases v <;> simp [setDelayed]
  | finish db => simp [setDelayed]

theorem Continues.fetched {s s' : Server} {c : ConnId} (h : Continues s c s') :
    s'.fetched c = s'.backlog c :=
  if_neg fun hc => h.not_fetching hc.1

/-- `send_delayed_messages` hands over the first row it has fetched, or none any more. -/
theorem Steady.fetched_continues {s s' : Server} {c : ConnId} (h : Steady s)
    (hstep : s.step (.resume (.delayed c)) = some s') :
    (∃ row d, s.fetched c = row :: s'.fetched c ∧
      s.pushOf (.resume (.delayed c)) = some ⟨.delayed c, d, row.data, some row.id⟩) ∨
      s.pushOf (.resume (.delayed c)) = none ∧ s'.fetched c = [] := by
  rw [(resume_continues h.sound.wellFormed h.linked hstep).fetched]
  obtain ⟨row, d, hb, hp⟩ | hp := h.backlog_continues hstep
  · refine .inl ⟨row, d, ?_, hp⟩
    obtain ⟨⟨rows, ids⟩, hg, -⟩ := Option.bind_eq_some_iff.mp ((s.pushOf_delayed c).symm.trans hp)
    rw [h.fetched_of_goesOn hg, ← hb, h.backlog_of_goesOn hg]
  · exact .inr hp

end MydakServer.Server
