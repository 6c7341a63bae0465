import MydakServer.Entries
import MydakServer.Executed
import MydakServer.Handovers

/-! A step of the server is a run of actions of its database: what holds of every run of the
database holds of the database of the server. -/
namespace MydakServer.Server
open Database

/-- From `d` to `d'` the database has performed actions, each of a coroutine in `P` or of none. -/
def Performs (P : Task → Prop) (d d' : Database Task) : Prop :=
  ∃ acts, Lts.run Database.act d acts = some d' ∧
    ∀ act ∈ acts, ∀ i, act.caller = some i → P i

variable {P Q : Task → Prop}

theorem Performs.refl (d : Database Task) : Performs P d d := ⟨[], rfl, by simp⟩

theorem Performs.single {d d' : Database Task} {b : Database.Action Task}
    (h : d.act b = some d') (hP : ∀ i, b.caller = some i → P i) : Performs P d d' :=
  ⟨[b], Lts.run_single.mpr h, by simpa using hP⟩

theorem Performs.trans {d e f : Database Task} (h : Performs P d e) (h' : Performs P e f) :
    Performs P d f := by
  obtain ⟨xs, hx, hxP⟩ := h
  obtain ⟨ys, hy, hyP⟩ := h'
  refine ⟨xs ++ ys, Lts.run_append.mpr ⟨e, hx, hy⟩, fun act ha => ?_⟩
  exact (List.mem_append.mp ha).elim (hxP act) (hyP act)

theorem Performs.mono {d d' : Database Task} (h : Performs P d d') (hPQ : ∀ i, P i → Q i) :
    Performs Q d d' := by
  obtain ⟨xs, hx, hxP⟩ := h
  exact ⟨xs, hx, fun act ha i hi => hPQ i (hxP act ha i hi)⟩

/-- The log of the database goes on. -/
theorem Performs.recorded {t : Tables} {d d' : Database Task} (h : Performs P d d')
    (hr : Recorded t d) (ha : Answered (fun _ => True) d) : Recorded t d' ∧ Goes P d d' := by
  obtain ⟨acts, hrun, hP⟩ := h
  obtain ⟨hrec, hgoes⟩ := hr.run ha hrun
  exact ⟨hrec, hgoes.mono fun i ⟨act, hm, hi⟩ => hP act hm i hi⟩

theorem deleteSent_performs {s s' : Server} {c : ConnId} {ids : List Nat}
    (h : s.deleteSent c ids = some s') : Performs (· = .delayed c) s.db s'.db := by
  obtain ⟨db, v, hd, rfl⟩ := deleteSent_cases h
  exact .single (b := .deleteDelayedMessages (.delayed c) ids) (Option.map_eq_some_iff.mpr
    ⟨_, hd, rfl⟩) fun i hi => (Option.some.inj hi).symm

theorem sendDelayedMessages_performs {s s' : Server} {c : ConnId}
    (h : s.sendDelayedMessages c = some s') : Performs (· = .delayed c) s.db s'.db := by
  obtain ⟨⟨db, v⟩, hd, h⟩ := Option.bind_eq_some_iff.mp h
  have hget : Performs (· = .delayed c) s.db db :=
    .single (b := .getDelayedMessages (.delayed c) (s.connection c).indices.dbIndex)
      (Option.map_eq_some_iff.mpr ⟨_, hd, rfl⟩) fun i hi => (Option.some.inj hi).symm
  obtain ⟨-, rfl, rfl⟩ | ⟨q, -, -, -, rfl⟩ := request_cases hd
  · exact deleteSent_performs (s := s) (show s.deleteSent c [] = some s' from h)
  · cases h
    exact hget

theorem userAdded_performs {s s' : Server} {c : ConnId} {id : Nat}
    (h : s.userAdded c id = some s') : Performs (· = .delayed c) s.db s'.db := by
  obtain ⟨g, v, -, h⟩ := userAdded_cases h
  obtain ⟨channel, signal, state, he, -⟩ :=
    (s.emplaced c v { g with dbIndex := id }).socketCoroutine_eq c
  have hp := sendDelayedMessages_performs h
  rw [he] at hp
  exact hp

theorem sendDelayedMessages_answer {s s' : Server} {c : ConnId}
    (h : s.sendDelayedMessages c = some s') : s'.answer = s.answer := by
  obtain ⟨state, -, ha⟩ := sendDelayedMessages_alike h
  exact ha.answer

theorem userAdded_answer {s s' : Server} {c : ConnId} {id : Nat}
    (h : s.userAdded c id = some s') : s'.answer c ≠ none := by
  obtain ⟨g, v, -, h⟩ := userAdded_cases h
  rw [sendDelayedMessages_answer h]
  simp [answered, setStart]

/-- `send_delayed_messages` of a connection is the task only when it goes on, or when it is
spawned. -/
def Runs (s : Server) (a : Action) (s' : Server) (i : Task) : Prop :=
  ∀ c, i = .delayed c → a = .resume i ∨ s.answer c = none ∧ s'.answer c ≠ none

theorem addClient_performs {s s' : Server} {a : Action} {c : ConnId} (hc : s.answer c = none)
    (h : s.addClient c = some s') : Performs (Runs s a s') s.db s'.db := by
  have hrun : s'.answer c ≠ none → ∀ i, i = .delayed c → Runs s a s' i := by
    rintro ha i rfl d hd
    cases hd
    exact .inr ⟨hc, ha⟩
  obtain ⟨-, h⟩ | ⟨-, db, v, hd, hv⟩ := addClient_cases h
  · refine (sendDelayedMessages_performs h).mono (hrun ?_)
    rw [sendDelayedMessages_answer h]
    simp [answered, setStart]
  · have hadd : Performs (Runs s a s') s.db db :=
      .single (b := .addUser (.start c) (s.connection c).publicKey)
        (Option.map_eq_some_iff.mpr ⟨_, hd, rfl⟩) fun i hi d hd => by
          cases hi
          cases hd
    obtain ⟨id, -, h⟩ | ⟨-, rfl⟩ := hv
    · exact hadd.trans ((userAdded_performs h).mono (hrun (userAdded_answer h)))
    · exact hadd

theorem Continues.performs {s s' : Server} {c : ConnId} (h : Continues s c s') :
    Performs (· = .delayed c) s.db s'.db := by
  have hreads : ∀ db, s.Reads c db → Performs (· = .delayed c) s.db db := by
    rintro db (rfl | ⟨v, hd⟩)
    · exact .refl _
    · exact .single (b := .resume (.delayed c)) (Option.map_eq_some_iff.mpr ⟨_, hd, rfl⟩)
        fun i hi => (Option.some.inj hi).symm
  cases h with
  | hand row rest ids d db hdb =>
    obtain ⟨channel, signal, he⟩ := ({ s with db }.push d row.data).asyncSend_eq d (.delayed c)
    rw [he]
    exact hreads db hdb
  | delete ids db _ hdb hids hdel =>
    exact (hreads db hdb).trans (deleteSent_performs (s := { s with db }) hdel)
  | finish db hdb => exact hreads db hdb

theorem resume_performs {s s' : Server} {t : Task} (h : Steady s) (hs : s.resume t = some s') :
    Performs (Runs s (.resume t) s') s.db s'.db := by
  have hown : ∀ {d : Database Task} {v}, s.db.resume t = some (d, v) →
      Performs (Runs s (.resume t) s') s.db d := by
    intro d v hd
    refine .single (b := .resume t) (Option.map_eq_some_iff.mpr ⟨_, hd, rfl⟩) ?_
    rintro i hi c rfl
    cases hi
    exact .inl rfl
  have hdelayed : ∀ c, t = .delayed c → Performs (Runs s (.resume t) s') s.db s'.db := by
    rintro c rfl
    refine (resume_continues h.sound.wellFormed h.linked hs).performs.mono ?_
    rintro i rfl d hd
    exact .inl rfl
  cases resume_cases hs with
  | userAdded c db id _ hc hd hadd =>
    refine (hown hd).trans ((userAdded_performs hadd).mono ?_)
    rintro i rfl d hd
    cases hd
    exact .inr ⟨h.sound.answer_none (.inr (.inr hc)), userAdded_answer hadd⟩
  | addUser c db v hc hd => exact hown hd
  | relayed c => exact .refl _
  | signalled c =>
    rw [(h.linked.signalled c).2]
    exact .refl _
  | socketAborted c => exact .refl _
  | stored n db v hd => exact hown hd
  | fetched c | fetching c | taken c | aborted c | deleted c => exact hdelayed c rfl

/-- The database of the server does what its coroutines ask of it, and nothing else. -/
theorem step_performs {s s' : Server} {a : Action} (h : Steady s) (hstep : s.step a = some s') :
    Performs (Runs s a s') s.db s'.db := by
  cases step_cases hstep with
  | keyRead c key _ hc hstep =>
    exact addClient_performs (s := s.setKey c key) (h.sound.answer_none (.inr (.inl hc))) hstep
  | message c bytes lookup size recipient _ hc hstep =>
    obtain ⟨r, s₁, -, -, hs₁, rfl⟩ | ⟨e, d, generation, -, -, rfl⟩ :=
      relay_cases (s := s.addFrame (s.frame c size recipient bytes)) h.sound.wellFormed hstep
    · obtain ⟨db, v, hd, rfl⟩ := addMessageToDb_cases hs₁
      refine .single (b := .addMessage (.store s.stores) r.dbIndex _)
        (Option.map_eq_some_iff.mpr ⟨_, hd, rfl⟩) ?_
      rintro i hi d rfl
      cases hi
    · obtain ⟨channel, signal, he⟩ := ((s.addFrame (s.frame c size recipient bytes)).push d
        (s.frame c size recipient bytes).message).asyncSend_eq d (.start c)
      rw [he]
      exact .refl _
  | written c socket q channel message front rest =>
    obtain ⟨-, hdb⟩ := Linked.writeMessages (s := s.popped socket q message rest)
      ⟨h.linked.answered, h.linked.adding, h.linked.fetching⟩ c ⟨some socket, some q, channel⟩ q
    rw [hdb]
    exact .refl _
  | resume t _ _ => exact resume_performs h hstep
  | loop db hd => exact .single (b := .loop) hd (by simp [Database.Action.caller])
  | execute db hd => exact .single (b := .execute) hd (by simp [Database.Action.caller])
  | executeThrows db hd =>
    exact .single (b := .executeThrows) hd (by simp [Database.Action.caller])
  | _ => exact .refl _

end MydakServer.Server
