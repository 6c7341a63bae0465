import MydakServer.Asking
import MydakServer.Work

/-! Every step in which nothing arrives takes some work away, so the server comes to rest. -/
namespace MydakServer.Server
open Rendezvous Weights
variable {I : Tables → Prop}

/-- A peer connects, sends, or has closed its sending side. -/
def Action.input : Action → Bool
  | .accept | .keyFails _ _ | .keyRead _ _ | .greetings _ _ | .message _ _ _ | .readFails _ => true
  | _ => false

/-- Nothing can happen any more until something arrives. -/
def Resting (s : Server) : Prop := Lts.Stuck step (fun a => a.input = false) s

/-- What every run keeps of the coroutines, their signals and their statements. -/
structure Attentive (s : Server) : Prop where
  settled : Settled s
  heard : Heard s
  asking : Asking s

theorem init_attentive (native : Proto.Endian) (succeeds : StartStep → Bool) (tables : Tables) :
    Attentive (init native succeeds tables) :=
  ⟨init_settled native succeeds tables, init_heard native succeeds tables,
    init_asking native succeeds tables⟩

theorem Attentive.step {s s' : Server} {a : Action} (h : Attentive s)
    (hstep : s.step a = some s') : Attentive s' := by
  obtain ⟨t, hm, ha⟩ := step_move h.settled.steady.sound h.settled.steady.linked hstep
  exact ⟨h.settled.step hstep,
    (h.heard.move h.settled.steady.sound h.settled.steady.aside hm).alike ha,
    h.asking.step h.settled hstep⟩

theorem Adds.stored {P : Statement → Prop} {d e : Database Task} (h : Adds P d e)
    (hP : ∀ stmt, P stmt → stmt.inserted = none) : e.stored = d.stored := by
  obtain ⟨ht, -, stmts, hs, hp, -⟩ := h
  have hnil : stmts.filterMap Statement.inserted = [] :=
    List.filterMap_eq_nil_iff.mpr fun stmt hm => hP stmt (hs stmt hm)
  simp [Database.stored, ht, hp, hnil]

/-- Only a frame brings a message to be stored. -/
theorem Steady.stored_le {s s' : Server} {a : Action} (h : Steady s)
    (hstep : s.step a = some s') (ha : a.input = false) :
    s'.db.stored.length ≤ s.db.stored.length := by
  obtain ⟨-, -, -, stmt, r, hp, hx⟩ | hadds :=
    (h.linked.step h.sound (fun _ _ _ _ _ => trivial) hstep).2
  · have hle := (Tables.exec_stored hx).length_le
    simp only [Database.stored, hp, List.length_append, List.length_map] at hle ⊢
    cases hs : stmt.inserted <;> simp [hs] at hle ⊢ <;> omega
  · refine (congrArg List.length (hadds.stored fun stmt hstmt => ?_)).le
    cases stmt with
    | insertMessage userId data =>
      obtain ⟨c, bytes, lookup, size, recipient, r, rfl, -⟩ := hstmt
      cases ha
    | _ => rfl

/-- The other coroutines wait for what they waited for. -/
theorem deleteSent_asked {s s' : Server} {c : ConnId} {ids : List Nat} (h : s.db.Answered I)
    (hs : s.deleteSent c ids = some s') {u : Task} (hu : u ≠ .delayed c) :
    s'.db.asked u = s.db.asked u := by
  obtain ⟨db, v, hd, rfl⟩ := deleteSent_cases hs
  obtain ⟨-, ⟨rfl, -⟩ | ⟨-, hr⟩⟩ := h.deleteDelayedMessages hd
  · rfl
  · exact asked_of_requested hr hu

theorem sendDelayedMessages_asked {s s' : Server} {c : ConnId} (h : s.db.Answered I)
    (hs : s.sendDelayedMessages c = some s') {u : Task} (hu : u ≠ .delayed c) :
    s'.db.asked u = s.db.asked u := by
  obtain ⟨⟨db, v⟩, hd, hs⟩ := Option.bind_eq_some_iff.mp hs
  obtain ⟨-, ⟨-, rfl, rfl⟩ | ⟨-, rfl, hr⟩⟩ := h.request hd ⟨_, rfl⟩
  · exact deleteSent_asked h (show s.deleteSent c [] = some s' from hs) hu
  · cases hs
    exact asked_of_requested hr hu

theorem work_sendDelayedMessages {s s' : Server} {c : ConnId} (h : s.db.queue.Coherent)
    (hs : s.sendDelayedMessages c = some s') : s'.db.queue.work ≤ s.db.queue.work + 9 := by
  obtain ⟨⟨db, v⟩, hd, hs⟩ := Option.bind_eq_some_iff.mp hs
  have hle := Database.work_request h hd
  obtain ⟨-, rfl, rfl⟩ | ⟨q, -, -, -, rfl⟩ := Database.request_cases hd
  · obtain ⟨db, v, hdel, rfl⟩ := deleteSent_cases (show s.deleteSent c [] = some s' from hs)
    cases hdel
    exact Nat.le_add_right _ _
  · cases hs
    exact hle

theorem work_deleteSent {s s' : Server} {c : ConnId} {ids : List Nat} (h : s.db.queue.Coherent)
    (hs : s.deleteSent c ids = some s') :
    s'.db.queue.work + s'.delayedWork c ≤ s.db.queue.work + 10 := by
  obtain ⟨db, v, hd, rfl⟩ := deleteSent_cases hs
  have hle : db.queue.work ≤ s.db.queue.work + 9 := by
    obtain ⟨-, rfl, -⟩ | hreq := Database.deleteDelayedMessages_cases hd
    · exact Nat.le_add_right _ _
    · exact Database.work_request h hreq
  cases v <;> simp [delayedWork, stageWork, backlog, setDelayed] <;> omega

theorem sendDelayedMessages_stores {s s' : Server} {c : ConnId}
    (hs : s.sendDelayedMessages c = some s') : s'.stores = s.stores := by
  obtain ⟨⟨db, v⟩, hd, hs⟩ := Option.bind_eq_some_iff.mp hs
  obtain ⟨-, rfl, rfl⟩ | ⟨q, -, -, -, rfl⟩ := Database.request_cases hd
  · obtain ⟨db, v, hdel, rfl⟩ := deleteSent_cases (show s.deleteSent c [] = some s' from hs)
    rfl
  · cases hs
    rfl

theorem resume_asked {d e : Database Task} (h : d.Answered I) {t u : Task} {v : Option Value}
    (hd : d.resume t = some (e, v)) (hu : u ≠ t) : e.asked u = d.asked u := by
  obtain ⟨-, stmt, -, ⟨value, -, -, hr⟩ | ⟨key, d₁, -, -, hr, hq⟩⟩ := h.resume hd
  · exact asked_of_released hr hu
  · exact (asked_of_requested hq hu).trans (asked_of_released hr hu)

/-- Only `add_user` asks again when it has its results. -/
theorem work_resume_le {d e : Database Task} (h : d.Answered I) {t : Task} {v : Option Value}
    (hd : d.resume t = some (e, v)) (hu : ∀ key, d.asked t ≠ some (.insertUser key)) :
    e.queue.work ≤ d.queue.work := by
  have hle := Database.work_resume h.coherent hd
  obtain ⟨-, stmt, hasked, ⟨value, rfl, -⟩ | ⟨key, d₁, rfl, -⟩⟩ := h.resume hd
  · simpa using hle
  · exact absurd hasked (hu key)

theorem Attentive.reads {s : Server} (h : Attentive s) {c : ConnId} {db : Database Task}
    (hdb : s.Reads c db) : db.queue.Coherent ∧ db.queue.work ≤ s.db.queue.work ∧
      ∀ u, u ≠ .delayed c → db.asked u = s.db.asked u := by
  have hans := h.settled.steady.linked.answered
  obtain rfl | ⟨v, hd⟩ := hdb
  · exact ⟨hans.coherent, Nat.le_refl _, fun _ _ => rfl⟩
  · refine ⟨(hans.resume hd).1.coherent, work_resume_le hans hd fun key hkey => ?_,
      fun u hu => resume_asked hans hd hu⟩
    obtain ⟨-, id, hid⟩ | ⟨-, ids, hids⟩ := h.asking _ _ hkey
    · cases hid
    · cases hids

/-- Only the database has gone on. -/
theorem work_of_database {s : Server} {db : Database Task}
    (hst : db.stored.length ≤ s.db.stored.length)
    (ha : db.asked = s.db.asked) (hf : ∀ c, db.found (.delayed c) = s.db.found (.delayed c))
    (hlt : db.queue.work < s.db.queue.work) : { s with db }.work < s.work := by
  have hstart : total s.accepted (startWork { s with db }) ≤ total s.accepted s.startWork :=
    total_le fun c _ => startWork_le rfl (by simp only [ha]) hst
  have hdelayed : delayedWork { s with db } = s.delayedWork := by
    funext c
    simp only [delayedWork, backlog, hf]
  have hstore : storeWork { s with db } = s.storeWork := by
    funext n
    exact storeWork_of_eq (by simp only [ha])
  have htraffic : traffic { s with db } = s.traffic := rfl
  simp only [work, hdelayed, hstore, htraffic]
  omega

/-- Only sockets, signals and queues have changed. -/
theorem work_of_traffic {s s' : Server} (hdb : s'.db = s.db) (hsame : Same s s')
    (hdel : s'.delayed = s.delayed) (hst : s'.stores = s.stores)
    (hlt : total s.accepted s'.traffic < total s.accepted s.traffic) : s'.work < s.work := by
  have hstart : s'.startWork = s.startWork := by
    funext c
    simp only [startWork, hdb, hsame.start]
  have hdelayed : s'.delayedWork = s.delayedWork := by
    funext c
    simp only [delayedWork, backlog, hdel, hdb]
  have hstore : s'.storeWork = s.storeWork := by
    funext n
    simp only [storeWork, hdb]
  simp only [work, hdb, hsame.accepted, hst, hstart, hdelayed, hstore]
  omega

theorem stageWork_of_goesOn {s : Server} {c : ConnId} {p : List Row × List Nat}
    (hg : s.goesOn c = some p) : 11 ≤ stageWork (s.delayed c) := by
  unfold goesOn at hg
  cases hc : s.delayed c <;> simp [hc] at hg <;> simp [stageWork]

theorem stageWork_of_deletes {s : Server} {c : ConnId} {ids : List Nat}
    (hd : s.deletes c = some ids) : 11 ≤ stageWork (s.delayed c) := by
  unfold Server.deletes at hd
  split at hd
  · rename_i hg
    exact stageWork_of_goesOn hg
  · rename_i hg
    exact stageWork_of_goesOn hg
  · split at hd
    · rename_i hc _
      simp [hc, stageWork]
    · cases hd

/-- `send_delayed_messages` hands over a message, deletes, or returns. -/
theorem Attentive.work_continues {s s' : Server} {c : ConnId} (h : Attentive s)
    (hstep : s.step (.resume (.delayed c)) = some s') : s'.work < s.work := by
  have hq := h.settled.steady.linked.answered
  have hst := h.settled.steady.stored_le hstep rfl
  have hcont := resume_continues h.settled.steady.sound.wellFormed h.settled.steady.linked hstep
  have hlt : c < s.accepted := h.settled.accepted_of_delayed fun hunborn => by
    simp [Server.step, resume, hunborn] at hstep
  have hothers : ∀ d, d ≠ c → s'.delayedWork d = s.delayedWork d := fun d hd =>
    delayedWork_of_rests (x := True) (hcont.rests hq.coherent hd h.settled.steady.linked)
  have hdelayed := total_change (f := s.delayedWork) (g := s'.delayedWork) hlt hothers
  -- what the coroutines other than this one wait for, and how far they are
  have hrest : s'.start = s.start ∧ s'.accepted = s.accepted ∧ s'.stores = s.stores ∧
      ∀ u, u ≠ .delayed c → s'.db.asked u = s.db.asked u := by
    cases hcont with
    | hand row rest ids d db hdb =>
      obtain ⟨channel, signal, he⟩ := ({ s with db }.push d row.data).asyncSend_eq d (.delayed c)
      rw [he]
      exact ⟨rfl, rfl, rfl, (h.reads hdb).2.2⟩
    | delete ids db _ hdb hids hdel =>
      obtain ⟨-, -, hasked⟩ := h.reads hdb
      have hans : db.Answered (fun _ => True) := (hdb.adds h.settled.steady.linked).1.answered
      have hdel' := fun u hu => deleteSent_asked (s := { s with db }) hans hdel (u := u) hu
      obtain ⟨db', v, -, rfl⟩ := deleteSent_cases hdel
      exact ⟨rfl, rfl, rfl, fun u hu => (hdel' u hu).trans (hasked u hu)⟩
    | finish db hdb => exact ⟨rfl, rfl, rfl, (h.reads hdb).2.2⟩
  obtain ⟨hstart, hacc, hstores, hasked⟩ := hrest
  have hstarts : total s.accepted s'.startWork ≤ total s.accepted s.startWork :=
    total_le fun d _ => startWork_le (by rw [hstart]) (hasked _ (by simp)) hst
  have hstore : s'.storeWork = s.storeWork := by
    funext n
    exact storeWork_of_eq (hasked _ (by simp))
  have hold : s.delayedWork c = stageWork (s.delayed c) + 5 * (s.backlog c).length := rfl
  simp only [work, hacc, hstores, hstore]
  cases hcont with
  | hand row rest ids d db hdb hg hd =>
    have hslot := (clientAt_eq_some h.settled.steady.sound.wellFormed).mp hd
    have htraffic : total s.accepted _ ≤ total s.accepted s.traffic + 4 :=
      h.heard.traffic_push (h.settled.accepted_of_slot hslot) row.data (t := .delayed c) (by simp)
    have hback := congrArg List.length (h.settled.steady.backlog_of_goesOn hg)
    have hstage := stageWork_of_goesOn hg
    have hwork := (h.reads hdb).2.1
    have ha := ((alike_db s db).push d row.data).asyncSend d (.delayed c)
    have heq : traffic ((({ s with db }.push d row.data).asyncSend d (.delayed c)).setDelayed c
        (.sending row rest ids)) = ((s.push d row.data).asyncSend d (.delayed c)).traffic := by
      funext e
      exact traffic_of_eq (congrFun ha.socket e) (congrFun ha.signal (.socket e))
        (congrFun ha.signalChannel e) (congrFun ha.messages e)
    have hdb : ((({ s with db }.push d row.data).asyncSend d (.delayed c)).setDelayed c
        (.sending row rest ids)).db = db := asyncSend_db _ d _
    have hnew : delayedWork ((({ s with db }.push d row.data).asyncSend d (.delayed c)).setDelayed c
        (.sending row rest ids)) c = 11 + 5 * rest.length := by
      simp [delayedWork, stageWork, backlog, setDelayed]
    simp only [heq, hdb, List.length_cons] at *
    omega
  | delete ids db _ hdb hids hdel =>
    have hstage := stageWork_of_deletes hids
    obtain ⟨hcoherent, hwork, -⟩ := h.reads hdb
    have hle := work_deleteSent (s := { s with db }) hcoherent hdel
    have heq : s'.traffic = s.traffic := by
      obtain ⟨db', v, -, rfl⟩ := deleteSent_cases hdel
      rfl
    simp only [heq] at *
    omega
  | finish db hdb hc =>
    have hwork := (h.reads hdb).2.1
    have heq : traffic ({ s with db }.setDelayed c .finished) = s.traffic := rfl
    have hnew : delayedWork ({ s with db }.setDelayed c .finished) c = 0 := by
      simp [delayedWork, stageWork, backlog, setDelayed]
    have hqueue : ({ s with db }.setDelayed c .finished).db = db := rfl
    simp only [hc, stageWork, heq, hqueue] at *
    omega

/-- What `add_client` makes of the work when it grants a slot: one statement, and the first wait
of the socket coroutine. -/
structure Grants (s : Server) (c : ConnId) (s' : Server) : Prop where
  work : s'.db.queue.work ≤ s.db.queue.work + 9
  asked : ∀ u, u ≠ .delayed c → s'.db.asked u = s.db.asked u
  start : s'.start = Function.update s.start c .readGreetings
  accepted : s'.accepted = s.accepted
  stores : s'.stores = s.stores
  traffic : ∀ n, c < n → total n s'.traffic + s.socketWork c ≤ total n s.traffic + 2

theorem userAdded_grants {s s' : Server} {c : ConnId} {id : Nat} (hw : s.registry.WellFormed)
    (h : s.db.Answered I) (hsend : ∀ t ∈ (s.signalChannel c).senders, ∀ d, t ≠ .socket d)
    (hs : s.userAdded c id = some s') : Grants s c s' := by
  obtain ⟨-, -, -, -, hstart, hacc, -⟩ := userAdded_registry hw hs
  obtain ⟨g, v, -, hs⟩ := userAdded_cases hs
  obtain ⟨state, -, ha⟩ := sendDelayedMessages_alike hs
  have htraffic : s'.traffic =
      ((s.emplaced c v { g with dbIndex := id }).socketCoroutine c).traffic := by
    funext e
    exact traffic_of_eq (congrFun ha.socket e) (congrFun ha.signal (.socket e))
      (congrFun ha.signalChannel e) (congrFun ha.messages e)
  obtain ⟨channel, signal, socket, he, -⟩ :=
    (s.emplaced c v { g with dbIndex := id }).socketCoroutine_eq c
  refine ⟨?_, fun u hu => ?_, hstart, hacc, ?_, fun n hc => ?_⟩
  · rw [he] at hs
    have hle := work_sendDelayedMessages (by exact h.coherent) hs
    exact hle
  · rw [he] at hs
    have hkeep := sendDelayedMessages_asked (I := I) (by exact h) hs hu
    exact hkeep
  · rw [he] at hs
    have hkeep := sendDelayedMessages_stores hs
    exact hkeep
  · rw [htraffic]
    exact traffic_socketCoroutine (s := s.emplaced c v { g with dbIndex := id }) hsend hc

theorem Attentive.accepted {s : Server} (h : Attentive s) {c : ConnId} (hc : s.start c ≠ .unborn) :
    c < s.accepted := by
  by_contra hn
  exact hc (h.settled.steady.sound.numbered c (Nat.le_of_not_lt hn))

/-- `add_client` goes on when `db.add_user` has returned. -/
theorem Attentive.work_userAdded {s s' : Server} {c : ConnId} {db : Database Task} {id : Nat}
    (h : Attentive s) (hc : s.start c = .addClient)
    (hd : s.db.resume (.start c) = some (db, some (.userId id)))
    (hadd : { s with db }.userAdded c id = some s')
    (hst : s'.db.stored.length ≤ s.db.stored.length) : s'.work < s.work := by
  have hq := h.settled.steady.linked.answered
  have hnone : s.answer c = none := h.settled.steady.sound.answer_none (.inr (.inr hc))
  have hlt : c < s.accepted := h.accepted (by simp [hc])
  obtain ⟨hdb, -⟩ := hq.resume hd
  have hspawns := userAdded_spawns (x := True) hdb.coherent hadd
  have hgrants := userAdded_grants (s := { s with db }) h.settled.steady.sound.wellFormed hdb
    (h.heard.senders c) hadd
  have hresume : db.queue.work ≤ s.db.queue.work := Database.work_resume hq.coherent hd
  have hqueue : s'.db.queue.work ≤ db.queue.work + 9 := hgrants.work
  have hasked : ∀ u, u ≠ .start c → u ≠ .delayed c → s'.db.asked u = s.db.asked u :=
    fun u hu hu' => (hgrants.asked u hu').trans (resume_asked hq hd hu)
  have hstarts : total s.accepted s'.startWork + s.startWork c ≤
      total s.accepted s.startWork + s'.startWork c := by
    refine total_change_le hlt fun d hdc => startWork_le ?_ ?_ hst
    · rw [hgrants.start, Function.update_of_ne hdc]
    · exact hasked _ (by simpa using hdc) (by simp)
  have hold : 24 + 5 * s.db.stored.length ≤ s.startWork c := s.startWork_addClient hc
  have hidle : s'.startWork c = 0 := startWork_idle (by simp [hgrants.start])
  have hdelayed := total_change (f := s.delayedWork) (g := s'.delayedWork) hlt fun d hdc =>
    delayedWork_of_rests (x := True) (s := s) ⟨(hspawns.others d hdc).1,
      (Database.resume_undisturbed hq.coherent (by simp) hd).trans (hspawns.others d hdc).2⟩
  have hunborn : s.delayedWork c = 0 := by
    simp [delayedWork, stageWork, backlog, h.settled.reached.begun c hnone]
  have hnew : s'.delayedWork c ≤ 12 + 5 * s'.db.stored.length := by
    obtain ⟨hf, hawaits⟩ | hf := hspawns.own
    · have hle := (Database.found_stored hawaits).length_le
      simp only [List.length_map] at hle
      simp only [delayedWork, stageWork, backlog, hf]
      omega
    · simp [delayedWork, stageWork, backlog, hf]
  have htraffic : total s.accepted s'.traffic ≤ total s.accepted s.traffic + 2 :=
    (Nat.le_add_right _ _).trans (hgrants.traffic s.accepted hlt)
  have hstore : s'.storeWork = s.storeWork := by
    funext n
    exact storeWork_of_eq (hasked _ (by simp) (by simp))
  have hacc : s'.accepted = s.accepted := hgrants.accepted
  have hstores : s'.stores = s.stores := hgrants.stores
  simp only [work, hacc, hstores, hstore]
  omega

/-- `db.add_user` has found that the key has a row, and asks for it. -/
theorem Attentive.work_addUser {s : Server} {c : ConnId} {db : Database Task} {v : Option Value}
    (h : Attentive s) (hc : s.start c = .addClient) (hd : s.db.resume (.start c) = some (db, v))
    (hv : ∀ id, v ≠ some (.userId id)) (hst : db.stored.length ≤ s.db.stored.length) :
    { s with db }.work < s.work := by
  have hq := h.settled.steady.linked.answered
  have hqueue := Database.work_resume hq.coherent hd
  have hlt : c < s.accepted := h.accepted (by simp [hc])
  have hasked : ∀ u, u ≠ .start c → db.asked u = s.db.asked u := fun u hu => resume_asked hq hd hu
  have hinsert : ∃ key key', s.db.asked (.start c) = some (.insertUser key) ∧
      db.asked (.start c) = some (.selectUser key') ∧ v = none := by
    obtain ⟨-, stmt, hs, ⟨value, rfl, hans, -⟩ | ⟨key, e, rfl, rfl, -, hreq⟩⟩ := hq.resume hd
    · exfalso
      obtain ⟨-, ⟨key, rfl⟩ | ⟨key, rfl⟩⟩ := h.asking _ _ hs <;> cases value with
        | userId id => exact hv id rfl
        | messages rows => exact hans
        | unit => exact hans
    · exact ⟨key, key, hs, by simp [hreq.asked], rfl⟩
  obtain ⟨key, key', hold, hnew, rfl⟩ := hinsert
  have hstarts : total s.accepted (startWork { s with db }) + s.startWork c ≤
      total s.accepted s.startWork + startWork { s with db } c :=
    total_change_le hlt fun d hdc => startWork_le rfl (hasked _ (by simpa using hdc)) hst
  have hwork : s.startWork c = 34 + 5 * s.db.stored.length := by simp [startWork, hc, hold]
  have hwork' : startWork { s with db } c = 24 + 5 * db.stored.length := by
    simp [startWork, hc, hnew]
  have hdelayed : delayedWork { s with db } = s.delayedWork := by
    funext d
    exact delayedWork_of_rests (x := True)
      ⟨rfl, Database.resume_undisturbed hq.coherent (by simp) hd⟩
  have hstore : storeWork { s with db } = s.storeWork := by
    funext n
    exact storeWork_of_eq (hasked _ (by simp))
  have htraffic : traffic { s with db } = s.traffic := rfl
  simp only [Option.isSome_none, Bool.false_eq_true, if_false] at hqueue
  simp only [work, hdelayed, hstore, htraffic]
  omega

/-- `add_message_to_queue` has returned to its relay loop. -/
theorem Attentive.work_relayed {s : Server} {c : ConnId} (h : Attentive s)
    (hc : s.start c = .addMessageToQueue) : (s.setStart c .readGreetings).work < s.work := by
  have hstarts := total_change_le (f := s.startWork) (g := (s.setStart c .readGreetings).startWork)
    (h.accepted (c := c) (by simp [hc])) fun d hdc =>
      startWork_le (by simp [setStart, Function.update_of_ne hdc]) rfl (Nat.le_refl _)
  have hold : s.startWork c = 1 := by simp [startWork, hc]
  have hidle : (s.setStart c .readGreetings).startWork c = 0 := startWork_idle (by simp [setStart])
  have hrest : (s.setStart c .readGreetings).delayedWork = s.delayedWork ∧
      (s.setStart c .readGreetings).storeWork = s.storeWork ∧
      (s.setStart c .readGreetings).traffic = s.traffic := ⟨rfl, rfl, rfl⟩
  obtain ⟨hdelayed, hstore, htraffic⟩ := hrest
  simp only [work, hdelayed, hstore, htraffic]
  simp only [setStart] at *
  omega

/-- `add_message_to_db_internal` has its results. -/
theorem Attentive.work_stored {s : Server} {n : Nat} {db : Database Task} {v : Option Value}
    (h : Attentive s) (hd : s.db.resume (.store n) = some (db, v))
    (hst : db.stored.length ≤ s.db.stored.length) : { s with db }.work < s.work := by
  have hq := h.settled.steady.linked.answered
  have hasked : ∀ u, u ≠ .store n → db.asked u = s.db.asked u := fun u hu => resume_asked hq hd hu
  obtain ⟨-, stmt, hs, ⟨value, -, -, hr⟩ | ⟨key, e, rfl, -⟩⟩ := hq.resume hd
  · obtain ⟨hlt, userId, data, rfl⟩ := h.asking _ _ hs
    have hqueue := work_resume_le hq hd fun key hkey => by simp [hs] at hkey
    have hstarts : total s.accepted (startWork { s with db }) ≤ total s.accepted s.startWork :=
      total_le fun d _ => startWork_le rfl (hasked _ (by simp)) hst
    have hdelayed : delayedWork { s with db } = s.delayedWork := by
      funext d
      exact delayedWork_of_rests (x := True)
        ⟨rfl, Database.resume_undisturbed hq.coherent (by simp) hd⟩
    have hstore := total_change (f := s.storeWork) (g := storeWork { s with db }) hlt fun m hm =>
      storeWork_of_eq (hasked _ (by simpa using hm))
    have hold : s.storeWork n = 1 := by simp [storeWork, hs]
    have hnew : storeWork { s with db } n = 0 := by simp [storeWork, hr.asked]
    have htraffic : traffic { s with db } = s.traffic := rfl
    simp only [work, hdelayed, htraffic]
    omega
  · obtain ⟨-, userId, data, hk⟩ := h.asking _ _ hs
    cases hk

/-- A coroutine that goes on takes work away. -/
theorem Attentive.work_resume {s s' : Server} {t : Task} (h : Attentive s)
    (hstep : s.step (.resume t) = some s') : s'.work < s.work := by
  have hq := h.settled.steady.linked.answered
  have hst := h.settled.steady.stored_le hstep rfl
  cases resume_cases hstep with
  | userAdded c db id _ hc hd hadd => exact h.work_userAdded hc hd hadd hst
  | addUser c db v hc hd hv => exact h.work_addUser hc hd hv hst
  | relayed c hc => exact h.work_relayed hc
  | signalled c hc hsig =>
    refine work_of_traffic (h.settled.steady.linked.signalled c).2 (s.signalled_same c)
      (s.signalled_delayed c) (s.signalled_stores c) ?_
    exact h.settled.traffic_lt h.heard hstep ⟨c, by simp⟩
  | socketAborted c hc hsig =>
    refine work_of_traffic rfl ⟨rfl, rfl, rfl, rfl⟩ rfl rfl ?_
    exact h.settled.traffic_lt h.heard hstep ⟨c, by simp⟩
  | stored n db v hd => exact h.work_stored hd hst
  | _ => exact h.work_continues hstep

/-- Every step but those in which a connection is accepted, read from or closed by its peer takes
some work away. -/
theorem Attentive.work_lt {s s' : Server} {a : Action} (h : Attentive s) (ha : a.input = false)
    (hstep : s.step a = some s') : s'.work < s.work := by
  have hq := h.settled.steady.linked.answered
  have hst := h.settled.steady.stored_le hstep ha
  cases step_cases hstep with
  | written c socket q channel m front rest =>
    have hcases := (s.popped socket q m rest).writeMessages_cases c ⟨some socket, some q, channel⟩ q
    have hpopped : Same s (s.popped socket q m rest) := ⟨rfl, rfl, rfl, rfl⟩
    refine work_of_traffic ?_
      (hpopped.trans
        ((s.popped socket q m rest).writeMessages_same c ⟨some socket, some q, channel⟩ q))
      ((s.popped socket q m rest).writeMessages_stays c ⟨some socket, some q, channel⟩ q).delayed
      ((s.popped socket q m rest).writeMessages_stores c ⟨some socket, some q, channel⟩ q)
      (h.settled.traffic_lt h.heard hstep ⟨c, by simp⟩)
    obtain he | ⟨m', he⟩ := hcases
    · rw [he]
      exact socketCoroutine_db _ c
    · rw [he]
      rfl
  | writtenNone c | writeFails c | cancel c =>
    exact work_of_traffic rfl ⟨rfl, rfl, rfl, rfl⟩ rfl rfl
      (h.settled.traffic_lt h.heard hstep ⟨c, by simp⟩)
  | resume t => exact h.work_resume hstep
  | loop db hd =>
    obtain ⟨-, hk⟩ := hq.runLoop hd
    refine work_of_database hst hk.asked
      (fun c => (Database.runLoop_undisturbed (x := True) hq.coherent hd _).found) ?_
    obtain ⟨q, hq', rfl⟩ := Option.map_eq_some_iff.mp hd
    exact hq.coherent.work_runLoop hq'
  | execute db hd =>
    obtain ⟨-, -, hasked, -⟩ := hq.execute (fun _ _ _ _ _ => trivial) hd
    refine work_of_database hst hasked
      (fun c => (Database.execute_undisturbed hq.coherent hd _).found) ?_
    obtain ⟨ref, e, r, t, q, -, -, -, hc, rfl⟩ := Database.execute_eq_some hd
    exact hq.coherent.work_complete hc
  | executeThrows db hd =>
    obtain ⟨-, hk⟩ := hq.executeThrows hd
    refine work_of_database hst hk.asked
      (fun c => (Database.executeThrows_undisturbed (x := True) hd _).found) ?_
    obtain ⟨q, hq', rfl⟩ := Option.map_eq_some_iff.mp hd
    exact RequestQueue.work_throws hq'
  | _ => cases ha

theorem run_attentive {native : Proto.Endian} {succeeds : StartStep → Bool} {tables : Tables}
    {as : List Action} {s : Server} (hr : Lts.run step (init native succeeds tables) as = some s) :
    Attentive s :=
  Lts.invariant_all (fun _ _ _ h hstep => h.step hstep) (init_attentive native succeeds tables) hr

theorem Attentive.lowers {s t : Server} {a : Action} (h : Attentive s) (ha : a.input = false)
    (hstep : s.step a = some t) : Attentive t ∧ t.work < s.work :=
  ⟨h.step hstep, h.work_lt ha hstep⟩

theorem Attentive.exists_resting {s : Server} (h : Attentive s) : ∃ bs t,
    (∀ b ∈ bs, b.input = false) ∧ Lts.run Server.step s bs = some t ∧ Resting t :=
  Lts.exists_stuck (fun _ _ _ h ha hstep => Attentive.lowers h ha hstep) h

/-- Once nothing more arrives, the server takes at most as many steps as its work tells, whichever
coroutine goes on first, whichever writes and statements fail, and they can all be taken: there is
a state in which every coroutine waits for its peers or for another coroutine. -/
theorem comes_to_rest (native : Proto.Endian) (succeeds : StartStep → Bool) (tables : Tables)
    (as : List Action) (s : Server)
    (hr : Lts.run step (init native succeeds tables) as = some s) :
    (∀ bs t, (∀ b ∈ bs, b.input = false) → Lts.run step s bs = some t →
      bs.length + t.work ≤ s.work) ∧
    ∃ bs t, (∀ b ∈ bs, b.input = false) ∧ Lts.run step s bs = some t ∧ Resting t := by
  refine ⟨fun bs t hb hbs => ?_, (run_attentive hr).exists_resting⟩
  exact Lts.length_le_measure (fun _ _ _ h ha hstep => Attentive.lowers h ha hstep)
    (run_attentive hr) hb hbs

/-- Both messages of key 2 are written, and its second call returns. -/
theorem comes_to_rest_twice : ∃ s t, Lts.run step (init .little (fun _ => true) .empty)
    writesTwice = some s ∧
      Lts.run step s [.written 0, .written 0, .resume (.start 1)] = some t ∧
      3 + t.work ≤ s.work := by
  have hrun : (Lts.run step (init .little (fun _ => true) .empty) writesTwice).any fun s =>
      (Lts.run step s [.written 0, .written 0, .resume (.start 1)]).isSome := by
    decide +kernel
  obtain ⟨s, hs, h⟩ := (Option.any_eq_true _ _).mp hrun
  obtain ⟨t, ht⟩ := Option.isSome_iff_exists.mp h
  exact ⟨s, t, hs, ht, (comes_to_rest .little (fun _ => true) .empty writesTwice s hs).1 _ t
    (by decide) ht⟩

end MydakServer.Server
