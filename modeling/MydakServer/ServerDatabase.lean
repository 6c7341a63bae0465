import MydakServer.Sessions

/-! The server over its database: which statements each of its functions sends, and that
every suspended coroutine waits for the statement its state says. -/
namespace MydakServer.Server
open Database

/-- Statements that all satisfy `P` have been queued, and nothing was executed. -/
def Adds (P : Statement → Prop) (d d' : Database Task) : Prop :=
  d'.tables = d.tables ∧ d'.connected = d.connected ∧ ∃ stmts, (∀ stmt ∈ stmts, P stmt) ∧
    d'.pending = d.pending ++ stmts ∧ d'.issued = d.issued ++ stmts

theorem Adds.refl (P : Statement → Prop) (d : Database Task) : Adds P d d :=
  ⟨rfl, rfl, [], by simp⟩

theorem Adds.trans {P : Statement → Prop} {d e f : Database Task} (h : Adds P d e)
    (h' : Adds P e f) : Adds P d f := by
  obtain ⟨ht, hc, xs, hx, hp, hi⟩ := h
  obtain ⟨ht', hc', ys, hy, hp', hi'⟩ := h'
  refine ⟨ht'.trans ht, hc'.trans hc, xs ++ ys, ?_, ?_, ?_⟩
  · intro stmt hs
    exact (List.mem_append.mp hs).elim (hx stmt) (hy stmt)
  · rw [hp', hp, List.append_assoc]
  · rw [hi', hi, List.append_assoc]

theorem Adds.mono {P Q : Statement → Prop} {d e : Database Task} (h : Adds P d e)
    (hPQ : ∀ stmt, P stmt → Q stmt) : Adds Q d e := by
  obtain ⟨ht, hc, xs, hx, hp, hi⟩ := h
  exact ⟨ht, hc, xs, fun stmt hs => hPQ stmt (hx stmt hs), hp, hi⟩

theorem Adds.of_keeps {P : Statement → Prop} {d e : Database Task} (h : Keeps d e) :
    Adds P d e :=
  ⟨h.tables, h.connected, [], by simp, by simp [h.pending], by simp [h.issued]⟩

theorem Adds.of_released {P : Statement → Prop} {d e : Database Task} {t : Task}
    (h : Released d t e) : Adds P d e :=
  ⟨h.tables, h.connected, [], by simp, by simp [h.pending], by simp [h.issued]⟩

theorem Adds.of_requested {P : Statement → Prop} {d e : Database Task} {t : Task}
    {stmt : Statement} (h : Requested d t stmt e) (hp : P stmt) : Adds P d e :=
  ⟨h.tables, h.connected, [stmt], by simpa using hp, h.pending, h.issued⟩

/-- Every coroutine but the one that is running waits for the statement its state says. -/
structure Linked (I : Tables → Prop) (running : Option Task) (s : Server) : Prop where
  answered : s.db.Answered I
  adding : ∀ c, some (.start c) ≠ running → s.start c = .addClient →
    s.db.asked (.start c) = some (.insertUser (s.connection c).publicKey) ∨
      s.db.asked (.start c) = some (.selectUser (s.connection c).publicKey)
  fetching : ∀ c, some (.delayed c) ≠ running → s.delayed c = .fetching →
    s.db.asked (.delayed c) = some (.selectMessages (s.connection c).indices.dbIndex)

variable {I : Tables → Prop}

theorem init_linked (native : Proto.Endian) (succeeds : StartStep → Bool) {tables : Tables}
    (hI : I tables) : Linked I none (init native succeeds tables) where
  answered := start_answered succeeds hI
  adding := by simp [init]
  fetching := by simp [init]

theorem Linked.weaken {s : Server} (h : Linked I none s) (t : Task) : Linked I (some t) s where
  answered := h.answered
  adding := fun c _ => h.adding c (by simp)
  fetching := fun c _ => h.fetching c (by simp)

/-- Only the running coroutine's part of the database and of the server changes. -/
theorem Linked.update {s s' : Server} {t : Task} (h : Linked I (some t) s)
    (ha : s'.db.Answered I) (hasked : ∀ u, u ≠ t → s'.db.asked u = s.db.asked u)
    (hstart : ∀ c, .start c ≠ t → s'.start c = s.start c)
    (hkey : ∀ c, .start c ≠ t → (s'.connection c).publicKey = (s.connection c).publicKey)
    (hdelayed : ∀ c, .delayed c ≠ t → s'.delayed c = s.delayed c)
    (hindices : ∀ c, .delayed c ≠ t → (s'.connection c).indices = (s.connection c).indices) :
    Linked I (some t) s' where
  answered := ha
  adding := by
    intro c hc hs
    have hct : .start c ≠ t := fun he => hc (congrArg some he)
    rw [hasked _ hct, hkey c hct]
    exact h.adding c hc (hstart c hct ▸ hs)
  fetching := by
    intro c hc hs
    have hct : .delayed c ≠ t := fun he => hc (congrArg some he)
    rw [hasked _ hct, hindices c hct]
    exact h.fetching c hc (hdelayed c hct ▸ hs)

/-- `send_delayed_messages` no longer fetches. -/
theorem Linked.doneFetching {s : Server} {c : ConnId} (h : Linked I (some (.delayed c)) s)
    (hs : s.delayed c ≠ .fetching) : Linked I none s where
  answered := h.answered
  adding := fun d _ => h.adding d (by simp)
  fetching := by
    intro d _ hd
    have hdc : d ≠ c := by
      intro heq
      subst heq
      exact hs hd
    exact h.fetching d (by simpa using hdc) hd

theorem asked_of_released {d e : Database Task} {t u : Task} (h : Released d t e) (hu : u ≠ t) :
    e.asked u = d.asked u := by
  rw [h.asked, Function.update_of_ne hu]

theorem asked_of_requested {d e : Database Task} {t u : Task} {stmt : Statement}
    (h : Requested d t stmt e) (hu : u ≠ t) : e.asked u = d.asked u := by
  rw [h.asked, Function.update_of_ne hu]

theorem delayed_setDelayed (s : Server) (c : ConnId) (state : DelayedState) (d : ConnId)
    (hd : Task.delayed d ≠ .delayed c) : (s.setDelayed c state).delayed d = s.delayed d := by
  have hdc : d ≠ c := fun hdc => hd (by rw [hdc])
  simp [setDelayed, Function.update_of_ne hdc]

theorem Linked.deleteSent {s s' : Server} {c : ConnId} {ids : List Nat}
    (h : Linked I (some (.delayed c)) s) (hs : s.deleteSent c ids = some s') :
    Linked I none s' ∧ Adds (· = .deleteMessages ids) s.db s'.db := by
  obtain ⟨db, v, hd, rfl⟩ := deleteSent_cases hs
  obtain ⟨ha, hv⟩ := h.answered.deleteDelayedMessages hd
  have hasked : ∀ u, u ≠ .delayed c → db.asked u = s.db.asked u := by
    obtain ⟨rfl, -⟩ | ⟨-, hr⟩ := hv
    · exact fun _ _ => rfl
    · exact fun u hu => asked_of_requested hr hu
  constructor
  · have h' : Linked I (some (.delayed c)) ({ s with db }.setDelayed c
        (if v.isSome then .finished else .deleting)) :=
      h.update ha hasked (fun _ _ => rfl) (fun _ _ => rfl) (delayed_setDelayed _ c _) fun _ _ => rfl
    apply h'.doneFetching
    simp only [setDelayed, Function.update_self]
    split <;> simp
  · obtain ⟨rfl, -⟩ | ⟨-, hr⟩ := hv
    · exact .refl _ _
    · exact .of_requested hr rfl

/-- A message goes into a queue. -/
theorem Linked.addMessageToQueue {s s' : Server} {i generation : Nat} {message : Message}
    {t : Task} {r : SendResult} {running : Option Task} (hw : s.registry.WellFormed)
    (h : Linked I running s) (hs : s.addMessageToQueue i generation message t = some (s', r)) :
    Linked I running s' ∧ s'.db = s.db ∧ s'.delayed = s.delayed := by
  obtain ⟨rfl, -⟩ | ⟨c, -, -, rfl⟩ := addMessageToQueue_cases hw hs
  · exact ⟨h, rfl, rfl⟩
  · obtain ⟨channel, signal, he⟩ := (s.push c message).asyncSend_eq c t
    rw [he]
    exact ⟨⟨h.answered, h.adding, h.fetching⟩, rfl, rfl⟩

theorem Linked.sendDelayed {s s' : Server} {c : ConnId} {rows : List Row} {ids : List Nat}
    (hw : s.registry.WellFormed) (h : Linked I (some (.delayed c)) s)
    (hs : s.sendDelayed c rows ids = some s') :
    Linked I none s' ∧ Adds (· = .deleteMessages ids) s.db s'.db := by
  obtain hs | ⟨row, rest, s₁, -, hq, rfl⟩ := sendDelayed_cases hw hs
  · exact h.deleteSent hs
  · obtain ⟨h₁, hdb, hdel⟩ := h.addMessageToQueue hw hq
    constructor
    · have h' : Linked I (some (.delayed c)) (s₁.setDelayed c (.sending row rest ids)) :=
        h₁.update h₁.answered (fun _ _ => rfl) (fun _ _ => rfl) (fun _ _ => rfl)
          (delayed_setDelayed _ c _) fun _ _ => rfl
      exact h'.doneFetching (by simp [setDelayed])
    · show Adds _ s.db s₁.db
      rw [hdb]
      exact .refl _ _

theorem Linked.sendDelayedMessages {s s' : Server} {c : ConnId} (hw : s.registry.WellFormed)
    (h : Linked I (some (.delayed c)) s) (hs : s.sendDelayedMessages c = some s') :
    Linked I none s' ∧ Adds (fun stmt =>
      stmt = .selectMessages (s.connection c).indices.dbIndex ∨ stmt = .deleteMessages [])
      s.db s'.db := by
  obtain ⟨⟨db, v⟩, hd, hs⟩ := Option.bind_eq_some_iff.mp hs
  obtain ⟨ha, ⟨-, rfl, rfl⟩ | ⟨-, rfl, hr⟩⟩ := h.answered.request hd ⟨_, rfl⟩
  · obtain ⟨h', hadds⟩ := h.sendDelayed (s := { s with db := s.db }) hw hs
    exact ⟨h', hadds.mono fun _ hp => .inr hp⟩
  · cases hs
    refine ⟨⟨ha, ?_, ?_⟩, .of_requested hr (.inl rfl)⟩
    · intro d _ hd
      have := h.adding d (by simp) hd
      rwa [← asked_of_requested hr (u := .start d) (by simp)] at this
    · intro d _ hd
      by_cases hdc : d = c
      · subst hdc
        simp [setDelayed, hr.asked]
      · have hdel : s.delayed d = .fetching := by
          simpa [setDelayed, Function.update_of_ne hdc] using hd
        have := h.fetching d (by simpa using hdc) hdel
        rwa [← asked_of_requested hr (u := .delayed d) (by simpa using hdc)] at this

theorem Linked.answer {s : Server} {c : ConnId} (h : Linked I (some (.start c)) s)
    (g : ClientIndex) : Linked I (some (.delayed c)) (s.answered c g) := by
  have hkey : ∀ d, ((s.answered c g).connection d).publicKey = (s.connection d).publicKey := by
    intro d
    by_cases hd : d = c
    · subst hd
      simp [Server.answered, setStart]
    · simp [Server.answered, setStart, Function.update_of_ne hd]
  constructor
  · exact h.answered
  · intro d _ hd
    have hdc : d ≠ c := by
      intro heq
      subst heq
      simp [Server.answered, setStart] at hd
    rw [hkey]
    exact h.adding d (by simpa using hdc)
      (by simpa [Server.answered, setStart, Function.update_of_ne hdc] using hd)
  · intro d hd hf
    have hdc : d ≠ c := fun hdc => hd (by rw [hdc])
    have hi : ((s.answered c g).connection d).indices = (s.connection d).indices := by
      simp [Server.answered, setStart, Function.update_of_ne hdc]
    rw [hi]
    exact h.fetching d (by simp) hf

theorem Linked.socketCoroutine {s : Server} {running : Option Task} (h : Linked I running s)
    (c : ConnId) : Linked I running (s.socketCoroutine c) ∧ (s.socketCoroutine c).db = s.db ∧
      (s.socketCoroutine c).connection = s.connection := by
  obtain ⟨channel, signal, state, he, -⟩ := s.socketCoroutine_eq c
  rw [he]
  exact ⟨⟨h.answered, h.adding, h.fetching⟩, rfl, rfl⟩

theorem Linked.writeMessages {s : Server} (h : Linked I none s) (c : ConnId)
    (data : ClientData) (q : ConnId) :
    Linked I none (s.writeMessages c data q) ∧ (s.writeMessages c data q).db = s.db := by
  unfold Server.writeMessages
  split
  · obtain ⟨hl, hdb, -⟩ := h.socketCoroutine c
    exact ⟨hl, hdb⟩
  · exact ⟨⟨h.answered, h.adding, h.fetching⟩, rfl⟩

theorem Linked.signalled {s : Server} (h : Linked I none s) (c : ConnId) :
    Linked I none (s.signalled c) ∧ (s.signalled c).db = s.db := by
  obtain ⟨hl, hdb, -⟩ := h.socketCoroutine c
  unfold Server.signalled
  split
  · split
    · exact h.writeMessages c _ _
    · exact ⟨hl, hdb⟩
  · exact ⟨hl, hdb⟩

theorem Linked.userAdded {s s' : Server} {c : ConnId} {id : Nat} (hw : s.registry.WellFormed)
    (h : Linked I (some (.start c)) s) (hs : s.userAdded c id = some s') :
    Linked I none s' ∧ Adds (fun stmt => (∃ userId, stmt = .selectMessages userId) ∨
      stmt = .deleteMessages []) s.db s'.db := by
  obtain ⟨g, v, hv, hs⟩ := userAdded_cases hs
  have he : Linked I (some (.start c)) (s.emplaced c v { g with dbIndex := id }) :=
    ⟨h.answered, h.adding, h.fetching⟩
  obtain ⟨hl, hdb, -⟩ := he.socketCoroutine c
  have hw' : (((s.emplaced c v { g with dbIndex := id }).socketCoroutine c).answered c
      { g with dbIndex := id }).registry.WellFormed := by
    rw [answered_registry, (socketCoroutine_same _ c).registry]
    exact (hw.emplace hv id).answer c
      fun _ => by simp [Registry.emplaced, (SlotVector.emplaceBack_cases hv).2.1]
  obtain ⟨h', hadds⟩ := (hl.answer { g with dbIndex := id }).sendDelayedMessages hw' hs
  refine ⟨h', ?_⟩
  show Adds _ (s.emplaced c v { g with dbIndex := id }).db s'.db
  rw [← hdb]
  exact hadds.mono fun stmt hp => hp.imp_left fun he => ⟨_, he⟩

theorem Linked.setKey {s : Server} {c : ConnId} (h : Linked I none s) (hc : s.start c = .readKey)
    (key : PublicKey) : Linked I none (s.setKey c key) := by
  have hconn : ∀ d, d ≠ c → (s.setKey c key).connection d = s.connection d := by
    intro d hd
    simp [Server.setKey, Function.update_of_ne hd]
  have hindices : ∀ d, ((s.setKey c key).connection d).indices = (s.connection d).indices := by
    intro d
    by_cases hd : d = c
    · subst hd
      simp [Server.setKey]
    · rw [hconn d hd]
  refine ⟨h.answered, ?_, ?_⟩
  · intro d hn hd
    have hdc : d ≠ c := by
      intro heq
      subst heq
      have hd' : s.start d = .addClient := hd
      simp [hc] at hd'
    rw [hconn d hdc]
    exact h.adding d hn hd
  · intro d hn hd
    rw [hindices]
    exact h.fetching d hn hd

theorem Linked.addClient {s s' : Server} {c : ConnId} {key : PublicKey}
    (hw : s.registry.WellFormed) (h : Linked I none s) (hc : s.start c = .readKey)
    (hs : (s.setKey c key).addClient c = some s') :
    Linked I none s' ∧ Adds (fun stmt => stmt = .insertUser key ∨
      (∃ userId, stmt = .selectMessages userId) ∨ stmt = .deleteMessages []) s.db s'.db := by
  have hk := h.setKey hc key
  have hkey : ((s.setKey c key).connection c).publicKey = key := by simp [Server.setKey]
  obtain ⟨-, hs⟩ | ⟨-, db, v, hd, hv⟩ := addClient_cases hs
  · have hw' : ((s.setKey c key).answered c .empty).registry.WellFormed := by
      rw [answered_registry]
      exact (hw.setKey c key).answer c fun hg => absurd rfl hg
    obtain ⟨h', hadds⟩ := ((hk.weaken (.start c)).answer .empty).sendDelayedMessages hw' hs
    exact ⟨h', hadds.mono fun stmt hp => .inr (hp.imp_left fun he => ⟨_, he⟩)⟩
  · rw [hkey] at hd
    obtain ⟨ha, ⟨-, rfl, rfl⟩ | ⟨-, rfl, hr⟩⟩ := hk.answered.request hd rfl
    · obtain ⟨id, -, hs⟩ | ⟨hv, -⟩ := hv
      · obtain ⟨h', hadds⟩ := Linked.userAdded (s := s.setKey c key) (hw.setKey c key)
          (hk.weaken (.start c)) hs
        exact ⟨h', hadds.mono fun stmt hp => .inr hp⟩
      · exact absurd rfl (hv _)
    · obtain ⟨id, hv, -⟩ | ⟨-, rfl⟩ := hv
      · cases hv
      · refine ⟨⟨ha, ?_, ?_⟩, .of_requested hr (.inl rfl)⟩
        · intro d _ hd
          by_cases hdc : d = c
          · subst hdc
            exact .inl (by simp [setStart, hr.asked, hkey])
          · have hstart : (s.setKey c key).start d = .addClient := by
              simpa [setStart, Function.update_of_ne hdc] using hd
            have := hk.adding d (by simp) hstart
            rwa [← asked_of_requested hr (u := .start d) (by simpa using hdc)] at this
        · intro d _ hd
          have := hk.fetching d (by simp) hd
          rwa [← asked_of_requested hr (u := .delayed d) (by simp)] at this

/-- A message is stored: the only place from which an `INSERT` of a message comes. -/
theorem Linked.addMessageToDb {s s' : Server} {index : Nat} {message : Message}
    (h : Linked I none s) (hs : s.addMessageToDb index message = some s') :
    Linked I none s' ∧ s'.start = s.start ∧
      ((s.db.connected = false ∧ s'.db = s.db) ∨
        (s.db.connected = true ∧ s'.db.pending = s.db.pending ++ [.insertMessage index message] ∧
          s'.db.issued = s.db.issued ++ [.insertMessage index message])) ∧
      Adds (· = .insertMessage index message) s.db s'.db := by
  obtain ⟨db, v, hd, rfl⟩ := addMessageToDb_cases hs
  obtain ⟨ha, ⟨hc, rfl, -⟩ | ⟨hc, -, hr⟩⟩ := h.answered.request hd ⟨_, _, rfl⟩
  · exact ⟨⟨ha, h.adding, h.fetching⟩, rfl, .inl ⟨hc, rfl⟩, .refl _ _⟩
  · refine ⟨⟨ha, ?_, ?_⟩, rfl, .inr ⟨hc, hr.pending, hr.issued⟩, .of_requested hr rfl⟩
    · intro d hn hd
      have := h.adding d hn hd
      rwa [← asked_of_requested hr (u := .start d) (by simp)] at this
    · intro d hn hd
      have := h.fetching d hn hd
      rwa [← asked_of_requested hr (u := .delayed d) (by simp)] at this

theorem Linked.setStart {s : Server} {c : ConnId} {state : StartState} (h : Linked I none s)
    (hs : state ≠ .addClient) : Linked I none (s.setStart c state) := by
  refine ⟨h.answered, ?_, h.fetching⟩
  intro d hn hd
  have hdc : d ≠ c := by
    intro heq
    subst heq
    exact hs (by simpa [Server.setStart] using hd)
  exact h.adding d hn (by simpa [Server.setStart, Function.update_of_ne hdc] using hd)

theorem Linked.relay {s s' : Server} {c : ConnId} {recipient : PublicKey} {message : Message}
    {lookup : Bool} {tries : Nat} (hw : s.registry.WellFormed) (h : Linked I none s)
    (hs : s.relay c recipient message lookup tries = some s') :
    Linked I none s' ∧ Adds (fun stmt => ∃ r, s.getClientIndex recipient lookup = some r ∧
      r.index = invalidIndex ∧ stmt = .insertMessage r.dbIndex message) s.db s'.db := by
  obtain ⟨r, s₁, hr, hi, hs₁, rfl⟩ | ⟨e, d, generation, -, -, rfl⟩ := relay_cases hw hs
  · obtain ⟨h', -, -, hadds⟩ := h.addMessageToDb hs₁
    exact ⟨h'.setStart (by simp), hadds.mono fun stmt hp => ⟨r, hr, hi, hp⟩⟩
  · obtain ⟨channel, signal, he⟩ := (s.push d message).asyncSend_eq d (.start c)
    rw [he]
    refine ⟨Linked.setStart ⟨h.answered, h.adding, h.fetching⟩ (by simp), .refl _ _⟩

/-- The statements that a step can send: an `INSERT` of a message only for a frame whose
recipient has no live slot, a `DELETE` only of the messages handed over so far. -/
def MaySend (s : Server) (a : Action) : Statement → Prop
  | .insertMessage userId data => ∃ c bytes lookup size recipient r,
    a = .message c bytes lookup ∧ s.start c = .readMessage size recipient ∧
      data = (s.frame c size recipient bytes).message ∧
      s.getClientIndex recipient lookup = some r ∧ r.index = invalidIndex ∧ userId = r.dbIndex
  | .deleteMessages ids => ids = [] ∨ ∃ c current rest sent,
    a = .resume (.delayed c) ∧ s.delayed c = .sending current rest sent ∧
      (s.signal (.delayed c) = .taken ∧ ids = sent ++ [current.id] ∨
        s.signal (.delayed c) = .aborted ∧ ids = sent)
  | _ => True

/-- Either one pending statement is executed, or statements are sent. -/
def DbStep (s : Server) (a : Action) (s' : Server) : Prop :=
  (a = .execute ∧ s'.db.connected = s.db.connected ∧ s'.db.issued = s.db.issued ∧
    ∃ stmt r, s.db.pending = stmt :: s'.db.pending ∧
      s.db.tables.exec stmt = some (r, s'.db.tables)) ∨
    Adds (s.MaySend a) s.db s'.db

theorem Linked.released {s : Server} {t : Task} {db : Database Task} (h : Linked I none s)
    (ha : db.Answered I) (hr : Released s.db t db) : Linked I (some t) { s with db } :=
  (h.weaken t).update ha (fun _ hu => asked_of_released hr hu) (fun _ _ => rfl) (fun _ _ => rfl)
    (fun _ _ => rfl) fun _ _ => rfl

/-- An operation goes on, whatever its coroutine does next. -/
theorem Linked.resumeDb {s : Server} {t : Task} {db : Database Task} {v : Option Value}
    (h : Linked I none s) (hd : s.db.resume t = some (db, v)) :
    Linked I (some t) { s with db } ∧ Adds (fun stmt => ∃ key, stmt = .selectUser key) s.db db := by
  obtain ⟨ha, stmt, -, ⟨value, -, -, hr⟩ | ⟨key, e, -, -, hr, hq⟩⟩ := h.answered.resume hd
  · exact ⟨h.released ha hr, .of_released hr⟩
  · refine ⟨(h.weaken t).update ha ?_ (fun _ _ => rfl) (fun _ _ => rfl) (fun _ _ => rfl)
      fun _ _ => rfl, (Adds.of_released hr).trans (.of_requested hq ⟨key, rfl⟩)⟩
    exact fun u hu => (asked_of_requested hq hu).trans (asked_of_released hr hu)

/-- `get_delayed_messages` returns messages. -/
theorem Linked.fetches {s : Server} (h : Linked I none s) {c : ConnId} {db : Database Task}
    {v : Option Value} (hc : s.delayed c = .fetching)
    (hd : s.db.resume (.delayed c) = some (db, v)) : ∃ rows, v = some (.messages rows) := by
  have hk := h.fetching c (by simp) hc
  obtain ⟨-, stmt, hasked, ⟨value, rfl, hans, -⟩ | ⟨key, e, rfl, -, -, -⟩⟩ := h.answered.resume hd
  · rw [hasked, Option.some.injEq] at hk
    subst hk
    cases value with
    | messages rows => exact ⟨rows, rfl⟩
    | userId id => exact hans.elim
    | unit => exact hans.elim
  · rw [hasked] at hk
    cases hk

theorem resume_linked {s s' : Server} {t : Task} (hw : s.registry.WellFormed)
    (h : Linked I none s) (hs : s.resume t = some s') :
    Linked I none s' ∧ Adds (s.MaySend (.resume t)) s.db s'.db := by
  cases resume_cases hs with
  | userAdded c db id _ hc hd hs =>
    obtain ⟨ha, stmt, -, ⟨value, -, -, hr⟩ | ⟨key, e, -, hv, -, -⟩⟩ := h.answered.resume hd
    · obtain ⟨h', hadds⟩ := Linked.userAdded (s := { s with db }) hw (h.released ha hr) hs
      refine ⟨h', (Adds.of_released hr).trans (hadds.mono ?_)⟩
      rintro stmt' (⟨userId, rfl⟩ | rfl)
      · trivial
      · exact .inl rfl
    · cases hv
  | addUser c db v hc hd hv =>
    obtain ⟨ha, stmt, hasked, ⟨value, rfl, hans, hr⟩ | ⟨key, e, rfl, rfl, hr, hq⟩⟩ :=
      h.answered.resume hd
    · exfalso
      obtain hk | hk := h.adding c (by simp) hc <;> rw [hasked, Option.some.injEq] at hk <;>
        subst hk <;> cases value with
        | userId id => exact hv id rfl
        | messages rows => exact hans
        | unit => exact hans
    · have hkey : key = (s.connection c).publicKey := by
        obtain hk | hk := h.adding c (by simp) hc
        · simpa [hasked] using hk
        · simp [hasked] at hk
      refine ⟨⟨ha, ?_, ?_⟩, (Adds.of_released hr).trans (.of_requested hq trivial)⟩
      · intro d _ hd
        by_cases hdc : d = c
        · subst hdc
          exact .inr (by simp [hq.asked, hkey])
        · have hold := h.adding d (by simp) hd
          rwa [← asked_of_released hr (u := .start d) (by simpa using hdc),
            ← asked_of_requested hq (u := .start d) (by simpa using hdc)] at hold
      · intro d _ hd
        have hold := h.fetching d (by simp) hd
        rwa [← asked_of_released hr (u := .delayed d) (by simp),
          ← asked_of_requested hq (u := .delayed d) (by simp)] at hold
  | relayed c => exact ⟨h.setStart (by simp), .refl _ _⟩
  | signalled c =>
    obtain ⟨hl, hdb⟩ := h.signalled c
    exact ⟨hl, hdb ▸ .refl _ _⟩
  | socketAborted c => exact ⟨⟨h.answered, h.adding, h.fetching⟩, .refl _ _⟩
  | fetched c db rows _ hc hd hs =>
    obtain ⟨ha, stmt, -, ⟨value, -, -, hr⟩ | ⟨key, e, -, hv, -, -⟩⟩ := h.answered.resume hd
    · obtain ⟨h', hadds⟩ := Linked.sendDelayed (s := { s with db }) hw (h.released ha hr) hs
      exact ⟨h', (Adds.of_released hr).trans (hadds.mono fun stmt hp => by
        subst hp
        exact .inl rfl)⟩
    · cases hv
  | fetching c db v hc hd hv =>
    obtain ⟨rows, rfl⟩ := h.fetches hc hd
    exact absurd rfl (hv rows)
  | taken c current rest sent _ hc hsig hs =>
    obtain ⟨h', hadds⟩ := (h.weaken (.delayed c)).sendDelayed hw hs
    exact ⟨h', hadds.mono fun stmt hp => by
      subst hp
      exact .inr ⟨c, current, rest, sent, rfl, hc, .inl ⟨hsig, rfl⟩⟩⟩
  | aborted c current rest sent _ hc hsig hs =>
    obtain ⟨h', hadds⟩ := (h.weaken (.delayed c)).deleteSent hs
    exact ⟨h', hadds.mono fun stmt hp => by
      subst hp
      exact .inr ⟨c, current, rest, sent, rfl, hc, .inr ⟨hsig, rfl⟩⟩⟩
  | deleted c db v hc hd =>
    obtain ⟨hl, hadds⟩ := h.resumeDb hd
    have h' : Linked I (some (.delayed c)) ({ s with db }.setDelayed c .finished) :=
      hl.update hl.answered (fun _ _ => rfl) (fun _ _ => rfl) (fun _ _ => rfl)
        (delayed_setDelayed _ c _) fun _ _ => rfl
    refine ⟨h'.doneFetching (by simp [setDelayed]), hadds.mono ?_⟩
    rintro stmt ⟨key, rfl⟩
    trivial
  | stored n db v hd =>
    obtain ⟨hl, hadds⟩ := h.resumeDb hd
    refine ⟨⟨hl.answered, fun c _ => hl.adding c (by simp), fun c _ => hl.fetching c (by simp)⟩,
      hadds.mono ?_⟩
    rintro stmt ⟨key, rfl⟩
    trivial

theorem Linked.keeps {s : Server} {db : Database Task} (h : Linked I none s)
    (ha : db.Answered I) (hasked : db.asked = s.db.asked) : Linked I none { s with db } := by
  refine ⟨ha, ?_, ?_⟩
  · intro c hn hc
    rw [hasked]
    exact h.adding c hn hc
  · intro c hn hc
    rw [hasked]
    exact h.fetching c hn hc

theorem Linked.endConnection {s : Server} (h : Linked I none s) (c : ConnId) :
    Linked I none (s.endConnection c) :=
  Linked.setStart (s := s.removeClient c _ _) ⟨h.answered, h.adding, h.fetching⟩ (by simp)

/-- Every step of the server keeps its coroutines linked to their statements, if what the
database executes keeps `I`. -/
theorem Linked.step {s s' : Server} {a : Action} (hs : Sound s) (h : Linked I none s)
    (hI : ∀ stmt r t, stmt ∈ s.db.pending → s.db.tables.exec stmt = some (r, t) → I t)
    (hstep : s.step a = some s') : Linked I none s' ∧ DbStep s a s' := by
  have hw := hs.wellFormed
  cases step_cases hstep with
  | accept =>
    have h' : Linked I none (s.setStart s.accepted .readKey) := h.setStart (by simp)
    exact ⟨⟨h'.answered, h'.adding, h'.fetching⟩, .inr (.refl _ _)⟩
  | keyFails c bytes hc => exact ⟨(h.setKey hc _).endConnection c, .inr (.refl _ _)⟩
  | keyRead c key _ hc hstep =>
    obtain ⟨h', hadds⟩ := h.addClient hw hc hstep
    refine ⟨h', .inr (hadds.mono ?_)⟩
    rintro stmt (rfl | ⟨userId, rfl⟩ | rfl)
    · trivial
    · trivial
    · exact .inl rfl
  | badGreetings c => exact ⟨h.endConnection c, .inr (.refl _ _)⟩
  | greetings c => exact ⟨h.setStart (by simp), .inr (.refl _ _)⟩
  | message c bytes lookup size recipient _ hc hstep =>
    obtain ⟨h', hadds⟩ := Linked.relay (s := s.addFrame (s.frame c size recipient bytes)) hw
      ⟨h.answered, h.adding, h.fetching⟩ hstep
    refine ⟨h', .inr (hadds.mono ?_)⟩
    rintro stmt ⟨r, hr, hi, rfl⟩
    exact ⟨c, bytes, lookup, size, recipient, r, rfl, hc, rfl, hr, hi, rfl⟩
  | readFails c => exact ⟨h.endConnection c, .inr (.refl _ _)⟩
  | written c socket q channel message front rest =>
    have h₁ : Linked I none (s.popped socket q message rest) :=
      ⟨h.answered, h.adding, h.fetching⟩
    obtain ⟨hl, hdb⟩ := h₁.writeMessages c ⟨some socket, some q, channel⟩ q
    exact ⟨hl, .inr (by rw [hdb]; exact .refl _ _)⟩
  | resume t _ _ =>
    obtain ⟨h', hadds⟩ := resume_linked hw h hstep
    exact ⟨h', .inr hadds⟩
  | loop db hd =>
    obtain ⟨ha, hk⟩ := h.answered.runLoop hd
    exact ⟨h.keeps ha hk.asked, .inr (.of_keeps hk)⟩
  | execute db hd =>
    obtain ⟨ha, hc, hasked, hi, hx⟩ := h.answered.execute hI hd
    exact ⟨h.keeps ha hasked, .inl ⟨rfl, hc, hi, hx⟩⟩
  | executeThrows db hd =>
    obtain ⟨ha, hk⟩ := h.answered.executeThrows hd
    exact ⟨h.keeps ha hk.asked, .inr (.of_keeps hk)⟩
  | _ => exact ⟨⟨h.answered, h.adding, h.fetching⟩, .inr (.refl _ _)⟩

end MydakServer.Server
