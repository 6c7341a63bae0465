import MydakServer.Backlog
import MydakServer.Clients
import MydakServer.Performed

/-! Messages that are stored for a key without an entry: the next login of the key fetches
them. -/
namespace MydakServer.Server
open Database RequestQueue

/-- The log of the database leads from `tables` to those there are now, and
`send_delayed_messages` of a connection without an answer has sent nothing. -/
structure Logged (tables : Tables) (s : Server) : Prop where
  settled : Settled s
  recorded : Recorded tables s.db
  unsent : ∀ c, s.answer c = none → ∀ x ∈ s.db.sent, x.1 ≠ .delayed c

theorem init_logged (native : Proto.Endian) (succeeds : StartStep → Bool) (tables : Tables) :
    Logged tables (init native succeeds tables) where
  settled := init_settled native succeeds tables
  recorded := start_recorded succeeds tables
  unsent := by
    intro c _ x hx
    rw [init, start_sent] at hx
    cases hx

variable {tables : Tables}

theorem Logged.answered {s : Server} (h : Logged tables s) : Answered (fun _ => True) s.db :=
  h.settled.steady.linked.answered

theorem Logged.step {s s' : Server} {a : Action} (h : Logged tables s)
    (hstep : s.step a = some s') : Logged tables s' ∧ Goes (Runs s a s') s.db s'.db := by
  obtain ⟨hrec, hgoes⟩ :=
    (step_performs h.settled.steady hstep).recorded h.recorded h.answered
  refine ⟨⟨h.settled.step hstep, hrec, ?_⟩, hgoes⟩
  intro c hc x hx heq
  obtain ⟨new, hnew, hruns⟩ := hgoes.sent
  rw [hnew, List.mem_append] at hx
  have hnone : s.answer c = none := by
    by_contra hn
    obtain ⟨g, hg⟩ := Option.ne_none_iff_exists'.mp hn
    exact absurd (h.settled.steady.answer_step hg hstep) (by simp [hc])
  obtain hx | hx := hx
  · exact h.unsent c hnone x hx heq
  · obtain ha | ⟨-, hans⟩ := hruns x hx c heq
    · subst ha
      rw [heq] at hstep
      simp [Server.step, resume, h.settled.reached.begun c hnone] at hstep
    · exact hans hc

/-- A message for a key that has a row and no entry is stored under the id of the row. -/
theorem offlineRelay_sends {s s' : Server} {a : Action} {key : PublicKey} {message : Message}
    {id : Nat} (h : Steady s) (hoff : s.offlineRelay a = some (key, message))
    (hnone : s.clientIndices key = none) (hsel : s.selectSucceeds a)
    (hid : s.db.tables.idOf key = some id) (hstep : s.step a = some s') :
    s'.db.sent = s.db.sent ++ [(.store s.stores, .insertMessage id message)] ∧
      s'.db.connected := by
  obtain ⟨c, bytes, lookup, size, r, rfl, hc, hr, hi, rfl⟩ := offlineRelay_eq_some hoff
  simp only [selectSucceeds, Bool.and_eq_true] at hsel
  obtain ⟨hconn, rfl⟩ := hsel
  cases step_cases hstep with
  | message _ _ _ size' key' _ hc' hstep =>
    obtain ⟨rfl, rfl⟩ := StartState.readMessage.inj (hc.symm.trans hc')
    obtain ⟨r', s₁, hr', -, hs₁, rfl⟩ | ⟨e, d, generation, hk, -⟩ :=
      relay_cases (s := s.addFrame (s.frame c size key bytes)) h.sound.wellFormed hstep
    · obtain rfl : r = r' := Option.some.inj (hr.symm.trans hr')
      obtain ⟨-, rfl⟩ | ⟨e, slot, hk, -⟩ := getClientIndex_cases hr
      · obtain ⟨db, v, hd, rfl⟩ := addMessageToDb_cases hs₁
        have hindex : s.db.getDbIndex key true = id := by simp [getDbIndex_eq hconn, hid]
        simp only [hindex] at hd
        obtain ⟨hc, -⟩ | ⟨q, -, hq, rfl, -⟩ := request_cases hd
        · exact absurd hconn (by simpa [addFrame] using hc)
        · obtain ⟨-, rfl⟩ := h.linked.answered.coherent.asyncExecuteQueued hq
          exact ⟨by simp [setStart, addFrame, sent, queuedBy], hconn⟩
      · simp [hnone] at hk
    · simp [addFrame, hnone] at hk

/-- `send_delayed_messages` of the connection waits for the statement at this place, which asks
for the messages of the user. -/
structure Fetches (s : Server) (d : ConnId) (place : Nat) (id : Nat) : Prop where
  answer : s.answer d ≠ none
  sent : s.db.sent[place]? = some (.delayed d, .selectMessages id)
  place : s.delayed d = .fetching → s.db.place (.delayed d) = some place

theorem sendDelayedMessages_fetches {s s' : Server} {d : ConnId} (hq : s.db.queue.Coherent)
    (hc : s.db.connected) (ha : s.answer d ≠ none) (h : s.sendDelayedMessages d = some s') :
    s'.db.sent = s.db.sent ++ [(.delayed d, .selectMessages (s.connection d).indices.dbIndex)] ∧
      Fetches s' d s.db.sent.length (s.connection d).indices.dbIndex := by
  have hans := sendDelayedMessages_answer h
  obtain ⟨⟨db, v⟩, hd, h⟩ := Option.bind_eq_some_iff.mp h
  obtain ⟨hc', -⟩ | ⟨q, -, hr, rfl, rfl⟩ := request_cases hd
  · exact absurd hc (by simp [hc'])
  · obtain ⟨-, rfl⟩ := hq.asyncExecuteQueued hr
    cases h
    refine ⟨by simp [setDelayed, sent, queuedBy], hans ▸ ha, ?_, fun _ => ?_⟩
    · simp [setDelayed, sent, queuedBy]
    · simp [setDelayed, place, queuedBy, sent]

/-- On a connection that stands, `db.add_user` answers only after it has been suspended. -/
theorem grant_resumes {s : Server} {a : Action} {d : ConnId} {id : Nat} (hc : s.db.connected)
    (hg : .grant d id ∈ s.events a) : a = .resume (.start d) ∧ s.start d = .addClient ∧
      ∃ db, s.db.resume (.start d) = some (db, some (.userId id)) := by
  unfold events at hg
  split at hg
  · simp at hg
  · rename_i c key
    split at hg
    · simp at hg
    · split at hg
      · rename_i db id' hd
        obtain ⟨hc', -⟩ | ⟨q, -, -, -, hv⟩ := request_cases hd
        · exact absurd hc (by simp [hc'])
        · cases hv
      · simp at hg
  · split at hg <;> simp at hg
  · simp at hg
  · rename_i c
    split at hg
    · rename_i db id' hstart hd
      simp only [List.mem_singleton, Registry.Action.grant.injEq] at hg
      obtain ⟨rfl, rfl⟩ := hg
      exact ⟨rfl, hstart, db, hd⟩
    · simp at hg
  · simp at hg

/-- A login asks for the messages of its key's row. -/
theorem Logged.grant {s s' : Server} {a : Action} {d : ConnId} {id : Nat} (h : Logged tables s)
    (hc : s.db.connected) (hg : .grant d id ∈ s.events a) (hstep : s.step a = some s') :
    s.answer d = none ∧ s.db.tables.idOf (s'.connection d).publicKey = some id ∧
      s'.db.sent = s.db.sent ++ [(.delayed d, .selectMessages id)] ∧
      Fetches s' d s.db.sent.length id := by
  obtain ⟨rfl, hstart, db, hd⟩ := grant_resumes hc hg
  have hadded : { s with db }.userAdded d id = some s' := by
    simpa [Server.step, resume, hstart, hd] using hstep
  have hid := h.recorded.addUser_returns h.answered hc
    (h.settled.steady.linked.adding d (by simp) hstart) hd
  have hdb : db.sent = s.db.sent ∧ db.connected = s.db.connected := by
    obtain ⟨r, q, ht, ⟨rfl, -⟩ | ⟨key, -, -, hreq⟩⟩ := Database.resume_cases hd
    · obtain ⟨-, -, rfl⟩ := take_eq_some.mp ht
      exact ⟨rfl, rfl⟩
    · obtain ⟨hc', -⟩ | ⟨q', -, -, -, hv⟩ := request_cases hreq
      · exact absurd hc (by simpa using hc')
      · cases hv
  obtain ⟨g, v, -, hsend⟩ := userAdded_cases hadded
  obtain ⟨state, -, halike⟩ := sendDelayedMessages_alike hsend
  obtain ⟨channel, signal, socket, he, -⟩ :=
    ({ s with db }.emplaced d v { g with dbIndex := id }).socketCoroutine_eq d
  rw [he] at hsend halike
  have hkey : (s'.connection d).publicKey = (s.connection d).publicKey := by
    rw [halike.connection]
    simp [setDelayed, Server.answered, setStart, emplaced]
  obtain ⟨hsent, hfetches⟩ := sendDelayedMessages_fetches
    (h.answered.resume hd).1.coherent (hdb.2.trans hc) (by simp [Server.answered, setStart]) hsend
  refine ⟨h.settled.steady.sound.answer_none (.inr (.inr hstart)), by rw [hkey, hid], ?_, ?_⟩
  · simpa [Server.answered, setStart, emplaced, hdb.1] using hsent
  · simpa [Server.answered, setStart, emplaced, hdb.1] using hfetches

theorem Fetches.step {s s' : Server} {a : Action} {d : ConnId} {place id : Nat}
    (h : Logged tables s) (hf : Fetches s d place id) (hstep : s.step a = some s') :
    Fetches s' d place id := by
  obtain ⟨-, hgoes⟩ := h.step hstep
  obtain ⟨new, hnew, -⟩ := hgoes.sent
  obtain ⟨g, hg⟩ := Option.ne_none_iff_exists'.mp hf.answer
  refine ⟨by simp [h.settled.steady.answer_step hg hstep],
    List.getElem?_of_prefix ⟨new, hnew.symm⟩ hf.sent, fun hdel => ?_⟩
  by_cases ha : a = .resume (.delayed d)
  · subst ha
    exact absurd hdel (resume_continues h.settled.steady.sound.wellFormed
      h.settled.steady.linked hstep).not_fetching
  · obtain hsame | ⟨hnone, -⟩ := h.settled.steady.delayed hstep ha
    · rw [hgoes.place, hf.place (hsame ▸ hdel)]
      intro hruns
      obtain ha' | ⟨hnone, -⟩ := hruns d rfl
      · exact ha ha'
      · exact hf.answer hnone
    · exact absurd hnone hf.answer

/-- What the `SELECT` has found, when it has been executed, comes after all statements that were
sent before it. -/
theorem Fetches.executed {s : Server} {d : ConnId} {place id : Nat} (h : Logged tables s)
    (hf : Fetches s d place id) (hdel : s.delayed d = .fetching)
    (ha : s.db.awaits (.delayed d) = false) : ∃ before after r, s.db.executed =
        before ++ (.delayed d, .selectMessages id, r) :: after ∧
      before.map (fun x => (x.1, x.2.1)) <+: s.db.sent ∧ before.length = place ∧
      s.db.found (.delayed d) = r.messageRows := by
  have hplace := hf.place hdel
  have hq := h.answered.coherent
  cases hc : s.db.queue.caller (.delayed d) with
  | idle => simp [Database.place, hc] at hplace
  | suspended ref stmt => simp [awaits, hc] at ha
  | resumed ref stmt =>
    obtain rfl : ref = place := by simpa [Database.place, hc] using hplace
    obtain ⟨r, hr, -⟩ := hq.resumed _ _ _ hc
    have hexec := executed_place hq hc hr
    obtain rfl : stmt = .selectMessages id := by
      have hsent := List.getElem?_of_prefix (executed_initial hq) (x := (.delayed d, stmt))
        (n := ref) (by simp [hexec])
      simpa using hsent.symm.trans hf.sent
    obtain ⟨before, after, heq, hlen⟩ := List.exists_split_at hexec
    refine ⟨before, after, r, heq, ?_, hlen, by simp [found, hc, hr]⟩
    have hinit := executed_initial hq
    rw [heq, List.map_append] at hinit
    exact (List.prefix_append _ _).trans hinit

/-- A login of `d` that `s` goes before, and of which `t` is the outcome, asks for the messages of
the user after the `INSERT` that `s` sends, and finds its row, unless another coroutine has deleted
it by then. -/
structure Finds (s t : Server) (d : ConnId) (id : Nat) (message : Message) : Prop where
  sent : ∃ between, t.db.sent = s.db.sent ++ (.store s.stores, .insertMessage id message) ::
    between ++ [(.delayed d, .selectMessages id)]
  found : ∀ cs u, Lts.run step t cs = some u → u.delayed d = .fetching →
    u.db.awaits (.delayed d) = false → ∃ before between after rowId,
      u.db.executed = before ++ (.store s.stores, .insertMessage id message, .changed 1 rowId) ::
        between ++ (.delayed d, .selectMessages id, .messages (u.db.found (.delayed d))) :: after ∧
      (⟨rowId, id, message⟩ ∈ u.db.found (.delayed d) ∨ ∃ x ∈ between, x.1 ≠ .delayed d ∧
        ∃ ids, x.2.1 = .deleteMessages ids ∧ rowId ∈ ids)
  returned : ∀ cs u db v, Lts.run step t cs = some u → u.delayed d = .fetching →
    u.db.resume (.delayed d) = some (db, v) →
    u.db.awaits (.delayed d) = false ∧ v = some (.messages (u.db.found (.delayed d)))

/-- The statements that are executed before a `SELECT` are those that were sent before it. -/
theorem Fetches.finds {w : Server} {d : ConnId} {id n : Nat} {message : Message}
    {sent between : List (Task × Statement)} (h : Logged tables w)
    (hf : Fetches w d (sent ++ (.store n, .insertMessage id message) :: between).length id)
    (hsent : sent ++ (.store n, .insertMessage id message) :: between <+: w.db.sent)
    (hother : ∀ x ∈ between, x.1 ≠ .delayed d) (hdel : w.delayed d = .fetching)
    (ha : w.db.awaits (.delayed d) = false) : ∃ before log after rowId,
      w.db.executed = before ++ (.store n, .insertMessage id message, .changed 1 rowId) ::
        log ++ (.delayed d, .selectMessages id, .messages (w.db.found (.delayed d))) :: after ∧
      (⟨rowId, id, message⟩ ∈ w.db.found (.delayed d) ∨ ∃ x ∈ log, x.1 ≠ .delayed d ∧
        ∃ ids, x.2.1 = .deleteMessages ids ∧ rowId ∈ ids) := by
  obtain ⟨past, after, r, heq, hpast, hlen, hfound⟩ := hf.executed h hdel ha
  have hmap := (List.prefix_of_prefix_length_le hpast hsent (by simp [hlen])).eq_of_length
    (by simpa using hlen)
  obtain ⟨before, rest, rfl, -, hrest⟩ := List.map_eq_append_iff.mp hmap
  obtain ⟨⟨i, stmt, r₀⟩, log, rfl, hins, hlog⟩ := List.map_eq_cons_iff.mp hrest
  simp only [Prod.mk.injEq] at hins
  obtain ⟨rfl, rfl⟩ := hins
  have hreplays := h.recorded.replays
  rw [heq, List.append_assoc, Tables.replays_append] at hreplays
  obtain ⟨t, -, ht⟩ := hreplays
  have hsplit : (Task.store n, Statement.insertMessage id message, r₀) :: log ++
      (.delayed d, .selectMessages id, r) :: after =
      ((.store n, .insertMessage id message, r₀) :: log ++ [(.delayed d, .selectMessages id, r)]) ++
        after := by simp
  rw [hsplit, Tables.replays_append] at ht
  obtain ⟨u, hu, -⟩ := ht
  obtain ⟨rowId, rows, rfl, rfl, hrow⟩ := hu.found
  obtain rfl : w.db.found (.delayed d) = rows := hfound
  refine ⟨before, log, after, rowId, heq, hrow.imp_right fun ⟨x, hx, hids⟩ => ⟨x, hx, ?_, hids⟩⟩
  have hm := List.mem_map_of_mem (f := fun x : Task × Statement × Results => (x.1, x.2.1)) hx
  rw [hlog] at hm
  exact hother _ hm

/-- What a run does not take back: the statements that were sent and the users there were. -/
theorem Logged.run {s t : Server} {as : List Action} (h : Logged tables s)
    (hr : Lts.run Server.step s as = some t) : Logged tables t ∧ t.db.connected = s.db.connected ∧
      s.db.sent <+: t.db.sent ∧ s.db.tables.users ⊆ t.db.tables.users := by
  refine Lts.invariant_all (I := fun t => Logged tables t ∧ t.db.connected = s.db.connected ∧
    s.db.sent <+: t.db.sent ∧ s.db.tables.users ⊆ t.db.tables.users) ?_
    ⟨h, rfl, List.prefix_refl _, List.Subset.refl _⟩ hr
  rintro u a v ⟨h, hc, hp, husers⟩ hstep
  obtain ⟨h', hgoes⟩ := h.step hstep
  obtain ⟨new, hnew, -⟩ := hgoes.sent
  have hd := (h.settled.steady.linked.step h.settled.steady.sound (fun _ _ _ _ _ => trivial)
    hstep).2
  exact ⟨h', hgoes.connected.trans hc, hp.trans ⟨new, hnew.symm⟩,
    List.Subset.trans husers hd.evolves.users⟩

/-- A message that is stored for a key while the key has no entry is found by the next login of the
key, however many logins and senders there are. -/
theorem stored_messages_found (native : Proto.Endian) (succeeds : StartStep → Bool)
    (tables : Tables) (as bs : List Action) (a b : Action) (s s₁ t t₁ : Server) (key : PublicKey)
    (message : Message) (id x : Nat) (d : ConnId)
    (hr : Lts.run step (init native succeeds tables) as = some s)
    (hid : s.db.tables.idOf key = some id) (hnone : s.clientIndices key = none)
    (hoff : s.offlineRelay a = some (key, message)) (hsel : s.selectSucceeds a)
    (hstep : s.step a = some s₁) (hbs : Lts.run step s₁ bs = some t)
    (hg : .grant d x ∈ t.events b) (hb : t.step b = some t₁)
    (hkey : (t₁.connection d).publicKey = key) : x = id ∧ Finds s t₁ d id message := by
  have hs := ((init_logged native succeeds tables).run hr).1
  obtain ⟨hsent, hconn⟩ := offlineRelay_sends hs.settled.steady hoff hnone hsel hid hstep
  have husers : s.db.tables.users ⊆ s₁.db.tables.users :=
    (hs.run (Lts.run_single.mpr hstep)).2.2.2
  obtain ⟨ht, hconn', ⟨between, hpast⟩, husers'⟩ := (hs.step hstep).1.run hbs
  obtain ⟨hans, hidOf, hsent', hfetches⟩ := ht.grant (hconn'.trans hconn) hg hb
  obtain rfl : x = id := by
    have hmem := husers' (husers (Tables.idOf_eq_some.mp hid))
    rw [hkey, Tables.idOf_eq_some.mpr hmem] at hidOf
    exact (Option.some.inj hidOf).symm
  rw [hsent, List.append_assoc, List.singleton_append] at hpast
  have hlater : ∀ cs u, Lts.run step t₁ cs = some u →
      Logged tables u ∧ Fetches u d t.db.sent.length x ∧ t.db.sent <+: u.db.sent := by
    intro cs u hcs
    obtain ⟨hu, -, hp, -⟩ := (ht.step hb).1.run hcs
    refine ⟨hu, ?_, List.IsPrefix.trans ⟨_, hsent'.symm⟩ hp⟩
    exact (Lts.invariant_all (I := fun u => Logged tables u ∧ Fetches u d t.db.sent.length x)
      (fun u c v h hstep => ⟨(h.1.step hstep).1, h.2.step h.1 hstep⟩)
      ⟨(ht.step hb).1, hfetches⟩ hcs).2
  refine ⟨rfl, ⟨between, by rw [hsent', ← hpast]⟩, ?_, ?_⟩
  · intro cs u hcs hdel ha
    obtain ⟨hu, hf, hp⟩ := hlater cs u hcs
    rw [← hpast] at hf hp
    refine hf.finds hu hp (fun y hy => ht.unsent d hans y ?_) hdel ha
    rw [← hpast]
    simp [hy]
  · intro cs u db v hcs hdel hd
    obtain ⟨hu, -, -⟩ := hlater cs u hcs
    obtain ⟨rows, rfl⟩ := hu.settled.steady.linked.fetches hdel hd
    obtain ⟨rfl, ha⟩ := hu.settled.steady.linked.found_of_fetching hdel hd
    exact ⟨ha, rfl⟩

/-- Key 1 has left and logs in again; key 2 is connected, and about to write to it. -/
def loginSuspended : List Action :=
  [.loop, .accept, .keyRead 0 (.replicate 32 1), .loop, .execute, .resume (.start 0), .readFails 0,
    .accept, .keyRead 1 (.replicate 32 2), .loop, .execute, .loop, .execute, .resume (.start 1),
    .loop, .execute, .greetings 1 (greetingsTo 1), .accept, .keyRead 2 (.replicate 32 1)]

/-- Both statements of `add_user` are executed, and the message is stored between them. -/
def loginContinues : List Action :=
  [.loop, .execute, .resume (.start 2), .loop, .execute, .loop, .execute]

deriving instance DecidableEq for Registry.Action

theorem stored_messages_found_suspended : ∃ s t message,
    Lts.run step (init .little (fun _ => true) .empty) loginSuspended = some s ∧
      s.offlineRelay (.message 1 [7] true) = some (.replicate 32 1, message) ∧
      Lts.run step s (.message 1 [7] true :: loginContinues ++ [.resume (.start 2)]) = some t ∧
      Finds s t 2 1 message := by
  have hrun : (Lts.run step (init .little (fun _ => true) .empty) loginSuspended).any fun s =>
      s.db.tables.idOf (.replicate 32 1) = some 1 ∧ s.clientIndices (.replicate 32 1) = none ∧
      (s.offlineRelay (.message 1 [7] true)).any (fun p => p.1 = .replicate 32 1) ∧
      s.selectSucceeds (.message 1 [7] true) ∧
      (s.step (.message 1 [7] true)).any fun s₁ =>
        (Lts.run step s₁ loginContinues).any fun t => .grant 2 1 ∈ t.events (.resume (.start 2)) ∧
          (t.step (.resume (.start 2))).any fun t₁ =>
            (t₁.connection 2).publicKey = .replicate 32 1 := by
    decide +kernel
  obtain ⟨s, hs, h⟩ := (Option.any_eq_true _ _).mp hrun
  obtain ⟨hid, hnone, hoff, hsel, h⟩ := of_decide_eq_true h
  obtain ⟨⟨key, message⟩, hoff, hkey⟩ := (Option.any_eq_true _ _).mp hoff
  obtain rfl : key = .replicate 32 1 := of_decide_eq_true hkey
  obtain ⟨s₁, hstep, h⟩ := (Option.any_eq_true _ _).mp h
  obtain ⟨t, hbs, h⟩ := (Option.any_eq_true _ _).mp h
  obtain ⟨hg, h⟩ := of_decide_eq_true h
  obtain ⟨t₁, hb, hkey⟩ := (Option.any_eq_true _ _).mp h
  refine ⟨s, t₁, message, hs, hoff, ?_, (stored_messages_found .little (fun _ => true) .empty
    loginSuspended loginContinues (.message 1 [7] true) (.resume (.start 2)) s s₁ t t₁ _ message 1
    1 2 hs hid hnone hoff hsel hstep hbs hg hb (of_decide_eq_true hkey)).2⟩
  exact Lts.run_append.mpr ⟨t, Lts.run_cons.mpr ⟨s₁, hstep, hbs⟩, Lts.run_single.mpr hb⟩

end MydakServer.Server
