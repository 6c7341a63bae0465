import MydakServer.Delivery
import MydakServer.Mailboxes
import MydakServer.Outage
import MydakServer.UserIds

/-! What a session has got from the mailbox of its key when the server is at rest. -/
namespace MydakServer.Server
open Database

variable {tables : Tables} {pushed : List Push} {s s' : Server} {a : Action} {c : ConnId}

/-- `add_message_to_queue` finds a session in its slot. -/
theorem Settled.ownClient (h : Settled s) (hc : s.registered c) : s.ownClient c = some c := by
  obtain ⟨i, generation, hi⟩ := registered_iff.mp hc
  obtain ⟨g, hg, -, rfl, rfl⟩ := h.granted hi
  have hindices : (s.connection c).indices = (s.answer c).getD {} :=
    h.steady.sound.wellFormed.indices c
  rw [Server.ownClient, hindices, hg]
  exact (clientAt_eq_some h.steady.sound.wellFormed).mpr hi

/-- A connection that comes into its slot in this step has just been granted it. -/
theorem Settled.grant_of_registered (h : Settled s) (hstep : s.step a = some s')
    (hnone : s.answer c = none) (hc : s'.registered c) :
    ∃ id, .grant c id ∈ s.events a ∧ (s'.connection c).indices.dbIndex = id := by
  have h' := h.step hstep
  obtain ⟨i, generation, hi⟩ := registered_iff.mp hc
  obtain ⟨g, hg, hne, -⟩ := h'.granted hi
  have hindices : (s'.connection c).indices = (s'.answer c).getD {} :=
    h'.steady.sound.wellFormed.indices c
  obtain ⟨t, hm, ha⟩ := step_move h.steady.sound h.steady.linked hstep
  obtain hold | ⟨hempty, -⟩ | ⟨id, hev, hid⟩ := hm.answered (ha.answer ▸ hg)
  · simp [hnone] at hold
  · exact absurd hempty hne
  · exact ⟨id, hev, by rw [hindices, hg, ← hid]; rfl⟩

/-- A login on a connection that stands waits for its messages. -/
theorem fetching_of_grant (hc : s.db.connected) {id : Nat}
    (hg : .grant c id ∈ s.events a) (hstep : s.step a = some s') : s'.delayed c = .fetching := by
  obtain ⟨rfl, hstart, db, hd⟩ := grant_resumes hc hg
  have hadded : { s with db }.userAdded c id = some s' := by
    simpa [Server.step, resume, hstart, hd] using hstep
  have hconn : db.connected := by
    obtain ⟨r, q, -, ⟨rfl, -⟩ | ⟨key, -, -, hreq⟩⟩ := Database.resume_cases hd
    · exact hc
    · obtain ⟨hno, -⟩ | ⟨q', -, -, -, hv⟩ := request_cases hreq
      · exact absurd hc (by simpa using hno)
      · cases hv
  obtain ⟨g, v, -, hsend⟩ := userAdded_cases hadded
  obtain ⟨channel, signal, socket, he, -⟩ :=
    ({ s with db }.emplaced c v { g with dbIndex := id }).socketCoroutine_eq c
  rw [he] at hsend
  obtain ⟨⟨db', v'⟩, hget, hsend⟩ := Option.bind_eq_some_iff.mp hsend
  obtain ⟨hno, -⟩ | ⟨q, -, -, -, rfl⟩ := request_cases hget
  · exact absurd hconn (by simpa [Server.answered, setStart, emplaced] using hno)
  · cases hsend
    simp [setDelayed]

/-- The rows of its user that `send_delayed_messages` has found, as far as it has come, are in the
queue of its login, and are deleted in the end. -/
def HandsAll (pushed : List Push) (s : Server) (c : ConnId) : DelayedState → Prop
  | .unborn => s.answer c = none
  | .fetching => True
  | .sending current rest sent => ∃ done,
    s.Found c (s.connection c).indices.dbIndex (done ++ current :: rest) ∧
      done.map Row.id = sent ∧
      ((done ++ [current]).map Row.data).Sublist (pushedTo pushed c)
  | .deleting | .finished => ∃ rows, s.Found c (s.connection c).indices.dbIndex rows ∧
    (rows.map Row.data).Sublist (pushedTo pushed c) ∧
    (rows ≠ [] → .deleteMessages (rows.map Row.id) ∈ s.db.issued)

/-- What holds of a connection until it leaves its slot. -/
structure Tends (pushed : List Push) (s : Server) (c : ConnId) : Prop where
  own : ∀ p ∈ pushed, p.caller = .delayed c → p.login = c
  signal : s.signal (.delayed c) ≠ .aborted
  account : s.answer c ≠ none →
    s.db.tables.idOf (s.connection c).publicKey = some (s.connection c).indices.dbIndex
  hands : HandsAll pushed s c (s.delayed c)

structure Tended (tables : Tables) (pushed : List Push) (s : Server) : Prop where
  mailed : Mailed tables s
  accounted : Accounted pushed s
  connected : s.db.connected
  tends : ∀ c, s.answer c = none ∨ s.registered c → Tends pushed s c

theorem HandsAll.grows {state : DelayedState} (h : HandsAll pushed s c state)
    (hanswer : s.answer c ≠ none) (hconn : s'.connection c = s.connection c)
    (hexecuted : s.db.executed <+: s'.db.executed) (hissued : s.db.issued ⊆ s'.db.issued)
    (more : List Push) : HandsAll (pushed ++ more) s' c state := by
  have hpushed : ∀ {ms : List Message}, ms.Sublist (pushedTo pushed c) →
      ms.Sublist (pushedTo (pushed ++ more) c) := by
    intro ms hms
    rw [pushedTo_append]
    exact hms.trans (List.sublist_append_left _ _)
  cases state with
  | unborn => exact absurd h hanswer
  | fetching => trivial
  | sending current rest sent =>
    obtain ⟨done, hfound, hids, hdata⟩ := h
    exact ⟨done, hconn ▸ hfound.mono hexecuted, hids, hpushed hdata⟩
  | deleting | finished =>
    obtain ⟨rows, hfound, hdata, hdel⟩ := h
    exact ⟨rows, hconn ▸ hfound.mono hexecuted, hpushed hdata, fun hne => hissued (hdel hne)⟩

/-- The rows before those that `send_delayed_messages` goes on with are in the queue. -/
theorem Tended.goesOn (h : Tended tables pushed s) (hc : s.registered c) {rows : List Row}
    {ids : List Nat} (hg : s.goesOn c = some (rows, ids)) :
    ∃ done, s.Found c (s.connection c).indices.dbIndex (done ++ rows) ∧
      done.map Row.id = ids ∧ (done.map Row.data).Sublist (pushedTo pushed c) := by
  cases hdel : s.delayed c with
  | fetching =>
    obtain ⟨done, hfound, hids⟩ := h.mailed.goesOn hg
    have hnil : ids = [] := by
      unfold Server.goesOn at hg
      simp only [hdel] at hg
      split at hg <;> cases hg
      rfl
    rw [hnil, List.map_eq_nil_iff] at hids
    subst hids
    exact ⟨[], hfound, by rw [hnil]; rfl, List.nil_sublist _⟩
  | sending current rest sent =>
    have hhands := (h.tends c (.inr hc)).hands
    rw [hdel] at hhands
    obtain ⟨done, hfound, rfl, hdata⟩ := hhands
    unfold Server.goesOn at hg
    simp only [hdel] at hg
    split at hg <;> cases hg
    exact ⟨done ++ [current], by simpa using hfound, by simp, hdata⟩
  | _ => simp [Server.goesOn, hdel] at hg

/-- The `send_delayed_messages` of a session in its slot goes on until it has handed over all that
it has found. -/
theorem Tended.continues (h : Tended tables pushed s) (hc : s.registered c)
    (hstep : s.step (.resume (.delayed c)) = some s') :
    HandsAll (pushed ++ (s.pushOf (.resume (.delayed c))).toList) s' c (s'.delayed c) := by
  have hlogged := h.mailed.logged
  have hsettled := hlogged.settled
  have hown := hsettled.ownClient hc
  have hanswer := hsettled.registered_answer hc
  have hconn := hsettled.steady.connection_step hstep hanswer
  have hexecuted := (hlogged.step hstep).2.executed
  obtain ⟨new, hnew, -⟩ := (hlogged.step hstep).2.sent
  have hissued : s.db.issued ⊆ s'.db.issued := by
    rw [← sent_snd, ← sent_snd, hnew, List.map_append]
    exact List.subset_append_left _ _
  have htends := h.tends c (.inr hc)
  cases resume_continues hsettled.steady.sound.wellFormed hsettled.steady.linked hstep with
  | hand row rest ids d db hdb hg hd =>
    obtain rfl : d = c := Option.some.inj (hd.symm.trans hown)
    obtain ⟨done, hfound, hids, hdata⟩ := h.goesOn hc hg
    have hpush : s.pushOf (.resume (.delayed d)) =
        some ⟨.delayed d, d, row.data, some row.id⟩ := by
      simp [pushOf_delayed, hg, hd]
    simp only [setDelayed, Function.update_self]
    refine ⟨done, ?_, hids, ?_⟩
    · rw [setDelayed] at hconn
      exact hconn ▸ hfound.mono hexecuted
    · rw [hpush, Option.toList_some, pushedTo_append, pushedTo_single, if_pos rfl, List.map_append]
      exact hdata.append (List.Sublist.refl _)
  | delete ids db _ hdb hids hdel =>
    obtain ⟨hl, hadds⟩ := hdb.adds hsettled.steady.linked
    obtain ⟨hdeleted, hstate⟩ := deleteSent_deletedBy (s := { s with db })
      hl.answered.coherent (hadds.2.1.trans h.connected) hdel
    have hrows : ∃ rows, s.Found c (s.connection c).indices.dbIndex rows ∧
        rows.map Row.id = ids ∧ (rows.map Row.data).Sublist (pushedTo pushed c) := by
      unfold Server.deletes at hids
      split at hids
      · rename_i ids' hg
        cases hids
        obtain ⟨done, hfound, hids, hdata⟩ := h.goesOn hc hg
        exact ⟨done, by simpa using hfound, hids, hdata⟩
      · simp [hown] at hids
      · split at hids
        · rename_i hsig
          exact absurd hsig htends.signal
        · cases hids
    obtain ⟨rows, hfound, rfl, hdata⟩ := hrows
    have hsent : rows ≠ [] → .deleteMessages (rows.map Row.id) ∈ s'.db.issued := by
      intro hne
      rw [if_neg (by simpa using hne)] at hdeleted
      have hm : rows.map Row.id ∈ Server.deletedBy s'.db c := by simp [hdeleted]
      obtain ⟨x, hx, hxids⟩ := List.mem_filterMap.mp hm
      rw [deleteOf_eq_some.mp hxids] at hx
      rw [← sent_snd]
      exact List.mem_map_of_mem (f := Prod.snd) hx
    have hdone : ∃ rows, s'.Found c (s'.connection c).indices.dbIndex rows ∧
        (rows.map Row.data).Sublist
          (pushedTo (pushed ++ (s.pushOf (.resume (.delayed c))).toList) c) ∧
        (rows ≠ [] → .deleteMessages (rows.map Row.id) ∈ s'.db.issued) := by
      refine ⟨rows, hconn ▸ hfound.mono hexecuted, ?_, hsent⟩
      rw [pushedTo_append]
      exact hdata.trans (List.sublist_append_left _ _)
    obtain hstate | hstate := hstate <;> rw [hstate] <;> exact hdone
  | finish db hdb hdel =>
    have hhands : HandsAll pushed s c .deleting := hdel ▸ htends.hands
    have hgrown := hhands.grows hanswer hconn hexecuted hissued
      (s.pushOf (.resume (.delayed c))).toList
    simp only [setDelayed, Function.update_self]
    exact hgrown

/-- A connection that has not left its slot after the step had not left it before. -/
theorem Settled.here (h : Settled s) (hstep : s.step a = some s')
    (hc : s'.answer c = none ∨ s'.registered c) : s.answer c = none ∨ s.registered c := by
  obtain hc | hc := hc
  · by_contra hn
    obtain ⟨g, hg⟩ := Option.ne_none_iff_exists'.mp (not_or.mp hn).1
    have hanswer := h.steady.answer_step hg hstep
    simp [hc] at hanswer
  · exact (h.steady.registered hstep hc).symm

theorem Tended.own (h : Tended tables pushed s) (hc : s.answer c = none ∨ s.registered c)
    {p : Push} (hp : s.pushOf a = some p) (hcaller : p.caller = .delayed c) : p.login = c := by
  have hsettled := h.mailed.logged.settled
  obtain ⟨i, generation, -, ⟨d, bytes, lookup, size, recipient, r, -, -, -, -, heq⟩ |
    ⟨d, row, rfl, hrow, -, -, heq⟩⟩ := pushOf_cases hsettled.steady.sound.wellFormed hp
  · rw [heq] at hcaller
    cases hcaller
  · rw [heq] at hcaller
    cases hcaller
    have hanswer : s.answer c ≠ none := by
      refine hsettled.answer_of_delayed fun hunborn => ?_
      simp [nextRow, hunborn] at hrow
    have hown := hsettled.ownClient (hc.resolve_left hanswer)
    exact pushOf_own (by simp [hown]) hp

/-- Nobody destroys the channel of a session in its slot. -/
theorem Tended.signal (h : Tended tables pushed s) (hc : s.answer c = none ∨ s.registered c)
    (hstep : s.step a = some s') : s'.signal (.delayed c) ≠ .aborted := by
  have htends := h.tends c hc
  have hsettled := h.mailed.logged.settled
  have hsocket : ∀ d, Task.delayed c ≠ .socket d := fun d => by simp
  cases step_signals hsettled h.accounted.heard hstep with
  | wait p _ _ hsig | meet p _ _ _ hsig =>
    rw [hsig _ hsocket]
    by_cases hp : p.caller = .delayed c
    · simp [← hp]
    · rw [Function.update_of_ne (Ne.symm hp)]
      exact htends.signal
  | leave d t rest signal _ hd _ hsig hsignal =>
    rw [hsig _ hsocket]
    by_cases ht : t = .delayed c
    · subst ht
      rw [Function.update_self]
      obtain rfl | ⟨rfl, -, hun⟩ := hsignal
      · simp
      · obtain ⟨before, p, hp, rfl, -⟩ := h.accounted.calls.order d [] _ rest hd
        have hlogin : p.login = c := htends.own p hp.mem (by obtain ⟨-, -, h, -⟩ := hp; exact h)
        have hanswer := h.accounted.calls.answered p hp.mem
        have hreg := (unregistered_of_unowned hun).2
        rw [hlogin] at hanswer hreg
        simp [hc.resolve_left hanswer] at hreg
    · rw [Function.update_of_ne (Ne.symm ht)]
      exact htends.signal
  | same _ _ hsig =>
    rw [hsig _ hsocket]
    exact htends.signal

theorem Tended.account (h : Tended tables pushed s) (hc : s'.answer c = none ∨ s'.registered c)
    (hstep : s.step a = some s') (hanswer : s'.answer c ≠ none) :
    s'.db.tables.idOf (s'.connection c).publicKey = some (s'.connection c).indices.dbIndex := by
  have hsettled := h.mailed.logged.settled
  have hevolves := (hsettled.steady.linked.step hsettled.steady.sound
    (fun _ _ _ _ _ => trivial) hstep).2.evolves
  by_cases hnone : s.answer c = none
  · obtain ⟨id, hg, hid⟩ := hsettled.grant_of_registered hstep hnone (hc.resolve_left hanswer)
    rw [hid]
    exact hevolves.idOf (h.mailed.logged.grant h.connected hg hstep).2.1
  · rw [hsettled.steady.connection_step hstep hnone]
    exact hevolves.idOf ((h.tends c (hsettled.here hstep hc)).account hnone)

theorem Tended.hands (h : Tended tables pushed s) (hc : s'.answer c = none ∨ s'.registered c)
    (hstep : s.step a = some s') :
    HandsAll (pushed ++ (s.pushOf a).toList) s' c (s'.delayed c) := by
  have hsettled := h.mailed.logged.settled
  have hsettled' := hsettled.step hstep
  by_cases hnone : s.answer c = none
  · obtain hnone' | hreg := hc
    · rw [hsettled'.reached.begun c hnone']
      exact hnone'
    · obtain ⟨id, hg, -⟩ := hsettled.grant_of_registered hstep hnone hreg
      rw [fetching_of_grant h.connected hg hstep]
      trivial
  · have hreg := (hsettled.here hstep hc).resolve_left hnone
    by_cases ha : a = .resume (.delayed c)
    · subst ha
      exact h.continues hreg hstep
    · obtain hsame | ⟨hno, -⟩ := hsettled.steady.delayed hstep ha
      · obtain ⟨-, hgoes⟩ := h.mailed.logged.step hstep
        obtain ⟨new, hnew, -⟩ := hgoes.sent
        have hissued : s.db.issued ⊆ s'.db.issued := by
          rw [← sent_snd, ← sent_snd, hnew, List.map_append]
          exact List.subset_append_left _ _
        rw [hsame]
        exact (h.tends c (.inr hreg)).hands.grows hnone
          (hsettled.steady.connection_step hstep hnone) hgoes.executed hissued _
      · exact absurd hno hnone

theorem Tended.step (h : Tended tables pushed s) (hstep : s.step a = some s') :
    Tended tables (pushed ++ (s.pushOf a).toList) s' where
  mailed := h.mailed.step hstep
  accounted := h.accounted.step hstep
  connected := (h.mailed.logged.step hstep).2.connected.trans h.connected
  tends := by
    intro c hc
    have hold := h.mailed.logged.settled.here hstep hc
    refine ⟨fun p hp hcaller => ?_, h.signal hold hstep, h.account hc hstep, h.hands hc hstep⟩
    obtain hp | hp := List.mem_append.mp hp
    · exact (h.tends c hold).own p hp hcaller
    · exact h.own hold (Option.mem_toList.mp hp) hcaller

theorem init_tended (native : Proto.Endian) {succeeds : StartStep → Bool} (tables : Tables)
    (hc : succeeds .connect) : Tended tables [] (init native succeeds tables) where
  mailed := init_mailed native succeeds tables
  accounted := init_accounted native succeeds tables
  connected := hc
  tends := by
    intro c _
    refine ⟨by simp, by simp [init], by simp [init], ?_⟩
    simp [init, HandsAll]

theorem Logged.pending_of_waiting (h : Logged tables s) (hloop : s.db.queue.loop = .waiting) :
    s.db.pending = [] := by
  simp [Database.pending, RequestQueue.pending, h.answered.coherent.waiting hloop]

/-- Without a connection the loop of the request queue never waits for a statement. -/
theorem connected_of_waiting {native : Proto.Endian} {succeeds : StartStep → Bool}
    {as : List Action} (hr : Lts.run step (init native succeeds tables) as = some s)
    (hloop : s.db.queue.loop = .waiting) : succeeds .connect := by
  by_contra hc
  have hall : ([.connect, .createDatabase, .useDatabase, .createUsers, .createMessages].all
      succeeds) = false := by
    simp [hc]
  have hunborn : (init native succeeds tables).db.queue.loop = .unborn := by
    simp [init, Database.start, RequestQueue.start, hall]
  have hinit : Idling tables (init native succeeds tables) (init native succeeds tables) :=
    ⟨init_composed native succeeds tables, .refl _, rfl, by simp [init]⟩
  have hidling := Lts.invariant_all (fun _ _ _ h hstep => h.step (.inl hunborn) hstep) hinit hr
  rw [hidling.idles.loop, hunborn] at hloop
  cases hloop

/-- At rest the `send_delayed_messages` of a session that can be written to is through. -/
theorem Tended.finished (h : Tended tables pushed s) (hcomposed : Composed tables s)
    (hrest : Resting s) (hloop : s.db.queue.loop = .waiting) (hc : s.Writable c) :
    s.delayed c = .finished := by
  have htends := h.tends c (.inr hc.1)
  have hfetched := hcomposed.fetched_at_rest hrest hloop c
  cases hdel : s.delayed c with
  | unborn =>
    have hhands := htends.hands
    rw [hdel] at hhands
    exact absurd hhands (h.mailed.logged.settled.registered_answer hc.1)
  | fetching => exact absurd hdel hfetched.1
  | deleting => exact absurd hdel hfetched.2
  | finished => rfl
  | sending current rest sent =>
    have hcalling : s.calling (.delayed c) := by simp [calling, hdel]
    obtain ⟨d, hd, -, hsocket⟩ := hcomposed.call_at_rest hrest hcalling
    obtain ⟨xs, ys, hsplit⟩ := List.append_of_mem hd
    obtain ⟨before, p, hp, rfl, -⟩ := h.accounted.calls.order d xs _ ys hsplit
    have hlogin : p.login = c := htends.own p hp.mem (by obtain ⟨-, -, h, -⟩ := hp; exact h)
    rw [hlogin] at hsocket
    exact absurd hsocket (not_or.mpr hc.2)

/-- A row whose `DELETE` has been queued is gone when nothing is pending. -/
theorem Mailed.gone (h : Mailed tables s) (hp : s.db.pending = []) {ids : List Nat}
    (hd : .deleteMessages ids ∈ s.db.issued) {row : Row} (hrow : row.id ∈ ids) :
    row ∉ s.db.tables.messages := by
  rw [issued_eq h.logged.answered.coherent, hp, List.append_nil] at hd
  obtain ⟨x, hx, hstmt⟩ := List.mem_map.mp hd
  have hentry : .remove ids ∈ entries s.db.executed :=
    List.mem_filterMap.mpr ⟨x, hx, by simp [hstmt, Statement.entry]⟩
  rw [h.logged.recorded.replays.messages, Ledger.replay_eq h.fresh]
  intro hm
  have hkept := (List.mem_filter.mp hm).2
  simp only [decide_eq_true_eq, Ledger.removed, List.mem_flatMap, not_exists, not_and] at hkept
  exact hkept _ hentry hrow

/-- At rest every session in its slot whose socket coroutine still waits has been written what was
in the mailbox of its key when its login fetched it, and none of that is stored any more. -/
theorem mail_delivered (native : Proto.Endian) (succeeds : StartStep → Bool) (tables : Tables)
    (as : List Action) (s : Server)
    (hr : Lts.run step (init native succeeds tables) as = some s)
    (hown : Lts.Along step (fun s a => s.drainsOwn a) (init native succeeds tables) as)
    (hrest : Resting s) (hloop : s.db.queue.loop = .waiting) (c : ConnId) (hc : s.Writable c) :
    ∃ before userId r after,
      s.db.executed = before ++ (.delayed c, .selectMessages userId, r) :: after ∧
      s.db.tables.idOf (s.connection c).publicKey = some userId ∧
      ((tables.mailbox before userId).map Row.data).Sublist (s.written c) ∧
      ∀ row ∈ tables.mailbox before userId, row ∉ s.db.tables.messages := by
  have h : Tended tables (pushes (init native succeeds tables) as) s :=
    Lts.invariant_log (C := fun _ _ => True) (I := fun s l => Tended tables l s)
      (fun _ _ _ _ h _ hstep => h.step hstep)
      (init_tended native tables (connected_of_waiting hr hloop)) (Lts.along_true _ _) hr
  have hcomposed := run_composed hr
  have hlogged := h.mailed.logged
  have htends := h.tends c (.inr hc.1)
  have hhands := htends.hands
  rw [h.finished hcomposed hrest hloop hc] at hhands
  obtain ⟨rows, ⟨r, hm, rfl⟩, hdata, hdel⟩ := hhands
  obtain ⟨before, after, hsplit⟩ := List.append_of_mem hm
  have hreplays := hlogged.recorded.replays
  have hfresh := h.mailed.fresh
  rw [hsplit] at hreplays hfresh
  rw [hreplays.fetched hfresh] at hdata hdel
  refine ⟨before, _, r, after, hsplit,
    htends.account (hlogged.settled.registered_answer hc.1), ?_, fun row hrow => ?_⟩
  · rwa [written_at_rest hr hown hrest hc]
  · have hpending := hlogged.pending_of_waiting hloop
    refine h.mailed.gone hpending (hdel ?_) (List.mem_map_of_mem hrow)
    exact List.ne_nil_of_mem hrow

/-- The message stored for key 1 has been handed over to its login, and all comes to rest. -/
def broughtToRest : List Action :=
  handedOver ++ [.loop, .cancel 0, .resume (.socket 0), .resume (.delayed 0),
    .resume (.delayed 1), .written 2, .resume (.delayed 2), .resume (.store 0)]

theorem mail_delivered_login : ∃ s : Server, s.registered 2 ∧ ∃ before userId r after,
    s.db.executed = before ++ (.delayed 2, .selectMessages userId, r) :: after ∧
    s.db.tables.idOf (s.connection 2).publicKey = some userId ∧
    ((Tables.empty.mailbox before userId).map Row.data).Sublist (s.written 2) ∧
    ∀ row ∈ Tables.empty.mailbox before userId, row ∉ s.db.tables.messages := by
  have hsome : (Lts.run step (init .little (fun _ => true) .empty) broughtToRest).any fun s =>
      s.registered 2 && s.db.queue.loop = .waiting && s.socket 2 = .asyncReceive &&
        s.ownActions.all fun a => (s.step a).isNone := by
    decide +kernel
  have hown : Lts.Along step (fun s a => s.drainsOwn a)
      (init .little (fun _ => true) .empty) broughtToRest := by
    decide +kernel
  obtain ⟨s, hr, hs⟩ := (Option.any_eq_true _ _).mp hsome
  simp only [Bool.and_eq_true, decide_eq_true_eq, List.all_eq_true, Option.isNone_iff_eq_none]
    at hs
  obtain ⟨⟨⟨hc, hloop⟩, hsocket⟩, hstuck⟩ := hs
  have hrest : Resting s := (run_attentive hr).resting_iff.mpr hstuck
  exact ⟨s, hc, mail_delivered .little (fun _ => true) .empty broughtToRest s hr hown hrest
    hloop 2 ⟨hc, by simp [hsocket, SocketState.undefined]⟩⟩

end MydakServer.Server
