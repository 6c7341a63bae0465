import MydakServer.Drained

/-! The server without the loop of its request queue: after a statement has failed, and after a
start of the database that has come to nothing. -/
namespace MydakServer.Database
open RequestQueue
variable {ι : Type*}

/-- Nobody executes what is queued. -/
def Down (d : Database ι) : Prop := d.queue.loop = .unborn ∨ d.queue.loop = .terminated

/-- Nothing has been executed, and coroutines have only read results and queued statements. -/
structure Idles (d d' : Database ι) : Prop where
  tables : d'.tables = d.tables
  loop : d'.queue.loop = d.queue.loop
  executed : d'.executed = d.executed
  suspended : ∀ i ref stmt, d.queue.caller i = .suspended ref stmt →
    d'.queue.caller i = .suspended ref stmt
  resumed : ∀ i ref stmt, d'.queue.caller i = .resumed ref stmt →
    d.queue.caller i = .resumed ref stmt

theorem Idles.refl (d : Database ι) : Idles d d :=
  ⟨rfl, rfl, rfl, fun _ _ _ h => h, fun _ _ _ h => h⟩

theorem Idles.trans {d e f : Database ι} (h : Idles d e) (h' : Idles e f) : Idles d f where
  tables := h'.tables.trans h.tables
  loop := h'.loop.trans h.loop
  executed := h'.executed.trans h.executed
  suspended := fun i ref stmt hi => h'.suspended i ref stmt (h.suspended i ref stmt hi)
  resumed := fun i ref stmt hi => h.resumed i ref stmt (h'.resumed i ref stmt hi)

variable [DecidableEq ι]

theorem Down.request {d d' : Database ι} (h : d.Down) (hq : d.queue.Coherent) {i : ι}
    {op : Operation} {stmt : Statement} {failed : Value} {v : Option Value}
    (hr : d.request i op stmt failed = some (d', v)) : Idles d d' := by
  obtain ⟨-, rfl, -⟩ | ⟨q, -, hcall, rfl, -⟩ := request_cases hr
  · exact .refl _
  obtain ⟨hidle, rfl⟩ := hq.asyncExecuteQueued hcall
  have hw : d.queue.loop ≠ .waiting := by
    obtain hl | hl := h <;> simp [hl]
  refine ⟨rfl, by simp [queuedBy, hw], rfl, fun j ref stmt' hj => ?_, fun j ref stmt' hj => ?_⟩
  · have hji : j ≠ i := by
      intro heq
      simp [heq, hidle] at hj
    simpa [queuedBy, Function.update_of_ne hji] using hj
  · have hji : j ≠ i := by
      intro heq
      simp [heq, queuedBy] at hj
    simpa [queuedBy, Function.update_of_ne hji] using hj

omit [DecidableEq ι] in
theorem Down.of_idles {d d' : Database ι} (h : d.Down) (hi : Idles d d') : d'.Down := by
  rw [Down, hi.loop]
  exact h

/-- A coroutine reads its results. -/
theorem idles_of_take {d : Database ι} {i : ι} {r : Results}
    {q : RequestQueue ι Statement Results} (ht : d.queue.take i = some (r, q))
    (operation : ι → Operation) : Idles d { d with queue := q, operation } := by
  obtain ⟨⟨ref, stmt, hi⟩, -, rfl⟩ := take_eq_some.mp ht
  refine ⟨rfl, rfl, rfl, fun j ref' stmt' hj => ?_, fun j ref' stmt' hj => ?_⟩
  · have hji : j ≠ i := by
      intro heq
      simp [heq, hi] at hj
    simpa [Function.update_of_ne hji] using hj
  · have hji : j ≠ i := by
      intro heq
      simp [heq] at hj
    simpa [Function.update_of_ne hji] using hj

/-- Without the loop no action executes a statement. -/
theorem Down.act {I : Tables → Prop} {d d' : Database ι} {a : Action ι} (h : d.Down)
    (ha : d.Answered I) (hd : d.act a = some d') : Idles d d' := by
  cases a with
  | addUser i key | addMessage i index message | getDelayedMessages i dbIndex =>
    obtain ⟨⟨e, v⟩, he, rfl⟩ := Option.map_eq_some_iff.mp hd
    exact h.request ha.coherent he
  | deleteDelayedMessages i ids =>
    obtain ⟨⟨e, v⟩, he, rfl⟩ := Option.map_eq_some_iff.mp hd
    obtain ⟨-, rfl, -⟩ | hr := deleteDelayedMessages_cases he
    · exact .refl _
    · exact h.request ha.coherent hr
  | getDbIndex i =>
    cases hd
    exact ⟨rfl, rfl, rfl, fun _ _ _ h => h, fun _ _ _ h => h⟩
  | lookupReturns => cases hd
  | resume i =>
    obtain ⟨⟨e, v⟩, he, rfl⟩ := Option.map_eq_some_iff.mp hd
    obtain ⟨r, q, ht, ⟨rfl, -⟩ | ⟨key, -, -, hreq⟩⟩ := resume_cases he
    · exact idles_of_take ht _
    · have htake := idles_of_take ht (Function.update d.operation i .idle)
      have hq := (ha.coherent.take ht)
      exact htake.trans ((h.of_idles htake).request hq hreq)
  | loop | execute | executeThrows =>
    obtain hl | hl := h <;>
      simp [Database.act, Database.runLoop, RequestQueue.runLoop, Database.execute,
        Database.executeThrows, RequestQueue.throws, hl] at hd

theorem Down.run {d d' : Database ι} {acts : List (Action ι)} (h : d.Down)
    (ha : d.Answered fun _ => True) (hr : Lts.run Database.act d acts = some d') :
    Idles d d' := by
  induction acts generalizing d with
  | nil =>
    cases hr
    exact .refl _
  | cons a acts ih =>
    obtain ⟨e, he, hr⟩ := Lts.run_cons.mp hr
    have hidles := h.act ha he
    exact hidles.trans (ih (h.of_idles hidles) (ha.act he) hr)

end MydakServer.Database

namespace MydakServer.Server
open Database RequestQueue
variable {tables : Tables}

theorem Logged.idles {s s' : Server} {a : Action} (h : Logged tables s) (hd : s.db.Down)
    (hstep : s.step a = some s') : Idles s.db s'.db := by
  obtain ⟨acts, hrun, -⟩ := step_performs h.settled.steady hstep
  exact hd.run h.answered hrun

/-- On a connection that stands, a login is granted a slot only after its statement has been
executed. -/
theorem resumed_of_grant {s : Server} {a : Action} {c : ConnId} {id : Nat} (hc : s.db.connected)
    (hg : .grant c id ∈ s.events a) :
    ∃ ref stmt, s.db.queue.caller (.start c) = .resumed ref stmt := by
  obtain ⟨-, -, db, hd⟩ := grant_resumes hc hg
  obtain ⟨r, q, ht, -⟩ := Database.resume_cases hd
  exact (take_eq_some.mp ht).1

/-- A connection gets its answer in the step in which its login is rejected, or granted a slot. -/
theorem Move.answered {I : Tables → Prop} {s t : Server} {a : Action} (hm : Move I s a t)
    {c : ConnId} {g : ClientIndex} (hg : t.answer c = some g) :
    s.answer c = some g ∨ g = .empty ∧ (∃ key, s.clientIndices key ≠ none) ∨
      ∃ id, .grant c id ∈ s.events a ∧ g.dbIndex = id := by
  have hsame : t.registry = s.registry → s.answer c = some g := by
    intro hr
    have hans : t.answer = s.answer := congrArg Registry.answer hr
    rw [← hans, hg]
  cases hm with
  | reject d key state hd hk =>
    by_cases hcd : c = d
    · subst hcd
      have hempty : ClientIndex.empty = g := by
        simpa [setDelayed, Server.answered, setStart] using hg
      exact .inr (.inl ⟨hempty.symm, key, hk⟩)
    · refine .inl ?_
      simpa [setDelayed, Server.answered, setStart, setKey, Function.update_of_ne hcd] using hg
  | grant _ d key e v id state hl hv hev =>
    obtain ⟨channel, signal, socket, he, -⟩ :=
      (s.setKey d key).granted_eq d v { e with dbIndex := id }
    rw [he] at hg
    by_cases hcd : c = d
    · subst hcd
      have heq : ({ e with dbIndex := id } : ClientIndex) = g := by simpa [setDelayed] using hg
      exact .inr (.inr ⟨id, hev, by rw [← heq]⟩)
    · exact .inl (by simpa [setDelayed, setKey, Function.update_of_ne hcd] using hg)
  | relay d bytes lookup size recipient e f =>
    exact .inl (hsame (asyncSend_same (s.push f _) f _).registry)
  | hand d f row => exact .inl (hsame (asyncSend_same (s.push f row.data) f _).registry)
  | park d => exact .inl (hsame (s.socketCoroutine_same d).registry)
  | wrote d socket q channel m front rest =>
    exact .inl (hsame (writeMessages_same (s.popped socket q m rest) d _ q).registry)
  | _ => exact .inl hg

/-- From `s` to `t` no statement has been executed; the coroutines that waited for one in `s` wait
for it still; and no connection has been granted a slot but those whose statement had been
executed in `s`. -/
structure Outage (s t : Server) : Prop where
  loop : t.db.queue.loop = s.db.queue.loop
  tables : t.db.tables = s.db.tables
  executed : t.db.executed = s.db.executed
  suspended : ∀ task ref stmt, s.db.queue.caller task = .suspended ref stmt →
    t.db.queue.caller task = .suspended ref stmt ∧ t.Waits task stmt
  answers : s.db.connected → ∀ c g, t.answer c = some g → s.answer c = some g ∨ g = .empty ∨
    ∃ ref stmt, s.db.queue.caller (.start c) = .resumed ref stmt

/-- What a run from `s` keeps while the loop is down. -/
structure Idling (tables : Tables) (s t : Server) : Prop where
  composed : Composed tables t
  idles : Idles s.db t.db
  connected : t.db.connected = s.db.connected
  answers : s.db.connected → ∀ c g, t.answer c = some g → s.answer c = some g ∨ g = .empty ∨
    ∃ ref stmt, s.db.queue.caller (.start c) = .resumed ref stmt

theorem Idling.step {s t u : Server} {a : Action} (h : Idling tables s t) (hd : s.db.Down)
    (hstep : t.step a = some u) : Idling tables s u := by
  have hlogged := h.composed.logged
  have hidles := hlogged.idles (hd.of_idles h.idles) hstep
  refine ⟨h.composed.step hstep, h.idles.trans hidles,
    (hlogged.step hstep).2.connected.trans h.connected, fun hc c g hg => ?_⟩
  have hsteady := hlogged.settled.steady
  obtain ⟨v, hm, ha⟩ := step_move hsteady.sound hsteady.linked hstep
  rw [ha.answer] at hg
  obtain hold | ⟨hempty, -⟩ | ⟨id, hev, -⟩ := hm.answered hg
  · exact h.answers hc c g hold
  · exact .inr (.inl hempty)
  · obtain ⟨ref, stmt, hres⟩ := resumed_of_grant (h.connected.trans hc) hev
    exact .inr (.inr ⟨ref, stmt, h.idles.resumed _ ref stmt hres⟩)

theorem Idling.outage {s t : Server} (h : Idling tables s t) : Outage s t where
  loop := h.idles.loop
  tables := h.idles.tables
  executed := h.idles.executed
  suspended := by
    intro task ref stmt hs
    have ht := h.idles.suspended task ref stmt hs
    exact ⟨ht, h.composed.attentive.asking task stmt (by simp [asked, ht])⟩
  answers := h.answers

/-- Once the loop of the request queue is gone, it is gone for good. -/
theorem outage_lasts (native : Proto.Endian) (succeeds : StartStep → Bool) (tables : Tables)
    (as : List Action) (s : Server)
    (hr : Lts.run step (init native succeeds tables) as = some s) (hd : s.db.Down)
    (bs : List Action) : Lts.Always step (Outage s) s bs := by
  intro cs hp t ht
  have hinit : Idling tables s s :=
    ⟨run_composed hr, .refl _, rfl, fun _ _ _ hg => .inl hg⟩
  exact (Lts.invariant_all (fun _ _ _ h hstep => h.step hd hstep) hinit ht).outage

/-- The first login fails, since its statement throws. -/
def firstLoginThrows : List Action :=
  [.loop, .accept, .keyRead 0 (.replicate 32 1), .loop, .executeThrows]

theorem outage_lasts_login : ∃ s,
    Lts.run step (init .little (fun _ => true) .empty) firstLoginThrows = some s ∧
      Lts.Always step (Outage s) s [.accept, .keyRead 1 (.replicate 32 2)] := by
  have hsome : (Lts.run step (init .little (fun _ => true) .empty) firstLoginThrows).any
      fun s => s.db.queue.loop = .terminated := by
    decide +kernel
  obtain ⟨s, hr, hl⟩ := (Option.any_eq_true _ _).mp hsome
  exact ⟨s, hr, outage_lasts .little (fun _ => true) .empty firstLoginThrows s hr
    (.inr (by simpa using hl)) _⟩

/-- Nothing has been sent to the database: no coroutine waits for a statement, no login has been
suspended, every session goes without the id of its key, and no message is stored or fetched. -/
structure Detached (tables : Tables) (s : Server) : Prop where
  tables : s.db.tables = tables
  sent : s.db.sent = []
  asked : ∀ t, s.db.asked t = none
  logins : ∀ c, s.start c ≠ .addClient
  delayed : ∀ c, s.delayed c = .unborn ∨ s.delayed c = .finished
  answers : ∀ c g, s.answer c = some g → g = .empty ∨ g.dbIndex = maxUInt64

/-- Without a connection no coroutine has ever been suspended for a statement. -/
theorem Logged.unsent_of_unconnected {s : Server} (h : Logged tables s)
    (hc : s.db.connected = false) :
    s.db.tables = tables ∧ s.db.sent = [] ∧ ∀ t, s.db.queue.caller t = .idle := by
  have hsent : s.db.sent = [] := by
    by_contra hne
    simp [h.recorded.connects hne] at hc
  have hq := h.answered.coherent
  have hqueued : s.db.queue.history.queued = [] := by simpa [Database.sent] using hsent
  have hcompleted : s.db.queue.history.completed.map Prod.fst = [] := by
    have hp := hq.completed_initial.trans hq.started_initial
    rw [hqueued] at hp
    exact List.prefix_nil.mp hp
  refine ⟨?_, hsent, fun t => ?_⟩
  · have hreplays := h.recorded.replays
    have hexecuted : s.db.executed = [] := by
      simpa [Database.executed] using hcompleted
    rw [hexecuted] at hreplays
    exact hreplays
  · cases hcaller : s.db.queue.caller t with
    | idle => rfl
    | suspended ref stmt =>
      obtain ⟨e, he, -⟩ := hq.suspended t ref stmt hcaller
      have hmem : e.ticket ∈ s.db.queue.history.queued := by
        rw [hq.queued]
        exact List.mem_append_right _ (List.mem_map_of_mem (List.mem_of_mem_drop he))
      simp [hqueued] at hmem
    | resumed ref stmt =>
      obtain ⟨r, -, hmem⟩ := hq.resumed t ref stmt hcaller
      have hmem' := List.mem_map_of_mem (f := Prod.fst) hmem
      simp [hcompleted] at hmem'

/-- Without a connection `db.add_user` returns at once, and not an id. -/
theorem maxUInt64_of_grant {s : Server} {a : Action} {c : ConnId} {id : Nat}
    (hc : s.db.connected = false) (hidle : ∀ t, s.db.queue.caller t = .idle)
    (hg : .grant c id ∈ s.events a) : id = maxUInt64 := by
  unfold events at hg
  split at hg
  · simp at hg
  · split at hg
    · simp at hg
    · split at hg
      · rename_i db id' hd
        obtain ⟨-, -, hv⟩ | ⟨q, hc', -⟩ := request_cases hd
        · cases hv
          simp only [List.mem_cons, reduceCtorEq, Registry.Action.grant.injEq, List.not_mem_nil,
            or_false, false_or] at hg
          exact hg.2
        · simp [hc] at hc'
      · simp at hg
  · split at hg <;> simp at hg
  · simp at hg
  · rename_i d
    split at hg
    · rename_i db id' hstart hd
      obtain ⟨r, q, ht, -⟩ := Database.resume_cases hd
      obtain ⟨ref, stmt, hres⟩ := (take_eq_some.mp ht).1
      simp [hidle (.start d)] at hres
    · simp at hg
  · simp at hg

/-- What every run keeps of a server whose database is not connected. -/
structure Detaching (tables : Tables) (s : Server) : Prop where
  composed : Composed tables s
  connected : s.db.connected = false
  delayed : ∀ c, s.delayed c = .unborn ∨ s.delayed c = .finished
  answers : ∀ c g, s.answer c = some g → g = .empty ∨ g.dbIndex = maxUInt64

theorem Detaching.step {s s' : Server} {a : Action} (h : Detaching tables s)
    (hstep : s.step a = some s') : Detaching tables s' := by
  have hlogged := h.composed.logged
  have hcomposed := h.composed.step hstep
  have hconnected : s'.db.connected = false := by
    rw [(hlogged.step hstep).2.connected, h.connected]
  have hsteady := hlogged.settled.steady
  refine ⟨hcomposed, hconnected, fun c => ?_, fun c g hg => ?_⟩
  · by_cases ha : a = .resume (.delayed c)
    · subst ha
      obtain hc | hc := h.delayed c <;> simp [Server.step, resume, hc] at hstep
    · obtain hsame | ⟨-, -, hf | hf⟩ := hsteady.delayed hstep ha
      · rw [hsame]
        exact h.delayed c
      · have hasked := hcomposed.logged.settled.steady.linked.fetching c (by simp) hf
        obtain ⟨-, -, hidle⟩ := hcomposed.logged.unsent_of_unconnected hconnected
        simp [asked, hidle] at hasked
      · exact .inr hf
  · obtain ⟨t, hm, ha⟩ := step_move hsteady.sound hsteady.linked hstep
    rw [ha.answer] at hg
    obtain hold | ⟨hempty, -⟩ | ⟨id, hev, hid⟩ := hm.answered hg
    · exact h.answers c g hold
    · exact .inl hempty
    · obtain ⟨-, -, hidle⟩ := hlogged.unsent_of_unconnected h.connected
      exact .inr (hid.trans (maxUInt64_of_grant h.connected hidle hev))

theorem Detaching.detached {s : Server} (h : Detaching tables s) : Detached tables s := by
  obtain ⟨htables, hsent, hidle⟩ := h.composed.logged.unsent_of_unconnected h.connected
  have hasked : ∀ t, s.db.asked t = none := fun t => by simp [asked, hidle]
  refine ⟨htables, hsent, hasked, fun c hc => ?_, h.delayed, h.answers⟩
  obtain hc' | hc' := h.composed.logged.settled.steady.linked.adding c (by simp) hc <;>
    simp [hasked] at hc'

/-- When the database cannot be connected to, the server relays between sessions and does nothing
else. -/
theorem start_unconnected (native : Proto.Endian) (succeeds : StartStep → Bool) (tables : Tables)
    (hc : succeeds .connect = false) (as : List Action) :
    Lts.Always step (Detached tables) (init native succeeds tables) as := by
  intro bs hp s hr
  refine (Lts.invariant_all (fun _ _ _ h hstep => h.step hstep) ?_ hr : Detaching tables s).detached
  exact ⟨init_composed native succeeds tables, hc, by simp [init], by simp [init]⟩

theorem start_unconnected_session :
    Lts.Always step (Detached .empty) (init .little (fun _ => false) .empty)
      [.accept, .keyRead 0 (.replicate 32 1), .greetings 0 (greetingsTo 2), .message 0 [7] true] :=
  start_unconnected .little (fun _ => false) .empty rfl _

/-- No connection has been answered: every one has yet to send its key, waits for ever, or has
ended before its key was read. -/
structure Hung (tables : Tables) (s : Server) : Prop where
  tables : s.db.tables = tables
  executed : s.db.executed = []
  answers : ∀ c, s.answer c = none
  frames : s.frames = []
  written : ∀ c, s.written c = []
  starts : ∀ c, s.start c = .unborn ∨ s.start c = .readKey ∨ s.start c = .ended ∨
    s.start c = .addClient ∧ ∃ ref stmt, s.db.queue.caller (.start c) = .suspended ref stmt

/-- What every run keeps of a server whose database has connected and then not come as far as
its loop. -/
structure Hanging (tables : Tables) (s₀ s : Server) : Prop where
  idling : Idling tables s₀ s
  entries : s.registry.LiveEntries
  answers : ∀ c, s.answer c = none
  frames : s.frames = []

/-- A connection without an answer has not come to its message loop. -/
theorem Hanging.phase {s₀ s : Server} (h : Hanging tables s₀ s) (c : ConnId) :
    s.registry.phase c ≠ .running := fun hc =>
  h.idling.composed.logged.settled.steady.sound.wellFormed.answered c hc (h.answers c)

theorem Hanging.step {s₀ s s' : Server} {a : Action} (h : Hanging tables s₀ s)
    (hd : s₀.db.Down) (hc : s₀.db.connected) (hidle : ∀ t, s₀.db.queue.caller t = .idle)
    (hstep : s.step a = some s') : Hanging tables s₀ s' := by
  have hsteady := h.idling.composed.logged.settled.steady
  refine ⟨h.idling.step hd hstep, liveEntries_step hsteady.sound h.entries hstep, fun c => ?_, ?_⟩
  · by_contra hne
    obtain ⟨g, hg⟩ := Option.ne_none_iff_exists'.mp hne
    obtain ⟨t, hm, ha⟩ := step_move hsteady.sound hsteady.linked hstep
    rw [ha.answer] at hg
    obtain hold | ⟨-, key, hk⟩ | ⟨id, hev, -⟩ := hm.answered hg
    · simp [h.answers c] at hold
    · -- only an answered connection has an entry
      obtain ⟨e, he⟩ := Option.ne_none_iff_exists'.mp hk
      obtain ⟨d, hrun, -⟩ := h.entries key e he
      exact h.phase d hrun
    · obtain ⟨ref, stmt, hres⟩ := resumed_of_grant (h.idling.connected.trans hc) hev
      have hres' := h.idling.idles.resumed _ ref stmt hres
      simp [hidle] at hres'
  · rw [step_frames hsteady.sound hstep, h.frames, List.nil_append]
    cases a with
    | message c bytes lookup =>
      cases hst : s.start c with
      | readMessage size recipient =>
        exact absurd (by simp [registry, hst, StartState.phase]) (h.phase c)
      | _ => simp [framesOf, hst]
    | _ => rfl

theorem Hanging.hung {s₀ s : Server} (h : Hanging tables s₀ s)
    (htables : s₀.db.tables = tables) (hexecuted : s₀.db.executed = [])
    (hidle : ∀ t, s₀.db.queue.caller t = .idle) : Hung tables s where
  tables := h.idling.idles.tables.trans htables
  executed := h.idling.idles.executed.trans hexecuted
  answers := h.answers
  frames := h.frames
  written := fun c => (h.idling.composed.logged.settled.reached.queues c (h.answers c)).2
  starts := by
    intro c
    have hphase := h.phase c
    cases hc : s.start c with
    | unborn => exact .inl rfl
    | readKey => exact .inr (.inl rfl)
    | ended => exact .inr (.inr (.inl rfl))
    | addClient =>
      refine .inr (.inr (.inr ⟨rfl, ?_⟩))
      cases hcaller : s.db.queue.caller (.start c) with
      | suspended ref stmt => exact ⟨ref, stmt, rfl⟩
      | resumed ref stmt =>
        have hres := h.idling.idles.resumed _ ref stmt hcaller
        simp [hidle] at hres
      | idle =>
        have hlinked := h.idling.composed.logged.settled.steady.linked
        obtain hasked | hasked := hlinked.adding c (by simp) hc <;>
          simp [asked, hcaller] at hasked
    | _ => simp [registry, hc, StartState.phase] at hphase

/-- When a statement of `database::start` fails on a connection that stands, no login is ever
answered. -/
theorem start_hung (native : Proto.Endian) (succeeds : StartStep → Bool) (tables : Tables)
    (hc : succeeds .connect) (hs : ∃ x, succeeds x = false) (as : List Action) :
    Lts.Always step (Hung tables) (init native succeeds tables) as := by
  have hall : ([.connect, .createDatabase, .useDatabase, .createUsers, .createMessages].all
      succeeds) = false := by
    obtain ⟨x, hx⟩ := hs
    cases x <;> simp [hx]
  have hdown : (init native succeeds tables).db.Down :=
    .inl (by simp [init, Database.start, RequestQueue.start, hall])
  have hidle : ∀ t, (init native succeeds tables).db.queue.caller t = .idle :=
    fun t => start_caller succeeds t
  have hexecuted : (init native succeeds tables).db.executed = [] := by
    simp [init, Database.start, RequestQueue.start, hall, Database.executed]
  intro bs hp s hr
  have h : Hanging tables (init native succeeds tables) s :=
    Lts.invariant_all (fun _ _ _ h hstep => h.step hdown hc hidle hstep)
      ⟨⟨init_composed native succeeds tables, .refl _, rfl, by simp [init]⟩,
        by intro key e he; simp [registry, init] at he, by simp [init], rfl⟩ hr
  exact h.hung rfl hexecuted hidle

theorem start_hung_login :
    Lts.Always step (Hung .empty) (init .little (fun x => x ≠ .createUsers) .empty)
      [.accept, .keyRead 0 (.replicate 32 1), .accept, .keyFails 1 []] :=
  start_hung .little (fun x => x ≠ .createUsers) .empty (by decide) ⟨.createUsers, by decide⟩ _

end MydakServer.Server
