import MydakServer.Moves

/-! A login in a server whose database waits: the request of `add_user` and the fetch of the delayed
messages run through the empty queue, and the connection is granted a slot. -/
namespace MydakServer
open RequestQueue
variable {ι : Type*} [DecidableEq ι]

namespace Database

/-- The loop waits for a statement. -/
structure Resting (d : Database ι) : Prop where
  coherent : d.queue.Coherent
  waiting : d.queue.loop = .waiting
  connected : d.connected

/-- The operation of the coroutine can go on with these results. -/
structure Ready (d : Database ι) (i : ι) (op : Operation) (r : Results) : Prop where
  resumed : ∃ ref stmt, d.queue.caller i = .resumed ref stmt
  results : d.queue.results i = some r
  operation : d.operation i = op

/-- Other coroutines than these are not affected. -/
structure Spares (is : List ι) (d d' : Database ι) : Prop where
  tables : d'.tables = d.tables
  caller : ∀ j, j ∉ is → d'.queue.caller j = d.queue.caller j
  results : ∀ j, j ∉ is → d'.queue.results j = d.queue.results j
  operation : ∀ j, j ∉ is → d'.operation j = d.operation j

omit [DecidableEq ι] in
theorem Spares.trans {is : List ι} {d d' e : Database ι} (h : Spares is d d')
    (h' : Spares is d' e) : Spares is d e where
  tables := h'.tables.trans h.tables
  caller := fun j hj => (h'.caller j hj).trans (h.caller j hj)
  results := fun j hj => (h'.results j hj).trans (h.results j hj)
  operation := fun j hj => (h'.operation j hj).trans (h.operation j hj)

omit [DecidableEq ι] in
theorem Spares.mono {is js : List ι} {d d' : Database ι} (h : Spares is d d') (hi : is ⊆ js) :
    Spares js d d' where
  tables := h.tables
  caller := fun j hj => h.caller j fun hm => hj (hi hm)
  results := fun j hj => h.results j fun hm => hj (hi hm)
  operation := fun j hj => h.operation j fun hm => hj (hi hm)

omit [DecidableEq ι] in
theorem Ready.spared {d d' : Database ι} {is : List ι} {j : ι} {op : Operation} {r : Results}
    (h : d.Ready j op r) (hs : Spares is d d') (hj : j ∉ is) : d'.Ready j op r where
  resumed := by rw [hs.caller j hj]; exact h.resumed
  results := by rw [hs.results j hj]; exact h.results
  operation := by rw [hs.operation j hj]; exact h.operation

/-- A statement that leaves the tables as they are runs through an empty queue. -/
theorem Resting.request {d : Database ι} (h : Resting d) {i : ι} (hi : d.queue.caller i = .idle)
    (op : Operation) (stmt : Statement) {r : Results} (failed : Value)
    (hx : d.tables.exec stmt = some (r, d.tables)) : ∃ e d',
      d.request i op stmt failed = some (e, none) ∧
      Lts.run act e [.loop, .execute, .loop] = some d' ∧ Resting d' ∧ d'.Ready i op r ∧
      Spares [i] d d' := by
  obtain ⟨q, hq⟩ : ∃ q, d.queue.asyncExecuteQueued i stmt = some q := by
    simp [asyncExecuteQueued, hi]
  obtain ⟨-, rfl⟩ := h.coherent.asyncExecuteQueued hq
  have hnil := h.coherent.waiting h.waiting
  let entry : Entry ι Statement :=
    { ticket := ⟨d.queue.history.queued.length, i, stmt⟩, channel := .receiver (.caller i) }
  -- the ping, the execution, and the way back to the head of the loop
  let q₀ := d.queue.queuedBy i stmt
  let q₁ := q₀.executeBack
  let q₂ := q₁.completedBy entry [] r
  have h₀ : q₀.runLoop = some q₁ := by
    simp [q₀, q₁, RequestQueue.runLoop, queuedBy, h.waiting]
  have h₁ : q₁.complete r = some q₂ := by
    simp [q₀, q₁, q₂, entry, RequestQueue.complete, executeBack, queuedBy, hnil, entryAt, sendOn,
      Rendezvous.Channel.asyncSend, modifyEntry, completedBy]
  have h₂ : ∃ q₃, q₂.runLoop = some q₃ ∧ q₃.loop = .waiting ∧ q₃.caller = q₂.caller ∧
      q₃.results = q₂.results := by
    simp [q₀, q₁, q₂, entry, RequestQueue.runLoop, executeBack, queuedBy, hnil, completedBy,
      popBack, waitUntilNonEmpty, Rendezvous.Channel.asyncReceive]
  obtain ⟨q₃, h₂, hwaiting, hcaller, hresults⟩ := h₂
  let e : Database ι :=
    { d with queue := q₀, operation := Function.update d.operation i op }
  refine ⟨e, { e with queue := q₃ }, by simp [Database.request, h.connected, hq, e, q₀],
    ?_, ?_, ?_, ?_⟩
  · have hloop : q₁.loop = .executing d.queue.history.queued.length := by
      simp [q₀, q₁, executeBack, queuedBy, hnil]
    have hentry : q₁.entryAt d.queue.history.queued.length = some entry := by
      simp [q₀, q₁, entry, executeBack, queuedBy, hnil, entryAt]
    simp [Lts.run, act, runLoop, execute, e, h₀, h₁, h₂, hloop, hentry, hx, entry]
  · have hcoherent := ((((h.coherent.queuedBy stmt hi).runLoop h₀).complete h₁).runLoop h₂)
    exact ⟨hcoherent, hwaiting, h.connected⟩
  · refine ⟨⟨d.queue.history.queued.length, stmt, ?_⟩, ?_, by simp [e]⟩
    · simp [hcaller, q₂, entry, completedBy]
    · simp [hresults, q₂, entry, completedBy]
  · refine ⟨rfl, fun j hj => ?_, fun j hj => ?_, fun j hj => ?_⟩
    all_goals have hj : j ≠ i := by simpa using hj
    · simp [hcaller, q₀, q₁, q₂, entry, completedBy, executeBack, queuedBy, hnil, hj]
    · simp [hresults, q₀, q₁, q₂, entry, completedBy, executeBack, queuedBy, hnil, hj]
    · simp [e, hj]

/-- The coroutine has taken its results. -/
theorem Ready.took {d : Database ι} {i : ι} {op : Operation} {r : Results} (h : d.Ready i op r)
    (hd : Resting d) : ∃ q, d.queue.take i = some (r, q) ∧
      let e : Database ι := { d with queue := q, operation := Function.update d.operation i .idle }
      Resting e ∧ e.queue.caller i = .idle ∧ Spares [i] d e := by
  obtain ⟨ref, stmt, hi⟩ := h.resumed
  have htake : d.queue.take i = some (r, { d.queue with
      caller := Function.update d.queue.caller i .idle }) := by
    simp [RequestQueue.take, hi, h.results]
  refine ⟨_, htake, ⟨hd.coherent.take htake, hd.waiting, hd.connected⟩, by simp, ?_⟩
  refine ⟨rfl, fun j hj => ?_, fun _ _ => rfl, fun j hj => ?_⟩
  all_goals have hj : j ≠ i := by simpa using hj
  all_goals simp [hj]

/-- The key has a row already, and `add_user` asks for it. -/
theorem Ready.asks {d : Database ι} {i : ι} {key : PublicKey} {r r' : Results}
    (h : d.Ready i (.addUserInsert key) r) (hr : r.affectedRows = 0) (hd : Resting d)
    (hx : d.tables.exec (.selectUser key) = some (r', d.tables)) : ∃ e d',
      d.resume i = some (e, none) ∧ Lts.run act e [.loop, .execute, .loop] = some d' ∧
      Resting d' ∧ d'.Ready i (.addUserSelect key) r' ∧ Spares [i] d d' := by
  obtain ⟨q, htake, hrests, hidle, hspares⟩ := h.took hd
  obtain ⟨e, d', hreq, hrun, hd', hready, hspares'⟩ := hrests.request hidle (.addUserSelect key)
    (.selectUser key) (.userId maxUInt64) hx
  refine ⟨e, d', ?_, hrun, hd', hready, hspares.trans hspares'⟩
  simp [Database.resume, htake, h.operation, hr, hreq]

/-- The last statement of an operation has its results. -/
theorem Ready.returns {d : Database ι} {i : ι} {op : Operation} {r : Results} (h : d.Ready i op r)
    (hop : op ≠ .idle ∧ ∀ key, op ≠ .addUserInsert key) (hd : Resting d) : ∃ e,
      d.resume i = some (e, some (returned op r)) ∧ Resting e ∧ e.queue.caller i = .idle ∧
      Spares [i] d e := by
  obtain ⟨q, htake, hrests, hidle, hspares⟩ := h.took hd
  refine ⟨_, ?_, hrests, hidle, hspares⟩
  cases op with
  | idle => exact absurd rfl hop.1
  | addUserInsert key => exact absurd rfl (hop.2 key)
  | _ => simp [Database.resume, htake, h.operation, returned]

end Database

namespace Server
open Database

variable {tables : Tables}

/-- A statement runs through the queue while the coroutines stand still. -/
theorem run_turn {s : Server} {d : Database Task}
    (h : Lts.run act s.db [.loop, .execute, .loop] = some d) :
    Lts.run step s [.loop, .execute, .loop] = some { s with db := d } := by
  obtain ⟨d₁, h₁, h⟩ := Lts.run_cons.mp h
  obtain ⟨d₂, h₂, h⟩ := Lts.run_cons.mp h
  have h₁ : s.db.runLoop = some d₁ := h₁
  have h₂ : d₁.execute = some d₂ := h₂
  have h₃ : d₂.runLoop = some d := Lts.run_single.mp h
  simp [Lts.run, step, h₁, h₂, h₃]

/-- No connection after those accepted has used the database, and its loop waits. -/
structure Quiet (tables : Tables) (s : Server) : Prop where
  resting : s.db.Resting
  tables : s.db.tables = tables
  callers : ∀ c, s.accepted ≤ c →
    s.db.queue.caller (.start c) = .idle ∧ s.db.queue.caller (.delayed c) = .idle

/-- From `s` the next connection has logged in with the key and has been granted `g`. -/
structure LoggedIn (tables : Tables) (s : Server) (key : PublicKey) (g : ClientIndex)
    (v : SlotVector Client) (t : Server) : Prop where
  quiet : Quiet tables t
  accepted : t.accepted = s.accepted + 1
  clientsSlotVector : t.clientsSlotVector = v
  clientIndices : t.clientIndices = Function.update s.clientIndices key (some g)
  connection : t.connection = Function.update s.connection s.accepted ⟨g, key⟩
  start : t.start s.accepted = .readGreetings
  delayed : t.delayed = Function.update s.delayed s.accepted .fetching
  ready : t.db.Ready (.delayed s.accepted) .getDelayedMessages
    (.messages (tables.messages.filter (·.userId = g.dbIndex)))
  spares : Spares [.start s.accepted, .delayed s.accepted] s.db t.db

theorem init_quiet (native : Proto.Endian) (tables : Tables) : ∃ db,
    step (init native (fun _ => true) tables) .loop =
      some { init native (fun _ => true) tables with db } ∧
      Quiet tables { init native (fun _ => true) tables with db } := by
  let start : RequestQueue Task Statement Results := .start fun _ => true
  obtain ⟨q, hq, hwaiting, hcaller⟩ : ∃ q, start.runLoop = some q ∧ q.loop = .waiting ∧
      q.caller = start.caller := by
    simp [start, RequestQueue.start, RequestQueue.runLoop, waitUntilNonEmpty,
      Rendezvous.Channel.asyncReceive]
  refine ⟨{ (Database.start (fun _ => true) tables : Database Task) with queue := q }, ?_, ?_⟩
  · simp [step, Database.runLoop, init, Database.start, hq, start]
  · refine ⟨⟨(RequestQueue.start_coherent _).runLoop hq, hwaiting, rfl⟩, rfl, fun c _ => ?_⟩
    simp [hcaller, start, RequestQueue.start_caller]

/-- The next connection has come to `add_user` with the key. -/
def joining (s : Server) (key : PublicKey) : Server :=
  ({ s with accepted := s.accepted + 1 }.setKey s.accepted key).setStart s.accepted .addClient

/-- The next connection is accepted, and its `add_user` inserts a key that has a row already. -/
theorem Quiet.connects {s : Server} (h : Quiet tables s) {key : PublicKey}
    (hkey : key ∈ tables.users.map User.publicKey) (hnone : s.clientIndices key = none) :
    ∃ as d, Lts.run step s as = some { s.joining key with db := d } ∧ Resting d ∧
      d.Ready (.start s.accepted) (.addUserInsert key) (.changed 0 0) ∧
      Spares [.start s.accepted] s.db d := by
  obtain ⟨hidle, -⟩ := h.callers s.accepted le_rfl
  obtain ⟨e, d, hreq, hrun, hrests, hready, hspares⟩ := h.resting.request hidle
    (.addUserInsert key) (.insertUser key) (r := .changed 0 0) (.userId maxUInt64)
    (by rw [h.tables, Tables.exec, dif_pos hkey])
  let t : Server := { s with
    start := Function.update s.start s.accepted .readKey, accepted := s.accepted + 1 }
  have hread : t.step (.keyRead s.accepted key) = some { s.joining key with db := e } := by
    simp [t, joining, step, keyRead, addClient, setKey, hnone, Database.addUser, hreq, setStart]
  exact ⟨[.accept, .keyRead s.accepted key] ++ [.loop, .execute, .loop], d,
    Lts.run_append.mpr ⟨_, Lts.run_cons.mpr ⟨t, rfl, Lts.run_single.mpr hread⟩, run_turn hrun⟩,
    hrests, hready, hspares⟩

/-- `add_user` finds that the key has a row, and asks for its id. -/
theorem asks_id {s : Server} {c : ConnId} {key : PublicKey} (id : Nat) (hd : s.db.Resting)
    (hc : s.start c = .addClient) (hr : s.db.Ready (.start c) (.addUserInsert key) (.changed 0 0))
    (hid : s.db.tables.idOf key = some id) : ∃ as d r,
      Lts.run step s as = some { s with db := d } ∧ Resting d ∧
      d.Ready (.start c) (.addUserSelect key) r ∧ r.firstId = some id ∧
      Spares [.start c] s.db d := by
  obtain ⟨r, hx⟩ : ∃ r, s.db.tables.exec (.selectUser key) = some (r, s.db.tables) := ⟨_, rfl⟩
  obtain ⟨e, d, hres, hrun, hrests, hready, hspares⟩ := hr.asks rfl hd hx
  have hasks : s.step (.resume (.start c)) = some { s with db := e } := by
    simp [step, resume, hc, hres]
  refine ⟨[.resume (.start c)] ++ [.loop, .execute, .loop], d, r,
    Lts.run_append.mpr ⟨_, Lts.run_single.mpr hasks, run_turn hrun⟩, hrests, hready, ?_, hspares⟩
  rw [Tables.firstId_selectUser hx, hid]

theorem userAdded_granted {s : Server} {c : ConnId} {g : ClientIndex} {v : SlotVector Client}
    (h : s.clientsSlotVector.emplaceBack (.new c) = some (g, v)) (id : Nat) :
    s.userAdded c id = (s.granted c v { g with dbIndex := id }).sendDelayedMessages c := by
  simp only [userAdded, h, Option.bind_some, loggedIn, granted, answered, emplaced,
    Function.update_idem]

theorem granted_db (s : Server) (db : Database Task) (c : ConnId) (v : SlotVector Client)
    (g : ClientIndex) : ({ s with db } : Server).granted c v g = { s.granted c v g with db } := by
  have hloop : ∀ u : Server,
      ({ u with db } : Server).socketCoroutine c = { u.socketCoroutine c with db } := by
    intro u
    unfold socketCoroutine
    dsimp only
    split
    · rfl
    · split <;> rfl
  show (({ s.emplaced c v g with db } : Server).socketCoroutine c).answered c g = _
  rw [hloop]
  rfl

/-- The connection is granted a slot, and its messages are fetched. -/
theorem enters {s : Server} {c : ConnId} {key : PublicKey} {r : Results} {id : Nat}
    {g : ClientIndex} {v : SlotVector Client} (hd : s.db.Resting) (hc : s.start c = .addClient)
    (hr : s.db.Ready (.start c) (.addUserSelect key) r) (hid : r.firstId = some id)
    (hidle : s.db.queue.caller (.delayed c) = .idle)
    (hv : s.clientsSlotVector.emplaceBack (.new c) = some (g, v)) : ∃ as d,
      Lts.run step s as = some
        { (s.granted c v { g with dbIndex := id }).setDelayed c .fetching with db := d } ∧
      Resting d ∧ d.Ready (.delayed c) .getDelayedMessages
        (.messages (s.db.tables.messages.filter (·.userId = id))) ∧
      Spares [.start c, .delayed c] s.db d := by
  obtain ⟨f, hres, hrests₀, -, hspares₀⟩ := hr.returns (by simp) hd
  rw [returned, hid, Option.getD_some] at hres
  have hidle₀ : f.queue.caller (.delayed c) = .idle := by
    rw [hspares₀.caller _ (by simp), hidle]
  obtain ⟨e, d, hreq, hrun, hrests, hready, hspares⟩ := hrests₀.request hidle₀ .getDelayedMessages
    (.selectMessages id) (.messages []) rfl
  have hgrants : s.step (.resume (.start c)) =
      some ({ s.granted c v { g with dbIndex := id } with db := e }.setDelayed c .fetching) := by
    have hid' : ((s.granted c v { g with dbIndex := id }).connection c).indices.dbIndex = id := by
      obtain ⟨channel, signal, socket, he, -⟩ := s.granted_eq c v { g with dbIndex := id }
      simp [he]
    have hreturns : s.step (.resume (.start c)) = ({ s with db := f } : Server).userAdded c id := by
      simp [step, resume, hc, hres]
    rw [hreturns, userAdded_granted (s := { s with db := f }) hv, granted_db, sendDelayedMessages]
    dsimp only
    rw [hid', Database.getDelayedMessages, hreq]
    rfl
  refine ⟨[.resume (.start c)] ++ [.loop, .execute, .loop], d,
    Lts.run_append.mpr ⟨_, Lts.run_single.mpr hgrants, ?_⟩, hrests, ?_, ?_⟩
  · rw [run_turn hrun]
    rfl
  · rw [← hspares₀.tables]
    exact hready
  · exact (hspares₀.mono (by simp)).trans (hspares.mono (by simp))

/-- In a quiet server the next connection can log in with the key of any user. -/
theorem Quiet.logs_in {s : Server} (h : Quiet tables s) {key : PublicKey} {id : Nat}
    (hid : tables.idOf key = some id) (hnone : s.clientIndices key = none) {g : ClientIndex}
    {v : SlotVector Client}
    (hv : s.clientsSlotVector.emplaceBack (.new s.accepted) = some (g, v)) : ∃ as t,
      Lts.run step s as = some t ∧ LoggedIn tables s key { g with dbIndex := id } v t := by
  have hkey : key ∈ tables.users.map User.publicKey :=
    List.mem_map_of_mem (f := User.publicKey) (Tables.idOf_eq_some.mp hid)
  obtain ⟨-, hidle⟩ := h.callers s.accepted le_rfl
  obtain ⟨as, d₁, hrun₁, hrests₁, hready₁, hspares₁⟩ := h.connects hkey hnone
  obtain ⟨bs, d₂, r, hrun₂, hrests₂, hready₂, hr, hspares₂⟩ :=
    asks_id (s := { s.joining key with db := d₁ }) id hrests₁ (by simp [joining, setStart])
      hready₁ (by rw [hspares₁.tables, h.tables, hid])
  obtain ⟨cs, d₃, hrun₃, hrests₃, hready₃, hspares₃⟩ :=
    enters (s := { s.joining key with db := d₂ }) hrests₂ (by simp [joining, setStart]) hready₂ hr
      (by rw [hspares₂.caller _ (by simp), hspares₁.caller _ (by simp), hidle]) hv
  have hspares : Spares [.start s.accepted, .delayed s.accepted] s.db d₃ :=
    ((hspares₁.mono (by simp)).trans (hspares₂.mono (by simp))).trans hspares₃
  have htables : d₂.tables = tables := by rw [hspares₂.tables, hspares₁.tables, h.tables]
  refine ⟨as ++ bs ++ cs, _,
    Lts.run_append.mpr ⟨_, Lts.run_append.mpr ⟨_, hrun₁, hrun₂⟩, hrun₃⟩, ?_⟩
  obtain ⟨channel, signal, socket, he, -⟩ := ({ s.joining key with db := d₂ } : Server).granted_eq
    s.accepted v { g with dbIndex := id }
  rw [he]
  constructor
  · refine ⟨hrests₃, hspares.tables.trans h.tables, fun c hc => ?_⟩
    have hne : c ≠ s.accepted := Nat.ne_of_gt (Nat.lt_of_succ_le hc)
    obtain ⟨hstart, hdelayed⟩ := h.callers c (Nat.le_of_succ_le hc)
    rw [← hspares.caller _ (by simp [hne])] at hstart hdelayed
    exact ⟨hstart, hdelayed⟩
  · rfl
  · rfl
  · simp [joining, setStart, setKey, setDelayed]
  · simp [joining, setStart, setKey, setDelayed]
  · simp [setDelayed]
  · rfl
  · rw [← htables]
    exact hready₃
  · exact hspares

/-- The client leaves the only slot, and the server stays quiet. -/
theorem LoggedIn.leaves {s t : Server} {key : PublicKey} {generation id : Nat}
    {v : SlotVector Client} (h : LoggedIn tables s key ⟨0, generation, id⟩ v t)
    (hc : v.clients = [⟨some (.new s.accepted), generation⟩]) (he : v.emptySlots = []) :
    t.step (.readFails s.accepted) = some (t.endConnection s.accepted) ∧
      Quiet tables (t.endConnection s.accepted) ∧
      (t.endConnection s.accepted).clientIndices =
        Function.update s.clientIndices key none ∧
      (t.endConnection s.accepted).clientsSlotVector.clients = [⟨none, generation⟩] ∧
      (t.endConnection s.accepted).clientsSlotVector.emptySlots = [0] := by
  have hq := h.quiet
  refine ⟨by simp [step, readFails, h.start], ⟨hq.resting, hq.tables, hq.callers⟩, ?_, ?_, ?_⟩
  · simp [endConnection, removeClient, setStart, h.connection, h.clientIndices]
  · simp [endConnection, removeClient, setStart, h.connection, h.clientsSlotVector, SlotVector.pop,
      hc, SlotVector.setSlot, Slot.clear]
  · simp [endConnection, removeClient, setStart, h.connection, h.clientsSlotVector, SlotVector.pop,
      hc, he]

end Server
end MydakServer
