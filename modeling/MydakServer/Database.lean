import MydakServer.RequestQueueFailure
import MydakServer.Tables

/-! The database component: its five operations as coroutines over the request queue, and
the statement `get_db_index` sends past the queue. -/
namespace MydakServer
variable {ι : Type*}

/-- The statement of which operation a coroutine waits for. -/
inductive Operation where
  | idle
  | addUserInsert (key : PublicKey)
  | addUserSelect (key : PublicKey)
  | addMessage
  | getDelayedMessages
  | deleteDelayedMessages
  deriving DecidableEq

/-- What an operation returns. -/
inductive Value where
  | userId (id : Nat)
  | messages (rows : List Row)
  | unit

/-- `connected` says that `connection.format_opts()` has a value. `lookup` is the coroutine
whose `get_db_index` has the thread inside the synchronous `connection.execute`. -/
structure Database (ι : Type*) where
  queue : RequestQueue ι Statement Results
  tables : Tables
  operation : ι → Operation := fun _ => .idle
  connected : Bool
  lookup : Option ι := none

namespace Database

def start (succeeds : StartStep → Bool) (tables : Tables) : Database ι :=
  { queue := .start succeeds, tables, connected := succeeds .connect }

/-- The id `get_db_index` returns: 0 when the statement or `at(0)` throws. -/
def getDbIndex (d : Database ι) (key : PublicKey) (succeeds : Bool) : Nat :=
  if d.connected && succeeds then
    match d.tables.exec (.selectUser key) with
    | some (r, _) => r.firstId.getD 0
    | none => 0
  else 0

variable [DecidableEq ι]

/-- An operation sends a statement through the queue and suspends. A statement that
cannot be formatted throws, and the operation returns `failed` at once. -/
def request (d : Database ι) (i : ι) (operation : Operation) (stmt : Statement)
    (failed : Value) : Option (Database ι × Option Value) :=
  if d.connected then
    (d.queue.asyncExecuteQueued i stmt).map fun q =>
      ({ d with queue := q, operation := Function.update d.operation i operation }, none)
  else some (d, some failed)

def addUser (d : Database ι) (i : ι) (key : PublicKey) : Option (Database ι × Option Value) :=
  d.request i (.addUserInsert key) (.insertUser key) (.userId maxUInt64)

def addMessage (d : Database ι) (i : ι) (index : Nat) (message : Message) :
    Option (Database ι × Option Value) :=
  d.request i .addMessage (.insertMessage index message) .unit

def getDelayedMessages (d : Database ι) (i : ι) (dbIndex : Nat) :
    Option (Database ι × Option Value) :=
  d.request i .getDelayedMessages (.selectMessages dbIndex) (.messages [])

/-- Returns at once when there is nothing to delete. -/
def deleteDelayedMessages (d : Database ι) (i : ι) (dbIndices : List Nat) :
    Option (Database ι × Option Value) :=
  if dbIndices.isEmpty then some (d, some .unit)
  else d.request i .deleteDelayedMessages (.deleteMessages dbIndices) .unit

/-- The operation continues with its results: it returns a value, or `add_user` sends its
second statement. -/
def resume (d : Database ι) (i : ι) : Option (Database ι × Option Value) :=
  (d.queue.take i).bind fun (r, q) =>
    let d' : Database ι := { d with queue := q, operation := Function.update d.operation i .idle }
    match d.operation i with
    | .addUserInsert key =>
      if 0 < r.affectedRows then some (d', some (.userId r.lastInsertId))
      else d'.request i (.addUserSelect key) (.selectUser key) (.userId maxUInt64)
    | .addUserSelect _ => some (d', some (.userId (r.firstId.getD maxUInt64)))
    | .addMessage => some (d', some .unit)
    | .getDelayedMessages => some (d', some (.messages r.messageRows))
    | .deleteDelayedMessages => some (d', some .unit)
    | .idle => none

def runLoop (d : Database ι) : Option (Database ι) :=
  d.queue.runLoop.map fun q => { d with queue := q }

/-- The statement in flight completes without an error. -/
def execute (d : Database ι) : Option (Database ι) :=
  match d.queue.loop with
  | .executing ref =>
    (d.queue.entryAt ref).bind fun e =>
    (d.tables.exec e.ticket.request).bind fun (r, t) =>
    (d.queue.complete r).map fun q => { d with queue := q, tables := t }
  | _ => none

/-- The statement in flight fails, with no effect on the tables. -/
def executeThrows (d : Database ι) : Option (Database ι) :=
  d.queue.throws.map fun q => { d with queue := q }

inductive Action (ι : Type*) where
  | addUser (i : ι) (key : PublicKey)
  | addMessage (i : ι) (index : Nat) (message : Message)
  | getDelayedMessages (i : ι) (dbIndex : Nat)
  | deleteDelayedMessages (i : ι) (dbIndices : List Nat)
  | getDbIndex (i : ι)
  | lookupReturns
  | resume (i : ι)
  | loop
  | execute
  | executeThrows

/-- What can happen while the thread is free. -/
def act (d : Database ι) : Action ι → Option (Database ι)
  | .addUser i key => (d.addUser i key).map Prod.fst
  | .addMessage i index message => (d.addMessage i index message).map Prod.fst
  | .getDelayedMessages i dbIndex => (d.getDelayedMessages i dbIndex).map Prod.fst
  | .deleteDelayedMessages i dbIndices => (d.deleteDelayedMessages i dbIndices).map Prod.fst
  | .getDbIndex i => some { d with lookup := some i }
  | .lookupReturns => none
  | .resume i => (d.resume i).map Prod.fst
  | .loop => d.runLoop
  | .execute => d.execute
  | .executeThrows => d.executeThrows

/-- While a lookup has the thread nothing else runs. -/
def step (d : Database ι) (a : Action ι) : Option (Database ι) :=
  match d.lookup, a with
  | none, a => d.act a
  | some _, .lookupReturns => some { d with lookup := none }
  | some _, _ => none

/-- Whether the loop's `async_execute` is pending. -/
def executing (d : Database ι) : Bool :=
  match d.queue.loop with
  | .executing _ => true
  | _ => false

/-- The number of statements in flight on the connection. -/
def inFlight (d : Database ι) : Nat := d.executing.toNat + d.lookup.isSome.toNat

def Action.isLookup : Action ι → Bool
  | .getDbIndex _ => true
  | _ => false

omit [DecidableEq ι] in
theorem inFlight_le_one {d : Database ι} :
    d.inFlight ≤ 1 ↔ (d.lookup.isSome → d.executing = false) := by
  unfold inFlight
  cases d.executing <;> cases d.lookup.isSome <;> simp

theorem request_cases {d d' : Database ι} {i : ι} {op : Operation} {stmt : Statement}
    {failed : Value} {v : Option Value} (h : d.request i op stmt failed = some (d', v)) :
    (d.connected = false ∧ d' = d ∧ v = some failed) ∨
      ∃ q, d.connected = true ∧ d.queue.asyncExecuteQueued i stmt = some q ∧
        d' = { d with queue := q, operation := Function.update d.operation i op } ∧
        v = none := by
  unfold request at h
  split at h
  · rename_i hc
    obtain ⟨q, hq, h⟩ := Option.map_eq_some_iff.mp h
    cases h
    exact .inr ⟨q, hc, hq, rfl, rfl⟩
  · rename_i hc
    cases h
    exact .inl ⟨by simpa using hc, rfl, rfl⟩

theorem deleteDelayedMessages_cases {d d' : Database ι} {i : ι} {ids : List Nat}
    {v : Option Value} (h : d.deleteDelayedMessages i ids = some (d', v)) :
    (ids = [] ∧ d' = d ∧ v = some .unit) ∨
      d.request i .deleteDelayedMessages (.deleteMessages ids) .unit = some (d', v) := by
  unfold deleteDelayedMessages at h
  split at h
  · rename_i he
    cases h
    exact .inl ⟨by simpa using he, rfl, rfl⟩
  · exact .inr h

/-- The value an operation returns once its last statement has the results `r`. -/
def returned (op : Operation) (r : Results) : Value :=
  match op with
  | .addUserInsert _ => .userId r.lastInsertId
  | .addUserSelect _ => .userId (r.firstId.getD maxUInt64)
  | .getDelayedMessages => .messages r.messageRows
  | _ => .unit

/-- A resumed operation takes its results and then either returns or asks again. -/
theorem resume_cases {d d' : Database ι} {i : ι} {v : Option Value}
    (h : d.resume i = some (d', v)) : ∃ r q, d.queue.take i = some (r, q) ∧
      let e : Database ι := { d with queue := q, operation := Function.update d.operation i .idle }
      (d' = e ∧ v = some (returned (d.operation i) r) ∧
        ∀ key, d.operation i = .addUserInsert key → 0 < r.affectedRows) ∨
      (∃ key, d.operation i = .addUserInsert key ∧ r.affectedRows = 0 ∧
        e.request i (.addUserSelect key) (.selectUser key) (.userId maxUInt64) =
          some (d', v)) := by
  obtain ⟨⟨r, q⟩, ht, hm⟩ := Option.bind_eq_some_iff.mp h
  refine ⟨r, q, ht, ?_⟩
  dsimp only at hm ⊢
  cases ho : d.operation i with
  | addUserInsert key =>
    simp only [ho] at hm
    split at hm
    · rename_i hr
      cases hm
      exact .inl ⟨rfl, rfl, fun _ _ => hr⟩
    · exact .inr ⟨key, rfl, by omega, hm⟩
  | idle => simp [ho] at hm
  | _ =>
    simp only [ho, Option.some.injEq, Prod.mk.injEq] at hm
    obtain ⟨rfl, rfl⟩ := hm
    exact .inl ⟨rfl, rfl, fun _ hk => by cases hk⟩

theorem execute_eq_some {d d' : Database ι} (h : d.execute = some d') : ∃ ref e r t q,
    d.queue.loop = .executing ref ∧ d.queue.entryAt ref = some e ∧
      d.tables.exec e.ticket.request = some (r, t) ∧ d.queue.complete r = some q ∧
      d' = { d with queue := q, tables := t } := by
  unfold execute at h
  split at h
  · rename_i ref hl
    obtain ⟨e, he, h⟩ := Option.bind_eq_some_iff.mp h
    obtain ⟨⟨r, t⟩, hx, h⟩ := Option.bind_eq_some_iff.mp h
    obtain ⟨q, hq, rfl⟩ := Option.map_eq_some_iff.mp h
    exact ⟨ref, e, r, t, q, hl, he, hx, hq, rfl⟩
  · cases h

theorem request_lookup {d d' : Database ι} {i : ι} {op : Operation} {stmt : Statement}
    {failed : Value} {v : Option Value} (h : d.request i op stmt failed = some (d', v)) :
    d'.lookup = d.lookup := by
  obtain ⟨-, rfl, -⟩ | ⟨q, -, -, rfl, -⟩ := request_cases h <;> rfl

/-- Only `get_db_index` takes the thread into a lookup. -/
theorem act_lookup {d d' : Database ι} {a : Action ι} (ha : a.isLookup = false)
    (hd : d.act a = some d') : d'.lookup = d.lookup := by
  cases a with
  | addUser i key =>
    obtain ⟨⟨e, v⟩, he, rfl⟩ := Option.map_eq_some_iff.mp hd
    exact request_lookup he
  | addMessage i index message =>
    obtain ⟨⟨e, v⟩, he, rfl⟩ := Option.map_eq_some_iff.mp hd
    exact request_lookup he
  | getDelayedMessages i dbIndex =>
    obtain ⟨⟨e, v⟩, he, rfl⟩ := Option.map_eq_some_iff.mp hd
    exact request_lookup he
  | deleteDelayedMessages i ids =>
    obtain ⟨⟨e, v⟩, he, rfl⟩ := Option.map_eq_some_iff.mp hd
    obtain ⟨-, rfl, -⟩ | hr := deleteDelayedMessages_cases he
    · rfl
    · exact request_lookup hr
  | getDbIndex i => cases ha
  | lookupReturns => cases hd
  | resume i =>
    obtain ⟨⟨e, v⟩, he, rfl⟩ := Option.map_eq_some_iff.mp hd
    obtain ⟨r, q, -, ⟨rfl, -⟩ | ⟨key, -, -, hr⟩⟩ := resume_cases he
    · rfl
    · exact request_lookup (d := { d with queue := q, operation := _ }) hr
  | loop =>
    obtain ⟨q, -, rfl⟩ := Option.map_eq_some_iff.mp hd
    rfl
  | execute =>
    obtain ⟨ref, e, r, t, q, -, -, -, -, rfl⟩ := execute_eq_some hd
    rfl
  | executeThrows =>
    obtain ⟨q, -, rfl⟩ := Option.map_eq_some_iff.mp hd
    rfl

/-- After a step that is no lookup during an execution at most one statement is in flight. -/
theorem inFlight_step {d d' : Database ι} {a : Action ι}
    (hc : a.isLookup → d.executing = false) (hd : d.step a = some d') : d'.inFlight ≤ 1 := by
  rw [inFlight_le_one]
  cases hl : d.lookup with
  | some j =>
    cases a with
    | lookupReturns =>
      simp only [step, hl, Option.some.injEq] at hd
      simp [← hd]
    | _ => simp [step, hl] at hd
  | none =>
    have hd : d.act a = some d' := by cases a <;> simpa [step, hl] using hd
    cases ha : a.isLookup with
    | false => simp [act_lookup ha hd, hl]
    | true =>
      cases a with
      | getDbIndex i =>
        simp only [act, Option.some.injEq] at hd
        intro _
        rw [← hd]
        exact hc ha
      | _ => cases ha

/-- One statement at a time on the connection, in every state of a run, exactly when no
`get_db_index` is called in it while the loop's statement is in flight. -/
theorem one_in_flight_iff (succeeds : StartStep → Bool) (tables : Tables) (as : List (Action ι))
    (d : Database ι) (hr : Lts.run step (start succeeds tables) as = some d) :
    Lts.Always step (fun d => d.inFlight ≤ 1) (start succeeds tables) as ↔
      Lts.Along step (fun d a => a.isLookup → d.executing = false) (start succeeds tables) as := by
  constructor
  · refine Lts.along_of_always (fun s a t hs _ ht ha => ?_) hr
    cases a with
    | getDbIndex i =>
      cases hl : s.lookup with
      | some j => simp [step, hl] at hs
      | none =>
        simp only [step, hl, act, Option.some.injEq] at hs
        rw [← hs, inFlight_le_one] at ht
        exact ht rfl
    | _ => cases ha
  · refine Lts.always (fun s a t _ hc hs => inFlight_step hc hs) ?_
    simp [inFlight_le_one, start]

/-- A recipient is looked up while the loop's first statement is in flight. -/
theorem not_one_in_flight :
    ¬ Lts.Always step (fun d : Database Nat => d.inFlight ≤ 1) (start (fun _ => true) .empty)
      [.loop, .addUser 0 (.replicate 32 1), .loop, .getDbIndex 1] := by
  intro h
  have := h _ (List.prefix_refl _) _ rfl
  exact absurd this (by decide)

/-- The same lookup after the statement has completed. -/
theorem one_in_flight_lookup_later :
    Lts.Always step (fun d : Database Nat => d.inFlight ≤ 1) (start (fun _ => true) .empty)
      [.loop, .addUser 0 (.replicate 32 1), .loop, .execute, .getDbIndex 1] :=
  (one_in_flight_iff (fun _ => true) .empty [.loop, .addUser 0 (.replicate 32 1), .loop, .execute,
    .getDbIndex 1] _ rfl).mpr (by simp [Lts.Along, Action.isLookup]; decide)

end Database
end MydakServer
