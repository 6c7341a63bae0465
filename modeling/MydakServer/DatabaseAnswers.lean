import MydakServer.Database

/-! What the coroutines that use the database can rely on: each operation waits for its
own statement, and what it returns is what that statement found. -/
namespace MydakServer
open RequestQueue
variable {ι : Type*}

/-- Whether the statement is one the operation waits for. -/
def Operation.Sends : Operation → Statement → Prop
  | .addUserInsert key, stmt => stmt = .insertUser key
  | .addUserSelect key, stmt => stmt = .selectUser key
  | .addMessage, stmt => ∃ userId data, stmt = .insertMessage userId data
  | .getDelayedMessages, stmt => ∃ userId, stmt = .selectMessages userId
  | .deleteDelayedMessages, stmt => ∃ ids, stmt = .deleteMessages ids
  | .idle, _ => False

/-- What the value an operation returns after the statement says about the tables. -/
def Answers (I : Tables → Prop) (t : Tables) : Statement → Value → Prop
  | .insertUser key, .userId id | .selectUser key, .userId id =>
    id = maxUInt64 ∨ ⟨id, key⟩ ∈ t.users
  | .selectMessages userId, .messages rows =>
    ∀ row ∈ rows, row.userId = userId ∧ Tables.Fetched I t row
  | .insertMessage _ _, .unit | .deleteMessages _, .unit => True
  | _, _ => False

namespace Database

/-- The statement the coroutine waits for, or whose results it has not read yet. -/
def asked (d : Database ι) (i : ι) : Option Statement :=
  match d.queue.caller i with
  | .idle => none
  | .suspended _ stmt | .resumed _ stmt => some stmt

/-- The statements that have been queued and not executed, oldest first. -/
def pending (d : Database ι) : List Statement := d.queue.pending.map (·.ticket.request)

/-- All statements that have been queued. -/
def issued (d : Database ι) : List Statement := d.queue.history.queued.map Ticket.request

structure Answered (I : Tables → Prop) (d : Database ι) : Prop where
  coherent : d.queue.Coherent
  tables : I d.tables
  sends : ∀ i stmt, d.asked i = some stmt → (d.operation i).Sends stmt
  reports : ∀ i ref stmt r, d.queue.caller i = .resumed ref stmt → d.queue.results i = some r →
    Tables.Reports I d.tables stmt r

/-- The same statements, callers and tables. -/
structure Keeps (d d' : Database ι) : Prop where
  tables : d'.tables = d.tables
  connected : d'.connected = d.connected
  asked : d'.asked = d.asked
  pending : d'.pending = d.pending
  issued : d'.issued = d.issued

variable {I : Tables → Prop}

theorem start_answered (succeeds : StartStep → Bool) {tables : Tables} (hI : I tables) :
    Answered I (start succeeds tables : Database ι) where
  coherent := start_coherent succeeds
  tables := hI
  sends := by
    intro i stmt h
    simp [start, asked, start_caller] at h
  reports := by
    intro i ref stmt r h
    simp [start, start_caller] at h

/-- Every statement that is pending was queued. -/
theorem Answered.pending_subset {d : Database ι} (h : Answered I d) : d.pending ⊆ d.issued := by
  intro stmt hs
  obtain ⟨e, he, rfl⟩ := List.mem_map.mp hs
  refine List.mem_map.mpr ⟨e.ticket, ?_, rfl⟩
  rw [h.coherent.queued]
  exact List.mem_append_right _ (List.mem_map_of_mem (List.mem_of_mem_drop he))

theorem start_issued (succeeds : StartStep → Bool) (tables : Tables) :
    (start succeeds tables : Database ι).issued = [] := by
  simp only [issued, start, RequestQueue.start]
  split <;> rfl

theorem start_pending (succeeds : StartStep → Bool) (tables : Tables) :
    (start succeeds tables : Database ι).pending = [] := by
  have h : Answered (fun _ => True) (start succeeds tables : Database ι) :=
    start_answered succeeds trivial
  have hsub := h.pending_subset
  rw [start_issued] at hsub
  exact List.subset_nil.mp hsub

theorem Answered.runLoop [DecidableEq ι] {d d' : Database ι} (h : Answered I d)
    (hd : d.runLoop = some d') : Answered I d' ∧ Keeps d d' := by
  obtain ⟨q, hq, rfl⟩ := Option.map_eq_some_iff.mp hd
  obtain ⟨hp, hc, hr, hh⟩ := h.coherent.runLoop_keeps hq
  have hasked : asked { d with queue := q } = d.asked := by
    funext i
    simp [asked, hc]
  refine ⟨⟨h.coherent.runLoop hq, h.tables, ?_, ?_⟩, rfl, rfl, hasked, by simp [pending, hp],
    by simp [issued, hh]⟩
  · simpa [hasked] using h.sends
  · simpa [hc, hr] using h.reports

theorem Answered.executeThrows [DecidableEq ι] {d d' : Database ι} (h : Answered I d)
    (hd : d.executeThrows = some d') : Answered I d' ∧ Keeps d d' := by
  obtain ⟨q, hq, rfl⟩ := Option.map_eq_some_iff.mp hd
  obtain ⟨hp, hc, hr, hh⟩ := throws_keeps hq
  have hasked : asked { d with queue := q } = d.asked := by
    funext i
    simp [asked, hc]
  refine ⟨⟨h.coherent.throws hq, h.tables, ?_, ?_⟩, rfl, rfl, hasked, by simp [pending, hp],
    by simp [issued, hh]⟩
  · simpa [hasked] using h.sends
  · simpa [hc, hr] using h.reports

variable [DecidableEq ι]

/-- The coroutine's operation has sent a statement and suspended. -/
structure Requested (d : Database ι) (i : ι) (stmt : Statement) (d' : Database ι) : Prop where
  tables : d'.tables = d.tables
  connected : d'.connected = d.connected
  free : d.asked i = none
  asked : d'.asked = Function.update d.asked i (some stmt)
  pending : d'.pending = d.pending ++ [stmt]
  issued : d'.issued = d.issued ++ [stmt]

/-- The coroutine's operation has read its results. -/
structure Released (d : Database ι) (i : ι) (d' : Database ι) : Prop where
  tables : d'.tables = d.tables
  connected : d'.connected = d.connected
  asked : d'.asked = Function.update d.asked i none
  pending : d'.pending = d.pending
  issued : d'.issued = d.issued

theorem Answered.request {d d' : Database ι} (h : Answered I d) {i : ι} {op : Operation}
    {stmt : Statement} {failed : Value} {v : Option Value}
    (hd : d.request i op stmt failed = some (d', v)) (hs : op.Sends stmt) :
    Answered I d' ∧ ((d.connected = false ∧ d' = d ∧ v = some failed) ∨
      (d.connected = true ∧ v = none ∧ Requested d i stmt d')) := by
  obtain ⟨hc, rfl, rfl⟩ | ⟨q, hc, hq, rfl, rfl⟩ := request_cases hd
  · exact ⟨h, .inl ⟨hc, rfl, rfl⟩⟩
  · obtain ⟨hi, rfl⟩ := h.coherent.asyncExecuteQueued hq
    have hasked : asked { d with
        queue := d.queue.queuedBy i stmt, operation := Function.update d.operation i op } =
        Function.update d.asked i (some stmt) := by
      funext j
      by_cases hj : j = i
      · subst hj
        simp [asked, queuedBy]
      · simp [asked, queuedBy, Function.update_of_ne hj]
    refine ⟨⟨h.coherent.queuedBy stmt hi, h.tables, ?_, ?_⟩, .inr ⟨hc, rfl, rfl, rfl, ?_, hasked,
      ?_, by simp [issued, queuedBy]⟩⟩
    · intro j stmt' hj
      rw [hasked] at hj
      by_cases hji : j = i
      · subst hji
        simp only [Function.update_self, Option.some.injEq] at hj
        simpa [← hj] using hs
      · simpa [Function.update_of_ne hji] using
          h.sends j stmt' (by simpa [Function.update_of_ne hji] using hj)
    · intro j ref stmt' r hj hr
      have hji : j ≠ i := by
        intro heq
        subst heq
        simp [queuedBy] at hj
      exact h.reports j ref stmt' r (by simpa [queuedBy, Function.update_of_ne hji] using hj) hr
    · simp [asked, hi]
    · simp [pending, h.coherent.pending_queuedBy]

theorem Answered.deleteDelayedMessages {d d' : Database ι} (h : Answered I d) {i : ι}
    {ids : List Nat} {v : Option Value} (hd : d.deleteDelayedMessages i ids = some (d', v)) :
    Answered I d' ∧ ((d' = d ∧ v = some .unit) ∨
      (v = none ∧ Requested d i (.deleteMessages ids) d')) := by
  obtain ⟨-, rfl, rfl⟩ | hr := deleteDelayedMessages_cases hd
  · exact ⟨h, .inl ⟨rfl, rfl⟩⟩
  · obtain ⟨h', ⟨-, rfl, rfl⟩ | ⟨-, rfl, hq⟩⟩ := h.request hr ⟨ids, rfl⟩
    · exact ⟨h', .inl ⟨rfl, rfl⟩⟩
    · exact ⟨h', .inr ⟨rfl, hq⟩⟩

theorem answers_returned {t : Tables} {op : Operation} {stmt : Statement} {r : Results}
    (hs : op.Sends stmt) (hr : Tables.Reports I t stmt r)
    (hi : ∀ key, op = .addUserInsert key → 0 < r.affectedRows) :
    Answers I t stmt (returned op r) := by
  cases op with
  | idle => exact hs.elim
  | addUserInsert key =>
    obtain rfl : stmt = .insertUser key := hs
    exact .inr (hr (hi key rfl))
  | addUserSelect key =>
    obtain rfl : stmt = .selectUser key := hs
    cases hf : r.firstId with
    | none => exact .inl (by simp [hf])
    | some id => exact .inr (by simpa [hf] using hr id hf)
  | addMessage =>
    obtain ⟨userId, data, rfl⟩ := hs
    trivial
  | getDelayedMessages =>
    obtain ⟨userId, rfl⟩ := hs
    exact hr
  | deleteDelayedMessages =>
    obtain ⟨ids, rfl⟩ := hs
    trivial

/-- A resumed operation returns what its statement found, or `add_user` asks for the row
that was there already. -/
theorem Answered.resume {d d' : Database ι} (h : Answered I d) {i : ι} {v : Option Value}
    (hd : d.resume i = some (d', v)) : Answered I d' ∧ ∃ stmt, d.asked i = some stmt ∧
      ((∃ value, v = some value ∧ Answers I d.tables stmt value ∧ Released d i d') ∨
        ∃ key e, stmt = .insertUser key ∧ v = none ∧ Released d i e ∧
          Requested e i (.selectUser key) d') := by
  obtain ⟨r, q, ht, hv⟩ := resume_cases hd
  have hq := h.coherent.take ht
  obtain ⟨⟨ref, stmt, hi⟩, hr, rfl⟩ := take_eq_some.mp ht
  have hasked : d.asked i = some stmt := by simp [asked, hi]
  have hsends := h.sends i stmt hasked
  have hreports := h.reports i ref stmt r hi hr
  have hrel : Released d i { d with
      queue := { d.queue with caller := Function.update d.queue.caller i .idle }
      operation := Function.update d.operation i .idle } := by
    refine ⟨rfl, rfl, ?_, rfl, rfl⟩
    funext j
    by_cases hj : j = i
    · subst hj
      simp [asked]
    · simp [asked, Function.update_of_ne hj]
  have hans : Answered I { d with
      queue := { d.queue with caller := Function.update d.queue.caller i .idle }
      operation := Function.update d.operation i .idle } := by
    refine ⟨hq, h.tables, ?_, ?_⟩
    · intro j stmt' hj
      rw [hrel.asked] at hj
      have hji : j ≠ i := by
        intro heq
        subst heq
        simp at hj
      simpa [Function.update_of_ne hji] using
        h.sends j stmt' (by simpa [Function.update_of_ne hji] using hj)
    · intro j ref' stmt' r' hj hr'
      have hji : j ≠ i := by
        intro heq
        subst heq
        simp at hj
      exact h.reports j ref' stmt' r' (by simpa [Function.update_of_ne hji] using hj) hr'
  dsimp only at hv
  obtain ⟨rfl, rfl, hins⟩ | ⟨key, hop, -, hreq⟩ := hv
  · exact ⟨hans, stmt, hasked, .inl ⟨_, rfl, answers_returned hsends hreports hins, hrel⟩⟩
  · rw [hop] at hsends
    obtain rfl : stmt = .insertUser key := hsends
    obtain ⟨h', ⟨-, rfl, rfl⟩ | ⟨-, rfl, hq'⟩⟩ := hans.request hreq rfl
    · exact ⟨h', _, hasked, .inl ⟨_, rfl, .inl rfl, hrel⟩⟩
    · exact ⟨h', _, hasked, .inr ⟨key, _, rfl, rfl, hrel, hq'⟩⟩

/-- The oldest pending statement is executed, and its caller can read the results. -/
theorem Answered.execute {d d' : Database ι} (h : Answered I d)
    (hI : ∀ stmt r t, stmt ∈ d.pending → d.tables.exec stmt = some (r, t) → I t)
    (hd : d.execute = some d') : Answered I d' ∧ d'.connected = d.connected ∧
      d'.asked = d.asked ∧ d'.issued = d.issued ∧ ∃ stmt r, d.pending = stmt :: d'.pending ∧
        d.tables.exec stmt = some (r, d'.tables) := by
  obtain ⟨ref, e, r, t, q, hl, he, hx, hq, rfl⟩ := execute_eq_some hd
  obtain ⟨e', rest, hl', hb, rfl⟩ := h.coherent.complete_eq hq
  obtain rfl : ref = e'.ticket.id := by simpa [hl] using hl'
  obtain rfl : e = e' := by simpa [entryAt, hb] using he.symm
  have hp : d.queue.pending = e :: rest := by simp [RequestQueue.pending, served, hl, hb]
  have hawait := (h.coherent.awaited e (by simp [hp])).1
  have hpending : d.pending = e.ticket.request :: rest.map (·.ticket.request) := by
    simp [pending, hp]
  have hasked : asked { d with queue := d.queue.completedBy e rest r, tables := t } =
      d.asked := by
    funext j
    by_cases hj : j = e.ticket.caller
    · subst hj
      simp [asked, completedBy, hawait]
    · simp [asked, completedBy, Function.update_of_ne hj]
  refine ⟨⟨h.coherent.completedBy r hl hb, hI _ r t (by simp [hpending]) hx, ?_, ?_⟩, rfl, hasked,
    rfl, e.ticket.request, r, ?_, hx⟩
  · simpa [hasked] using h.sends
  · intro j ref' stmt r' hj hr'
    by_cases hje : j = e.ticket.caller
    · subst hje
      simp only [completedBy, Function.update_self, CallerState.resumed.injEq,
        Option.some.injEq] at hj hr'
      obtain ⟨-, rfl⟩ := hj
      subst hr'
      exact Tables.exec_reports h.tables hx
    · simp only [completedBy, Function.update_of_ne hje] at hj hr'
      exact (h.reports j ref' stmt r' hj hr').evolves (Tables.exec_evolves hx)
  · rw [hpending]
    simp [pending, RequestQueue.pending, completedBy, served]

end Database
end MydakServer
