import MydakServer.DatabaseAnswers

/-! What `get_delayed_messages` returns: the messages of its user after all statements queued
before its own have been executed. -/
namespace MydakServer
variable {ι : Type*} [DecidableEq ι]

/-- The messages that the coroutine's `SELECT` finds if the pending statements, oldest first, are
executed one after the other. -/
def Tables.rowsAt (t : Tables) (i : ι) : List (ι × Statement) → List Row
  | [] => []
  | (j, stmt) :: rest =>
    match t.exec stmt with
    | some (r, t') => if j = i then r.messageRows else t'.rowsAt i rest
    | none => []

/-- The data of the messages that a pending statement will store. -/
def Statement.inserted : Statement → Option Message
  | .insertMessage _ data => some data
  | _ => none

theorem Tables.rowsAt_append (t : Tables) {i j : ι} (hj : j ≠ i) (stmt : Statement)
    (calls : List (ι × Statement)) : t.rowsAt i (calls ++ [(j, stmt)]) = t.rowsAt i calls := by
  induction calls generalizing t with
  | nil =>
    simp only [List.nil_append, rowsAt, if_neg hj]
    split <;> rfl
  | cons x calls ih =>
    obtain ⟨k, stmt'⟩ := x
    simp only [List.cons_append, rowsAt]
    cases t.exec stmt' with
    | none => rfl
    | some p =>
      obtain ⟨r, t'⟩ := p
      simp only [ih]

/-- What is stored is kept in the order in which it was stored. -/
theorem Tables.exec_stored {t t' : Tables} {stmt : Statement} {r : Results}
    (h : t.exec stmt = some (r, t')) :
    (t'.messages.map Row.data).Sublist (t.messages.map Row.data ++ stmt.inserted.toList) := by
  cases stmt with
  | insertUser key =>
    simp only [exec] at h
    split at h
    · cases h
      simp [Statement.inserted]
    · split at h <;> cases h
      simp [Statement.inserted, addUser]
  | insertMessage userId data =>
    simp only [exec] at h
    split at h
    · split at h <;> cases h
      simp [Statement.inserted, addRow]
    · cases h
  | deleteMessages ids =>
    cases h
    simpa [Statement.inserted, removeRows] using List.filter_sublist.map _
  | _ =>
    cases h
    simp [Statement.inserted]

theorem Tables.exec_rows {t t' : Tables} {stmt : Statement} {r : Results}
    (h : t.exec stmt = some (r, t')) : r.messageRows.Sublist t.messages := by
  cases stmt with
  | selectMessages userId =>
    cases h
    exact List.filter_sublist
  | insertUser key =>
    simp only [exec] at h
    split at h
    · cases h
      simp [Results.messageRows]
    · split at h <;> cases h
      simp [Results.messageRows]
  | insertMessage userId data =>
    simp only [exec] at h
    split at h
    · split at h <;> cases h
      simp [Results.messageRows]
    · cases h
  | _ =>
    cases h
    simp [Results.messageRows]

/-- What the `SELECT` finds is stored now or waits to be stored, in this order. -/
theorem Tables.rowsAt_stored (t : Tables) (i : ι) (calls : List (ι × Statement)) :
    ((t.rowsAt i calls).map Row.data).Sublist
      (t.messages.map Row.data ++ (calls.map Prod.snd).filterMap Statement.inserted) := by
  induction calls generalizing t with
  | nil => simp [rowsAt]
  | cons x calls ih =>
    obtain ⟨j, stmt⟩ := x
    simp only [rowsAt]
    cases hx : t.exec stmt with
    | none => simp
    | some p =>
      obtain ⟨r, t'⟩ := p
      have hcons : (((j, stmt) :: calls).map Prod.snd).filterMap Statement.inserted =
          stmt.inserted.toList ++ (calls.map Prod.snd).filterMap Statement.inserted := by
        cases h : stmt.inserted <;> simp [h]
      rw [hcons, ← List.append_assoc]
      by_cases hj : j = i
      · simp only [if_pos hj]
        refine ((exec_rows hx).map _).trans ?_
        rw [List.append_assoc]
        exact List.sublist_append_left _ _
      · simp only [if_neg hj]
        exact (ih t').trans ((exec_stored hx).append_right _)

namespace Database
open RequestQueue

/-- The pending statements with the coroutines that wait for them, oldest first. -/
def calls (d : Database ι) : List (ι × Statement) :=
  d.queue.pending.map fun e => (e.ticket.caller, e.ticket.request)

/-- The messages that the coroutine has read or will read from the results it waits for. -/
def found (d : Database ι) (i : ι) : List Row :=
  match d.queue.caller i with
  | .suspended _ _ => d.tables.rowsAt i d.calls
  | .resumed _ _ => ((d.queue.results i).map Results.messageRows).getD []
  | .idle => []

/-- Whether the statement of the coroutine has not been executed yet. -/
def awaits (d : Database ι) (i : ι) : Bool :=
  match d.queue.caller i with
  | .suspended _ _ => true
  | _ => false

/-- The messages that are stored, and those that the pending statements will store. -/
def stored (d : Database ι) : List Message :=
  d.tables.messages.map Row.data ++ d.pending.filterMap Statement.inserted

omit [DecidableEq ι] in
theorem calls_snd (d : Database ι) : d.calls.map Prod.snd = d.pending := by
  simp [calls, pending]

theorem found_stored {d : Database ι} {i : ι} (h : d.awaits i) :
    ((d.found i).map Row.data).Sublist d.stored := by
  unfold awaits at h
  unfold found stored
  split at h
  · rename_i ref stmt hi
    rw [hi, ← calls_snd]
    exact d.tables.rowsAt_stored i d.calls
  · cases h

/-- For the coroutine nothing has changed, or only that its statement has been executed, where
`x` says that this was the statement to be executed. -/
structure Undisturbed (x : Prop) (d d' : Database ι) (i : ι) : Prop where
  found : d'.found i = d.found i
  awaits : d'.awaits i → d.awaits i
  executed : d.awaits i → d'.awaits i ∨ x

variable {x : Prop}

theorem Undisturbed.of_eq {d d' : Database ι} {i : ι} (hf : d'.found i = d.found i)
    (ha : d'.awaits i = d.awaits i) : Undisturbed x d d' i :=
  ⟨hf, fun h => ha ▸ h, fun h => .inl (ha ▸ h)⟩

theorem Undisturbed.refl (d : Database ι) (i : ι) : Undisturbed x d d i := .of_eq rfl rfl

theorem Undisturbed.trans {d e f : Database ι} {i : ι} (h : Undisturbed x d e i)
    (h' : Undisturbed x e f i) : Undisturbed x d f i :=
  ⟨h'.found.trans h.found, fun hf => h.awaits (h'.awaits hf),
    fun hd => (h.executed hd).elim h'.executed .inr⟩

theorem Undisturbed.mono {y : Prop} {d d' : Database ι} {i : ι} (h : Undisturbed x d d' i)
    (hxy : x → y) : Undisturbed y d d' i :=
  ⟨h.found, h.awaits, fun hd => (h.executed hd).imp_right hxy⟩

/-- Another coroutine queues a statement. -/
theorem request_undisturbed {d d' : Database ι} (h : d.queue.Coherent) {i j : ι}
    (hj : j ≠ i) {op : Operation} {stmt : Statement} {failed : Value} {v : Option Value}
    (hd : d.request j op stmt failed = some (d', v)) : Undisturbed x d d' i := by
  obtain ⟨-, rfl, -⟩ | ⟨q, -, hq, rfl, -⟩ := request_cases hd
  · exact .refl _ i
  · obtain ⟨-, rfl⟩ := h.asyncExecuteQueued hq
    have hcaller : (d.queue.queuedBy j stmt).caller i = d.queue.caller i := by
      simp [queuedBy, Function.update_of_ne (Ne.symm hj)]
    refine .of_eq ?_ (by simp only [awaits, hcaller])
    unfold found
    rw [hcaller]
    split
    · simp only [calls, h.pending_queuedBy, List.map_append, List.map_cons,
        List.map_nil]
      exact d.tables.rowsAt_append hj stmt _
    · rfl
    · rfl

/-- The coroutine that queues a statement waits for it. -/
theorem request_awaits {d d' : Database ι} (h : d.queue.Coherent) {i : ι} {op : Operation}
    {stmt : Statement} {failed : Value} (hd : d.request i op stmt failed = some (d', none)) :
    d'.awaits i := by
  obtain ⟨-, -, hv⟩ | ⟨q, -, hq, rfl, -⟩ := request_cases hd
  · cases hv
  · obtain ⟨-, rfl⟩ := h.asyncExecuteQueued hq
    simp [awaits, queuedBy]

theorem take_undisturbed {d : Database ι} {i j : ι} (hj : j ≠ i) {r : Results}
    {q : RequestQueue ι Statement Results} (hq : d.queue.take j = some (r, q))
    (operation : ι → Operation) : Undisturbed x d { d with queue := q, operation } i := by
  obtain ⟨-, -, rfl⟩ := take_eq_some.mp hq
  refine .of_eq ?_ (by simp only [awaits, Function.update_of_ne (Ne.symm hj)])
  simp only [found, Function.update_of_ne (Ne.symm hj)]
  rfl

/-- Another coroutine goes on. -/
theorem resume_undisturbed {d d' : Database ι} (h : d.queue.Coherent) {i j : ι}
    (hj : j ≠ i) {v : Option Value} (hd : d.resume j = some (d', v)) : Undisturbed x d d' i := by
  obtain ⟨r, q, ht, ⟨rfl, -⟩ | ⟨key, -, -, hreq⟩⟩ := resume_cases hd
  · exact take_undisturbed hj ht _
  · exact (take_undisturbed hj ht (Function.update d.operation j .idle)).trans
      (request_undisturbed (h.take ht) hj hreq)

/-- What a resumed `get_delayed_messages` returns. -/
theorem found_of_resume {d d' : Database ι} {i : ι} {rows : List Row}
    (hd : d.resume i = some (d', some (.messages rows))) (h : d.operation i = .getDelayedMessages) :
    d.found i = rows ∧ d.awaits i = false := by
  obtain ⟨r, q, ht, ⟨-, hv, -⟩ | ⟨key, hop, -⟩⟩ := resume_cases hd
  · obtain ⟨⟨ref, stmt, hi⟩, hr, -⟩ := take_eq_some.mp ht
    rw [h] at hv
    cases hv
    simp [found, awaits, hi, hr]
  · rw [h] at hop
    cases hop

theorem runLoop_undisturbed {d d' : Database ι} (h : d.queue.Coherent)
    (hd : d.runLoop = some d') (i : ι) : Undisturbed x d d' i := by
  obtain ⟨q, hq, rfl⟩ := Option.map_eq_some_iff.mp hd
  obtain ⟨hp, hc, hr, -⟩ := h.runLoop_keeps hq
  exact .of_eq (by simp only [found, calls, hc, hr, hp]) (by simp only [awaits, hc])

theorem executeThrows_undisturbed {d d' : Database ι} (hd : d.executeThrows = some d') (i : ι) :
    Undisturbed x d d' i := by
  obtain ⟨q, hq, rfl⟩ := Option.map_eq_some_iff.mp hd
  obtain ⟨hp, hc, hr, -⟩ := throws_keeps hq
  exact .of_eq (by simp only [found, calls, hc, hr, hp]) (by simp only [awaits, hc])

/-- A statement that is executed finds what it was to find. -/
theorem execute_undisturbed {d d' : Database ι} (h : d.queue.Coherent)
    (hd : d.execute = some d') (i : ι) :
    Undisturbed (d.calls.head?.map Prod.fst = some i) d d' i := by
  obtain ⟨ref, e, r, t, q, hl, he, hx, hq, rfl⟩ := execute_eq_some hd
  obtain ⟨e', rest, hl', hb, rfl⟩ := h.complete_eq hq
  obtain rfl : ref = e'.ticket.id := by simpa [hl] using hl'
  obtain rfl : e = e' := by simpa [entryAt, hb] using he.symm
  have hp : d.queue.pending = e :: rest := by simp [RequestQueue.pending, served, hl, hb]
  have hawait := (h.awaited e (by simp [hp])).1
  have hcalls : d.calls = (e.ticket.caller, e.ticket.request) ::
      rest.map fun e => (e.ticket.caller, e.ticket.request) := by
    simp [calls, hp]
  have hcalls' : calls { d with queue := d.queue.completedBy e rest r, tables := t } =
      rest.map fun e => (e.ticket.caller, e.ticket.request) := by
    simp [calls, RequestQueue.pending, completedBy, served]
  by_cases hi : i = e.ticket.caller
  · subst hi
    refine ⟨?_, ?_, fun _ => .inr (by simp [hcalls])⟩
    · simp [found, hawait, hcalls, Tables.rowsAt, hx, completedBy]
    · simp [awaits, completedBy]
  · have hcaller : (d.queue.completedBy e rest r).caller i = d.queue.caller i := by
      simp [completedBy, Function.update_of_ne hi]
    have hresults : (d.queue.completedBy e rest r).results i = d.queue.results i := by
      simp [completedBy, Function.update_of_ne hi]
    refine .of_eq ?_ (by simp only [awaits, hcaller])
    unfold found
    rw [hcaller, hresults, hcalls']
    cases d.queue.caller i with
    | suspended ref stmt => simp [hcalls, Tables.rowsAt, hx, Ne.symm hi]
    | _ => rfl

end Database
end MydakServer
