import MydakServer.Fetches

/-! The statements that the connection has executed, with their coroutines and their results: a
log that leads from the tables at the start to those there are now. -/
namespace MydakServer
open RequestQueue
variable {ι : Type*}

namespace Tables

/-- From `t` on the statements were executed with these results, and left `t'`. -/
def Replays : Tables → List (ι × Statement × Results) → Tables → Prop
  | t, [], t' => t' = t
  | t, (_, stmt, r) :: log, t' => ∃ u, t.exec stmt = some (r, u) ∧ u.Replays log t'

theorem replays_append {t t' : Tables} {log log' : List (ι × Statement × Results)} :
    t.Replays (log ++ log') t' ↔ ∃ u, t.Replays log u ∧ u.Replays log' t' := by
  induction log generalizing t with
  | nil => simp [Replays]
  | cons x log ih =>
    simp only [List.cons_append, Replays, ih]
    constructor
    · rintro ⟨v, hv, u, hu, h⟩
      exact ⟨u, ⟨v, hv, hu⟩, h⟩
    · rintro ⟨u, ⟨v, hv, hu⟩, h⟩
      exact ⟨v, hv, u, hu, h⟩

theorem replays_single {t t' : Tables} {x : ι × Statement × Results} :
    t.Replays [x] t' ↔ t.exec x.2.1 = some (x.2.2, t') := by
  constructor
  · rintro ⟨u, hu, rfl⟩
    exact hu
  · exact fun h => ⟨t', h, rfl⟩

/-- A row stays until a `DELETE` names it. -/
theorem Replays.keeps {t t' : Tables} {log : List (ι × Statement × Results)}
    (h : t.Replays log t') {row : Row} (hr : row ∈ t.messages) :
    row ∈ t'.messages ∨ ∃ x ∈ log, ∃ ids, x.2.1 = .deleteMessages ids ∧ row.id ∈ ids := by
  induction log generalizing t with
  | nil =>
    obtain rfl : t' = t := h
    exact .inl hr
  | cons x log ih =>
    obtain ⟨u, hu, h⟩ := h
    obtain hr | ⟨ids, hids, hid⟩ := exec_keeps hu hr
    · exact (ih h hr).imp_right fun ⟨y, hy, hdel⟩ => ⟨y, List.mem_cons_of_mem _ hy, hdel⟩
    · exact .inr ⟨x, List.mem_cons_self, ids, hids, hid⟩

theorem Replays.unique {t u v : Tables} {log : List (ι × Statement × Results)}
    (hu : t.Replays log u) (hv : t.Replays log v) : u = v := by
  induction log generalizing t with
  | nil => exact Eq.trans hu (Eq.symm hv)
  | cons x log ih =>
    obtain ⟨w, hw, hu⟩ := hu
    obtain ⟨w', hw', hv⟩ := hv
    obtain rfl : w = w' := congrArg Prod.snd (Option.some.inj (hw.symm.trans hw'))
    exact ih hu hv

theorem Replays.evolves {t t' : Tables} {log : List (ι × Statement × Results)}
    (h : t.Replays log t') : t.Evolves t' := by
  induction log generalizing t with
  | nil =>
    obtain rfl : t' = t := h
    exact Evolves.refl _
  | cons x log ih =>
    obtain ⟨u, hu, h⟩ := h
    exact (exec_evolves hu).trans (ih h)

theorem exec_insertUser {t t' : Tables} {key : PublicKey} {r : Results}
    (h : t.exec (.insertUser key) = some (r, t')) : key ∈ t'.users.map User.publicKey := by
  simp only [exec] at h
  split at h
  · rename_i hk
    cases h
    exact hk
  · split at h <;> cases h
    simp [addUser]

/-- A key that was inserted has a row from then on. -/
theorem Replays.listed {t t' : Tables} {log : List (ι × Statement × Results)}
    (h : t.Replays log t') {i : ι} {key : PublicKey} {r : Results}
    (hm : (i, .insertUser key, r) ∈ log) : key ∈ t'.users.map User.publicKey := by
  obtain ⟨before, rest, rfl⟩ := List.append_of_mem hm
  obtain ⟨u, -, v, hv, h⟩ := replays_append.mp h
  exact List.map_subset _ h.evolves.users (exec_insertUser hv)

/-- What a `SELECT` finds of a message that was inserted before it. -/
theorem Replays.found {t t' : Tables} {log : List (ι × Statement × Results)} {i j : ι}
    {userId : Nat} {data : Message} {r r' : Results}
    (h : t.Replays ((i, .insertMessage userId data, r) :: log ++
      [(j, .selectMessages userId, r')]) t') : ∃ id rows, r = .changed 1 id ∧
      r' = .messages rows ∧ (⟨id, userId, data⟩ ∈ rows ∨
        ∃ x ∈ log, ∃ ids, x.2.1 = .deleteMessages ids ∧ id ∈ ids) := by
  obtain ⟨v, ⟨u, hu, hv⟩, hsel⟩ := replays_append.mp h
  have hrow := (exec_insertMessage hu).2
  have hr : r = .changed 1 t.freshMessageId := by
    simp only [exec] at hu
    split at hu
    · split at hu <;> cases hu
      rfl
    · cases hu
  have hr' := replays_single.mp hsel
  cases hr'
  refine ⟨t.freshMessageId, _, hr, rfl, (hv.keeps hrow).imp_left fun hm => ?_⟩
  exact List.mem_filter.mpr ⟨hm, by simp⟩

end Tables

namespace RequestQueue
variable {σ ρ : Type*}

/-- A step of the loop completes nothing. -/
theorem runLoop_completed {q q' : RequestQueue ι σ ρ} (hq : q.runLoop = some q') :
    q'.history.completed = q.history.completed := by
  have hback : ∀ q : RequestQueue ι σ ρ,
      q.executeBack.history.completed = q.history.completed := by
    intro q
    unfold executeBack
    split <;> rfl
  have hwait : ∀ q : RequestQueue ι σ ρ,
      q.waitUntilNonEmpty.history.completed = q.history.completed := by
    intro q
    unfold waitUntilNonEmpty
    split
    · split <;> rfl
    · exact hback q
  unfold runLoop at hq
  split at hq
  · cases hq
    exact hwait q
  · cases hq
    exact hback q
  · unfold popBack at hq
    split at hq
    · rename_i hb
      split at hb <;> cases hb
      cases hq
      exact hwait _
    · cases hq
      rfl
  · cases hq

theorem throws_completed {q q' : RequestQueue ι σ ρ} (hq : q.throws = some q') :
    q'.history.completed = q.history.completed := by
  unfold throws at hq
  split at hq <;> cases hq
  rfl

end RequestQueue

namespace Database

/-- All statements that have been sent, with their coroutines. -/
def sent (d : Database ι) : List (ι × Statement) :=
  d.queue.history.queued.map fun t => (t.caller, t.request)

def executed (d : Database ι) : List (ι × Statement × Results) :=
  d.queue.history.completed.map fun p => (p.1.caller, p.1.request, p.2)

/-- The place in `sent` of the statement that the coroutine waits for, or whose results it has
not read yet. -/
def place (d : Database ι) (i : ι) : Option Nat :=
  match d.queue.caller i with
  | .idle => none
  | .suspended ref _ | .resumed ref _ => some ref

theorem sent_snd (d : Database ι) : d.sent.map Prod.snd = d.issued := by
  simp [sent, issued]

theorem start_sent (succeeds : StartStep → Bool) (tables : Tables) :
    (start succeeds tables : Database ι).sent = [] := by
  rw [← List.map_eq_nil_iff, sent_snd, start_issued]

/-- The statements are executed in the order in which they were sent. -/
theorem executed_initial {d : Database ι} (h : d.queue.Coherent) :
    d.executed.map (fun x => (x.1, x.2.1)) <+: d.sent := by
  have hp := (h.completed_initial.trans h.started_initial).map fun t => (t.caller, t.request)
  simpa [executed, sent, Function.comp_def] using hp

/-- The id of a statement is its place. -/
theorem queued_id {d : Database ι} (h : d.queue.Coherent) {n : Nat} {t : Ticket ι Statement}
    (ht : d.queue.history.queued[n]? = some t) : t.id = n := by
  obtain ⟨hn, rfl⟩ := List.getElem?_eq_some_iff.mp ht
  have hid := congrArg (·[n]?) h.ids
  simpa [hn] using hid

theorem executed_place {d : Database ι} (h : d.queue.Coherent) {i : ι} {ref : Nat}
    {stmt : Statement} {r : Results} (hc : d.queue.caller i = .resumed ref stmt)
    (hr : d.queue.results i = some r) : d.executed[ref]? = some (i, stmt, r) := by
  obtain ⟨r', hr', hm⟩ := h.resumed i ref stmt hc
  obtain rfl : r = r' := Option.some.inj (hr.symm.trans hr')
  obtain ⟨n, hn, hget⟩ := List.getElem_of_mem hm
  have hcompleted : d.queue.history.completed[n]? = some (⟨ref, i, stmt⟩, r) :=
    List.getElem?_eq_some_iff.mpr ⟨hn, hget⟩
  have hqueued : d.queue.history.queued[n]? = some ⟨ref, i, stmt⟩ :=
    List.getElem?_of_prefix (h.completed_initial.trans h.started_initial) (by simp [hcompleted])
  obtain rfl : ref = n := queued_id h hqueued
  simp [executed, hcompleted]

/-- The tables are what the executed statements have made of `t`; `add_user` looks up only keys
that have a row, and every `DELETE` names a row. -/
structure Recorded (t : Tables) (d : Database ι) : Prop where
  replays : t.Replays d.executed d.tables
  connects : d.sent ≠ [] → d.connected
  deletes : ∀ i, (i, .deleteMessages []) ∉ d.sent
  selects : ∀ i key, (i, .selectUser key) ∈ d.sent → key ∈ d.tables.users.map User.publicKey
  finds : ∀ i key r, (i, .selectUser key, r) ∈ d.executed → r.firstId ≠ none

/-- Only coroutines in `P` have sent statements, or read results. -/
structure Goes (P : ι → Prop) (d d' : Database ι) : Prop where
  connected : d'.connected = d.connected
  sent : ∃ new, d'.sent = d.sent ++ new ∧ ∀ x ∈ new, P x.1
  executed : d.executed <+: d'.executed
  place : ∀ i, ¬ P i → d'.place i = d.place i

variable {P : ι → Prop} {t : Tables}

theorem Goes.refl (d : Database ι) : Goes P d d :=
  ⟨rfl, ⟨[], by simp⟩, List.prefix_refl _, fun _ _ => rfl⟩

theorem Goes.trans {d e f : Database ι} (h : Goes P d e) (h' : Goes P e f) : Goes P d f := by
  obtain ⟨xs, hxs, hx⟩ := h.sent
  obtain ⟨ys, hys, hy⟩ := h'.sent
  refine ⟨h'.connected.trans h.connected, ⟨xs ++ ys, ?_, ?_⟩, h.executed.trans h'.executed,
    fun i hi => (h'.place i hi).trans (h.place i hi)⟩
  · rw [hys, hxs, List.append_assoc]
  · intro x hm
    exact (List.mem_append.mp hm).elim (hx x) (hy x)

theorem Goes.mono {Q : ι → Prop} {d d' : Database ι} (h : Goes P d d') (hPQ : ∀ i, P i → Q i) :
    Goes Q d d' := by
  obtain ⟨xs, hxs, hx⟩ := h.sent
  exact ⟨h.connected, ⟨xs, hxs, fun x hm => hPQ _ (hx x hm)⟩, h.executed,
    fun i hi => h.place i fun hp => hi (hPQ i hp)⟩

theorem start_recorded (succeeds : StartStep → Bool) (tables : Tables) :
    Recorded tables (start succeeds tables : Database ι) := by
  have hsent : (start succeeds tables : Database ι).sent = [] := start_sent succeeds tables
  have hexecuted : (start succeeds tables : Database ι).executed = [] := by
    simp only [executed, start, RequestQueue.start]
    split <;> rfl
  constructor
  · rw [hexecuted]
    rfl
  · simp [hsent]
  · simp [hsent]
  · simp [hsent]
  · simp [hexecuted]

/-- Nothing is sent or executed, and the coroutines in `P` only read results. -/
theorem Recorded.quiet {d d' : Database ι} (h : Recorded t d)
    (ht : d'.tables = d.tables) (hc : d'.connected = d.connected)
    (hqueued : d'.queue.history.queued = d.queue.history.queued)
    (hcompleted : d'.queue.history.completed = d.queue.history.completed)
    (hcaller : ∀ i, ¬ P i → d'.queue.caller i = d.queue.caller i) :
    Recorded t d' ∧ Goes P d d' := by
  have hsent : d'.sent = d.sent := by simp only [sent, hqueued]
  have hexecuted : d'.executed = d.executed := by simp only [executed, hcompleted]
  refine ⟨⟨?_, ?_, ?_, ?_, ?_⟩, hc, ⟨[], by simp [hsent]⟩, by simp [hexecuted], fun i hi => ?_⟩
  · rw [hexecuted, ht]
    exact h.replays
  · rw [hsent, hc]
    exact h.connects
  · rw [hsent]
    exact h.deletes
  · rw [hsent, ht]
    exact h.selects
  · rw [hexecuted]
    exact h.finds
  · simp only [place, hcaller i hi]

variable [DecidableEq ι]

theorem Recorded.request {d d' : Database ι} (h : Recorded t d) (hq : d.queue.Coherent) {i : ι}
    {op : Operation} {stmt : Statement} {failed : Value} {v : Option Value}
    (hs : ∀ key, stmt = .selectUser key → key ∈ d.tables.users.map User.publicKey)
    (hdel : stmt ≠ .deleteMessages []) (hd : d.request i op stmt failed = some (d', v)) :
    Recorded t d' ∧ Goes (· = i) d d' := by
  obtain ⟨-, rfl, -⟩ | ⟨q, hc, hr, rfl, -⟩ := request_cases hd
  · exact ⟨h, .refl d'⟩
  · obtain ⟨-, rfl⟩ := hq.asyncExecuteQueued hr
    have hsent : sent { d with
        queue := d.queue.queuedBy i stmt, operation := Function.update d.operation i op } =
        d.sent ++ [(i, stmt)] := by
      simp [sent, queuedBy]
    refine ⟨⟨h.replays, fun _ => hc, ?_, ?_, h.finds⟩, rfl, ⟨_, hsent, by simp⟩,
      List.prefix_refl _, ?_⟩
    · intro j hm
      rw [hsent, List.mem_append, List.mem_singleton, Prod.mk.injEq] at hm
      exact hm.elim (h.deletes j) fun hm => hdel hm.2.symm
    · intro j key hm
      rw [hsent, List.mem_append, List.mem_singleton, Prod.mk.injEq] at hm
      obtain hm | ⟨-, hm⟩ := hm
      · exact h.selects j key hm
      · exact hs key hm.symm
    · intro j hj
      simp [place, queuedBy, Function.update_of_ne hj]

theorem Recorded.take {d : Database ι} (h : Recorded t d) {i : ι} {r : Results}
    {q : RequestQueue ι Statement Results} (hq : d.queue.take i = some (r, q))
    (operation : ι → Operation) :
    Recorded t { d with queue := q, operation } ∧
      Goes (· = i) d { d with queue := q, operation } := by
  obtain ⟨-, -, rfl⟩ := take_eq_some.mp hq
  exact h.quiet rfl rfl rfl rfl fun j hj => Function.update_of_ne hj _ _

/-- `add_user` looks up a key only after it has found that the key has a row. -/
theorem Recorded.resume {I : Tables → Prop} {d d' : Database ι} (h : Recorded t d)
    (ha : Answered I d) {i : ι} {v : Option Value} (hd : d.resume i = some (d', v)) :
    Recorded t d' ∧ Goes (· = i) d d' := by
  obtain ⟨r, q, ht, hv⟩ := resume_cases hd
  obtain ⟨htake, hgoes⟩ := h.take ht (Function.update d.operation i .idle)
  have hq := ha.coherent.take ht
  obtain ⟨⟨ref, stmt, hi⟩, hr, -⟩ := take_eq_some.mp ht
  obtain ⟨rfl, -⟩ | ⟨key, hop, -, hreq⟩ := hv
  · exact ⟨htake, hgoes⟩
  · have hsends := ha.sends i stmt (by simp [asked, hi])
    rw [hop] at hsends
    obtain rfl : stmt = .insertUser key := hsends
    have hm := List.mem_of_getElem? (executed_place ha.coherent hi hr)
    obtain ⟨hrec, hgoes'⟩ := htake.request hq (fun key' hkey => by
      cases hkey
      exact h.replays.listed hm) (by simp) hreq
    exact ⟨hrec, hgoes.trans hgoes'⟩

theorem Recorded.execute {d d' : Database ι} (h : Recorded t d) (hq : d.queue.Coherent)
    (hd : d.execute = some d') : Recorded t d' ∧ Goes P d d' := by
  obtain ⟨ref, e, r, t', q, hl, he, hx, hc, rfl⟩ := execute_eq_some hd
  obtain ⟨e', rest, hl', hb, rfl⟩ := hq.complete_eq hc
  obtain rfl : ref = e'.ticket.id := by simpa [hl] using hl'
  obtain rfl : e = e' := by simpa [entryAt, hb] using he.symm
  have hp : d.queue.pending = e :: rest := by simp [RequestQueue.pending, served, hl, hb]
  have hawait := (hq.awaited e (by simp [hp])).1
  have hexecuted : executed { d with queue := d.queue.completedBy e rest r, tables := t' } =
      d.executed ++ [(e.ticket.caller, e.ticket.request, r)] := by
    simp [executed, completedBy]
  have husers := List.map_subset User.publicKey (Tables.exec_users hx)
  refine ⟨⟨?_, h.connects, h.deletes, fun i key hm => husers (h.selects i key hm), ?_⟩, rfl,
    ⟨[], by simp [sent, completedBy]⟩, ⟨_, hexecuted.symm⟩, fun i _ => ?_⟩
  · rw [hexecuted, Tables.replays_append]
    exact ⟨d.tables, h.replays, Tables.replays_single.mpr hx⟩
  · intro i key r' hm
    rw [hexecuted, List.mem_append, List.mem_singleton] at hm
    obtain hm | hm := hm
    · exact h.finds i key r' hm
    · simp only [Prod.mk.injEq] at hm
      obtain ⟨-, hkey, rfl⟩ := hm
      have hqueued : e.ticket ∈ d.queue.history.queued := by simp [hq.queued, hb]
      have hmem : (e.ticket.caller, Statement.selectUser key) ∈ d.sent := by
        rw [hkey]
        exact List.mem_map_of_mem (f := fun t => (t.caller, t.request)) hqueued
      obtain ⟨u, hu, rfl⟩ := List.mem_map.mp (h.selects _ key hmem)
      rw [← hkey] at hx
      rw [Tables.firstId_selectUser hx, Tables.idOf_eq_some.mpr hu]
      exact Option.some_ne_none _
  · by_cases hi : i = e.ticket.caller
    · subst hi
      simp [place, completedBy, hawait]
    · simp [place, completedBy, Function.update_of_ne hi]

/-- The coroutine that performs the action. -/
def Action.caller : Action ι → Option ι
  | .addUser i _ | .addMessage i _ _ | .getDelayedMessages i _ | .deleteDelayedMessages i _
  | .getDbIndex i | .resume i => some i
  | .lookupReturns | .loop | .execute | .executeThrows => none

theorem Answered.act {d d' : Database ι} {a : Action ι} (h : Answered (fun _ => True) d)
    (hd : d.act a = some d') : Answered (fun _ => True) d' := by
  cases a with
  | addUser i key =>
    obtain ⟨⟨e, v⟩, he, rfl⟩ := Option.map_eq_some_iff.mp hd
    exact (h.request he rfl).1
  | addMessage i index message =>
    obtain ⟨⟨e, v⟩, he, rfl⟩ := Option.map_eq_some_iff.mp hd
    exact (h.request he ⟨index, message, rfl⟩).1
  | getDelayedMessages i dbIndex =>
    obtain ⟨⟨e, v⟩, he, rfl⟩ := Option.map_eq_some_iff.mp hd
    exact (h.request he ⟨dbIndex, rfl⟩).1
  | deleteDelayedMessages i ids =>
    obtain ⟨⟨e, v⟩, he, rfl⟩ := Option.map_eq_some_iff.mp hd
    exact (h.deleteDelayedMessages he).1
  | getDbIndex i =>
    cases hd
    exact ⟨h.coherent, h.tables, h.sends, h.reports⟩
  | lookupReturns => cases hd
  | resume i =>
    obtain ⟨⟨e, v⟩, he, rfl⟩ := Option.map_eq_some_iff.mp hd
    exact (h.resume he).1
  | loop => exact (h.runLoop hd).1
  | execute => exact (h.execute (fun _ _ _ _ _ => trivial) hd).1
  | executeThrows => exact (h.executeThrows hd).1

theorem Recorded.act {I : Tables → Prop} {d d' : Database ι} {a : Action ι} (h : Recorded t d)
    (ha : Answered I d) (hd : d.act a = some d') :
    Recorded t d' ∧ Goes (fun i => a.caller = some i) d d' := by
  have hsend : ∀ {i : ι} {op : Operation} {stmt : Statement} {failed : Value}
      {e : Database ι} {v : Option Value}, a.caller = some i → (∀ key, stmt ≠ .selectUser key) →
      stmt ≠ .deleteMessages [] → d.request i op stmt failed = some (e, v) →
      Recorded t e ∧ Goes (fun i => a.caller = some i) d e := by
    intro i op stmt failed e v hi hs hdel hr
    obtain ⟨hrec, hgoes⟩ := h.request ha.coherent (fun key hkey => absurd hkey (hs key)) hdel hr
    exact ⟨hrec, hgoes.mono fun j hj => hj ▸ hi⟩
  cases a with
  | addUser i key =>
    obtain ⟨⟨e, v⟩, he, rfl⟩ := Option.map_eq_some_iff.mp hd
    exact hsend rfl (by simp) (by simp) he
  | addMessage i index message =>
    obtain ⟨⟨e, v⟩, he, rfl⟩ := Option.map_eq_some_iff.mp hd
    exact hsend rfl (by simp) (by simp) he
  | getDelayedMessages i dbIndex =>
    obtain ⟨⟨e, v⟩, he, rfl⟩ := Option.map_eq_some_iff.mp hd
    exact hsend rfl (by simp) (by simp) he
  | deleteDelayedMessages i ids =>
    obtain ⟨⟨e, v⟩, he, rfl⟩ := Option.map_eq_some_iff.mp hd
    by_cases hids : ids = []
    · subst hids
      cases he
      exact ⟨h, .refl d⟩
    · obtain ⟨hnil, -⟩ | hr := deleteDelayedMessages_cases he
      · exact absurd hnil hids
      · exact hsend rfl (by simp) (by simpa using hids) hr
  | getDbIndex i =>
    cases hd
    exact h.quiet rfl rfl rfl rfl fun _ _ => rfl
  | lookupReturns => cases hd
  | resume i =>
    obtain ⟨⟨e, v⟩, he, rfl⟩ := Option.map_eq_some_iff.mp hd
    obtain ⟨hrec, hgoes⟩ := h.resume ha he
    exact ⟨hrec, hgoes.mono fun j hj => congrArg some hj.symm⟩
  | loop =>
    obtain ⟨q, hq, rfl⟩ := Option.map_eq_some_iff.mp hd
    obtain ⟨-, hc, -, hqueued⟩ := ha.coherent.runLoop_keeps hq
    exact h.quiet rfl rfl hqueued (runLoop_completed hq) fun i _ => congrFun hc i
  | execute => exact h.execute ha.coherent hd
  | executeThrows =>
    obtain ⟨q, hq, rfl⟩ := Option.map_eq_some_iff.mp hd
    obtain ⟨-, hc, -, hqueued⟩ := throws_keeps hq
    exact h.quiet rfl rfl hqueued (throws_completed hq) fun i _ => congrFun hc i

/-- On a connection that stands, `add_user` returns the id of the key's row. -/
theorem Recorded.addUser_returns {I : Tables → Prop} {d d' : Database ι} (h : Recorded t d)
    (ha : Answered I d) (hc : d.connected) {i : ι} {id : Nat} {key : PublicKey}
    (hi : d.asked i = some (.insertUser key) ∨ d.asked i = some (.selectUser key))
    (hd : d.resume i = some (d', some (.userId id))) : d.tables.idOf key = some id := by
  obtain ⟨r, q, ht, hv⟩ := resume_cases hd
  obtain ⟨⟨ref, stmt, hcaller⟩, hr, -⟩ := take_eq_some.mp ht
  have hm := List.mem_of_getElem? (executed_place ha.coherent hcaller hr)
  have hasked : d.asked i = some stmt := by simp [asked, hcaller]
  have hsends := ha.sends i stmt hasked
  have hreports := ha.reports i ref stmt r hcaller hr
  rw [Tables.idOf_eq_some]
  obtain ⟨-, hid, hins⟩ | ⟨key', -, -, hreq⟩ := hv
  · rw [hasked] at hi
    cases hop : d.operation i with
    | addUserInsert key' =>
      rw [hop] at hid hsends
      obtain rfl : stmt = .insertUser key' := hsends
      cases hid
      obtain rfl : key' = key := by simpa using hi
      exact hreports (hins key' hop)
    | addUserSelect key' =>
      rw [hop] at hid hsends
      obtain rfl : stmt = .selectUser key' := hsends
      obtain rfl : key' = key := by simpa using hi
      obtain ⟨id', hfirst⟩ := Option.ne_none_iff_exists'.mp (h.finds i key' r hm)
      simp only [returned, hfirst, Option.getD_some, Option.some.injEq, Value.userId.injEq] at hid
      exact hid ▸ hreports id' hfirst
    | _ => simp [hop, returned] at hid
  · obtain ⟨hc', -⟩ | ⟨q, -, -, -, hv⟩ := request_cases hreq
    · exact absurd hc (by simpa using hc')
    · cases hv

theorem Recorded.run {d d' : Database ι} {acts : List (Action ι)} (h : Recorded t d)
    (ha : Answered (fun _ => True) d) (hr : Lts.run Database.act d acts = some d') :
    Recorded t d' ∧ Goes (fun i => ∃ a ∈ acts, a.caller = some i) d d' := by
  induction acts generalizing d with
  | nil =>
    cases hr
    exact ⟨h, .refl _⟩
  | cons a acts ih =>
    obtain ⟨e, he, hr⟩ := Lts.run_cons.mp hr
    obtain ⟨hrec, hgoes⟩ := h.act ha he
    obtain ⟨hrec', hgoes'⟩ := ih hrec (ha.act he) hr
    exact ⟨hrec', (hgoes.mono fun i hi => ⟨a, List.mem_cons_self, hi⟩).trans
      (hgoes'.mono fun i ⟨b, hb, hi⟩ => ⟨b, List.mem_cons_of_mem _ hb, hi⟩)⟩

end Database
end MydakServer
