import Mathlib.Data.List.Infix
import MydakServer.RequestQueue

/-! What ties the deque, the loop and the suspended callers together in every reachable
state, and from it: pairing, order, and no lost or spurious wake-up. -/
namespace MydakServer.RequestQueue
open Rendezvous
variable {ι σ ρ : Type*}

/-- How many entries, from the back of the deque on, the loop has started. -/
def inService : LoopState → Nat
  | .executing _ | .signalling _ | .signalled _ | .terminated => 1
  | _ => 0

/-- How many of them it has executed. -/
def served : LoopState → Nat
  | .signalling _ | .signalled _ => 1
  | _ => 0

/-- The reference to `lock_channels.back()` the loop holds across a suspension. -/
def heldRef : LoopState → Option Nat
  | .executing ref | .signalling ref | .signalled ref => some ref
  | _ => none

/-- The entries whose statements have not been executed yet. -/
def pending (q : RequestQueue ι σ ρ) : List (Entry ι σ) :=
  q.lockChannels.drop (served q.loop)

structure Coherent (q : RequestQueue ι σ ρ) : Prop where
  queued : q.history.queued = q.history.popped ++ q.lockChannels.map Entry.ticket
  ids : q.history.queued.map Ticket.id = List.range q.history.queued.length
  started : q.history.started =
    q.history.popped ++ (q.lockChannels.take (inService q.loop)).map Entry.ticket
  completed : q.history.completed.map Prod.fst =
    q.history.popped ++ (q.lockChannels.take (served q.loop)).map Entry.ticket
  back : ∀ ref, heldRef q.loop = some ref →
    ∃ e rest, q.lockChannels = e :: rest ∧ e.ticket.id = ref
  terminated : q.loop = .terminated → q.lockChannels ≠ []
  pinged : q.loop = .pinged → q.lockChannels ≠ []
  waiting : q.loop = .waiting → q.lockChannels = []
  receivers : q.requestAddChannel.receivers = if q.loop = .waiting then [.loop] else []
  senders : q.requestAddChannel.senders = []
  signalling : ∀ ref, q.loop ≠ .signalling ref
  defined : q.loop ≠ .undefined
  awaited : ∀ e ∈ q.pending,
    q.caller e.ticket.caller = .suspended e.ticket.id e.ticket.request ∧
      e.channel.receivers = [.caller e.ticket.caller]
  suspended : ∀ i ref request, q.caller i = .suspended ref request →
    ∃ e ∈ q.pending, e.ticket = ⟨ref, i, request⟩
  resumed : ∀ i ref request, q.caller i = .resumed ref request →
    ∃ r, q.results i = some r ∧ (⟨ref, i, request⟩, r) ∈ q.history.completed

theorem start_coherent (succeeds : StartStep → Bool) :
    Coherent (start succeeds : RequestQueue ι σ ρ) := by
  unfold start
  split <;> constructor <;> simp [inService, served, heldRef, pending]

theorem start_caller (succeeds : StartStep → Bool) (i : ι) :
    (start succeeds : RequestQueue ι σ ρ).caller i = .idle := by
  unfold start
  split <;> rfl

theorem Coherent.id_lt {q : RequestQueue ι σ ρ} (h : Coherent q) {e : Entry ι σ}
    (he : e ∈ q.lockChannels) : e.ticket.id < q.history.queued.length := by
  have hm : e.ticket ∈ q.history.queued := by
    rw [h.queued]
    exact List.mem_append_right _ (List.mem_map_of_mem he)
  have := List.mem_map_of_mem (f := Ticket.id) hm
  rwa [h.ids, List.mem_range] at this

theorem Coherent.ids_nodup {q : RequestQueue ι σ ρ} (h : Coherent q) :
    (q.lockChannels.map fun e => e.ticket.id).Nodup := by
  have hn : (q.history.queued.map Ticket.id).Nodup := h.ids ▸ List.nodup_range
  rw [h.queued, List.map_append, List.map_map, List.nodup_append] at hn
  exact hn.2.1

theorem map_other {es : List (Entry ι σ)} {ref : Nat} (f : Entry ι σ → Entry ι σ)
    (h : ∀ d ∈ es, d.ticket.id ≠ ref) :
    (es.map fun d => if d.ticket.id = ref then f d else d) = es := by
  conv_rhs => rw [← List.map_id es]
  exact List.map_congr_left fun d hd => by simp [h d hd]

theorem modifyEntry_append {q : RequestQueue ι σ ρ} {es : List (Entry ι σ)} {e : Entry ι σ}
    {f : Entry ι σ → Entry ι σ} (hq : q.lockChannels = es ++ [e])
    (h : ∀ d ∈ es, d.ticket.id ≠ e.ticket.id) :
    q.modifyEntry e.ticket.id f = { q with lockChannels := es ++ [f e] } := by
  simp [modifyEntry, hq, map_other f h]

theorem modifyEntry_cons {q : RequestQueue ι σ ρ} {es : List (Entry ι σ)} {e : Entry ι σ}
    {f : Entry ι σ → Entry ι σ} (hq : q.lockChannels = e :: es)
    (h : ∀ d ∈ es, d.ticket.id ≠ e.ticket.id) :
    q.modifyEntry e.ticket.id f = { q with lockChannels := f e :: es } := by
  simp [modifyEntry, hq, map_other f h]

theorem Coherent.rest_ne {q : RequestQueue ι σ ρ} (h : Coherent q) {e : Entry ι σ}
    {es : List (Entry ι σ)} (hq : q.lockChannels = e :: es) :
    ∀ d ∈ es, d.ticket.id ≠ e.ticket.id := by
  have hn := h.ids_nodup
  rw [hq, List.map_cons, List.nodup_cons] at hn
  intro d hd heq
  exact hn.1 (heq ▸ List.mem_map_of_mem (f := fun e : Entry ι σ => e.ticket.id) hd)

theorem Coherent.throws {q q' : RequestQueue ι σ ρ} (h : Coherent q)
    (hq : q.throws = some q') : Coherent q' := by
  unfold RequestQueue.throws at hq
  cases hl : q.loop with
  | executing ref =>
    simp only [hl, Option.some.injEq] at hq
    subst hq
    obtain ⟨e, rest, hb, -⟩ := h.back ref (by simp [heldRef, hl])
    constructor
    case started => simpa [inService, hl] using h.started
    case completed => simpa [served, hl] using h.completed
    case terminated => simp [hb]
    case receivers => simpa [hl] using h.receivers
    case awaited => simpa [pending, served, hl] using h.awaited
    case suspended => simpa [pending, served, hl] using h.suspended
    case queued => exact h.queued
    case ids => exact h.ids
    case senders => exact h.senders
    case resumed => exact h.resumed
    all_goals simp [heldRef]
  | _ => simp [hl] at hq

theorem Coherent.executeBack {q : RequestQueue ι σ ρ} (h : Coherent q)
    (hl : q.loop = .spawned ∨ q.loop = .pinged) (hne : q.lockChannels ≠ []) :
    Coherent q.executeBack := by
  obtain ⟨e, rest, hq⟩ := List.exists_cons_of_ne_nil hne
  have hs : inService q.loop = 0 ∧ served q.loop = 0 ∧ q.loop ≠ .waiting := by
    rcases hl with hl | hl <;> simp [hl, inService, served]
  have hstarted := h.started
  have hcompleted := h.completed
  have hreceivers := h.receivers
  simp only [hs.1, hs.2.1, List.take_zero, List.map_nil, List.append_nil, hs.2.2,
    if_false] at hstarted hcompleted hreceivers
  have hpending : q.executeBack.pending = q.pending := by
    rw [pending, pending, hs.2.1]
    simp [RequestQueue.executeBack, hq, served]
  constructor
  case awaited =>
    rw [hpending]
    simpa [RequestQueue.executeBack, hq] using h.awaited
  case suspended =>
    rw [hpending]
    simpa [RequestQueue.executeBack, hq] using h.suspended
  case resumed => simpa [RequestQueue.executeBack, hq] using h.resumed
  case queued => simpa [RequestQueue.executeBack, hq] using h.queued
  case ids => simpa [RequestQueue.executeBack, hq] using h.ids
  case senders => simpa [RequestQueue.executeBack, hq] using h.senders
  all_goals simp [RequestQueue.executeBack, hq, inService, served, heldRef, hstarted, hcompleted,
    hreceivers]

/-- Entering the wait does not depend on where the loop was. -/
theorem waitUntilNonEmpty_loop (q : RequestQueue ι σ ρ) (l : LoopState) :
    ({ q with loop := l } : RequestQueue ι σ ρ).waitUntilNonEmpty = q.waitUntilNonEmpty := by
  simp only [waitUntilNonEmpty, RequestQueue.executeBack]

theorem Coherent.waitUntilNonEmpty {q : RequestQueue ι σ ρ} (h : Coherent q)
    (hl : q.loop = .spawned) : Coherent q.waitUntilNonEmpty := by
  by_cases hq : q.lockChannels = []
  · have hreceivers := h.receivers
    simp only [hl, reduceCtorEq, if_false] at hreceivers
    have hw : q.waitUntilNonEmpty = { q with
        requestAddChannel := { receivers := [.loop] }, loop := .waiting } := by
      simp [RequestQueue.waitUntilNonEmpty, hq, Channel.asyncReceive, h.senders, hreceivers]
    rw [hw]
    have hstarted := h.started
    have hcompleted := h.completed
    simp only [hl, inService, served, List.take_zero, List.map_nil, List.append_nil]
      at hstarted hcompleted
    constructor
    case started => simpa [inService] using hstarted
    case completed => simpa [served] using hcompleted
    case awaited => simpa [pending, served, hl] using h.awaited
    case suspended => simpa [pending, served, hl] using h.suspended
    case queued => exact h.queued
    case ids => exact h.ids
    case resumed => exact h.resumed
    all_goals simp [heldRef, hq]
  · simpa [RequestQueue.waitUntilNonEmpty, hq] using h.executeBack (.inl hl) hq

/-- What `pop_back` leaves when the loop comes back from its signal. -/
theorem Coherent.popBack {q : RequestQueue ι σ ρ} (h : Coherent q) {ref : Nat}
    (hl : q.loop = .signalled ref) :
    ∃ e rest, q.lockChannels = e :: rest ∧ e.ticket.id = ref ∧
      Coherent { q with
        lockChannels := rest
        loop := .spawned
        history := { q.history with popped := q.history.popped ++ [e.ticket] } } := by
  obtain ⟨e, rest, hq, he⟩ := h.back ref (by simp [heldRef, hl])
  refine ⟨e, rest, hq, he, ?_⟩
  have hstarted := h.started
  have hcompleted := h.completed
  have hreceivers := h.receivers
  have hawaited := h.awaited
  have hsuspended := h.suspended
  simp only [hl, inService, served, hq, List.take_succ_cons, List.take_zero, List.map_cons,
    List.map_nil, reduceCtorEq, if_false] at hstarted hcompleted hreceivers
  simp only [pending, served, hl, hq, List.drop_succ_cons, List.drop_zero] at hawaited hsuspended
  constructor
  case queued => simpa [hq] using h.queued
  case started => simpa [inService] using hstarted
  case completed => simpa [served] using hcompleted
  case ids => exact h.ids
  case senders => exact h.senders
  case resumed => exact h.resumed
  case receivers => exact hreceivers
  case awaited => exact hawaited
  case suspended => exact hsuspended
  all_goals simp [heldRef]

theorem Coherent.runLoop {q q' : RequestQueue ι σ ρ} (h : Coherent q)
    (hq : q.runLoop = some q') : Coherent q' := by
  unfold RequestQueue.runLoop at hq
  cases hl : q.loop with
  | spawned =>
    simp only [hl, Option.some.injEq] at hq
    exact hq ▸ h.waitUntilNonEmpty hl
  | pinged =>
    simp only [hl, Option.some.injEq] at hq
    exact hq ▸ h.executeBack (.inr hl) (h.pinged hl)
  | signalled ref =>
    obtain ⟨e, rest, hb, -, hc⟩ := h.popBack hl
    simp only [hl, RequestQueue.popBack, hb, Option.some.injEq] at hq
    have := hc.waitUntilNonEmpty rfl
    rw [← hq, ← waitUntilNonEmpty_loop _ .spawned]
    exact this
  | _ => simp [hl] at hq

theorem Coherent.started_initial {q : RequestQueue ι σ ρ} (h : Coherent q) :
    q.history.started <+: q.history.queued := by
  rw [h.started, h.queued]
  exact (List.prefix_append_right_inj _).mpr ((List.take_prefix _ _).map _)

theorem Coherent.completed_initial {q : RequestQueue ι σ ρ} (h : Coherent q) :
    q.history.completed.map Prod.fst <+: q.history.started := by
  rw [h.completed, h.started]
  refine (List.prefix_append_right_inj _).mpr (List.IsPrefix.map _ ?_)
  refine List.take_prefix_take_left ?_
  cases q.loop <;> simp [served, inService]

theorem waitUntilNonEmpty_keeps (q : RequestQueue ι σ ρ) :
    q.waitUntilNonEmpty.lockChannels = q.lockChannels ∧ q.waitUntilNonEmpty.caller = q.caller ∧
      q.waitUntilNonEmpty.results = q.results ∧ served q.waitUntilNonEmpty.loop = 0 ∧
      q.waitUntilNonEmpty.history.queued = q.history.queued ∧
      q.waitUntilNonEmpty.history.popped = q.history.popped := by
  unfold waitUntilNonEmpty executeBack
  cases q.lockChannels with
  | nil =>
    simp only [List.isEmpty_nil, if_true]
    split <;> simp [served]
  | cons e es => simp [served]

/-- A step of the loop leaves the pending statements and the callers as they are. -/
theorem Coherent.runLoop_keeps {q q' : RequestQueue ι σ ρ} (h : Coherent q)
    (hq : q.runLoop = some q') : q'.pending = q.pending ∧ q'.caller = q.caller ∧
      q'.results = q.results ∧ q'.history.queued = q.history.queued := by
  unfold RequestQueue.runLoop at hq
  cases hl : q.loop with
  | spawned =>
    simp only [hl, Option.some.injEq] at hq
    obtain ⟨hb, hc, hr, hs, hh, -⟩ := waitUntilNonEmpty_keeps q
    subst hq
    refine ⟨?_, hc, hr, hh⟩
    rw [pending, hs, hb, pending, hl]
    rfl
  | pinged =>
    obtain ⟨e, rest, hb⟩ := List.exists_cons_of_ne_nil (h.pinged hl)
    simp only [hl, RequestQueue.executeBack, hb, Option.some.injEq] at hq
    subst hq
    exact ⟨by simp [pending, hl, hb, served], rfl, rfl, rfl⟩
  | signalled ref =>
    obtain ⟨e, rest, hb, -⟩ := h.back ref (by simp [heldRef, hl])
    simp only [hl, RequestQueue.popBack, hb, Option.some.injEq] at hq
    obtain ⟨hb', hc, hr, hs, hh, -⟩ := waitUntilNonEmpty_keeps { q with
      lockChannels := rest
      history := { q.history with popped := q.history.popped ++ [e.ticket] } }
    simp only [hl, hq] at hb' hc hr hs hh
    refine ⟨?_, hc, hr, hh⟩
    rw [pending, hs, hb', pending, hl, hb]
    rfl
  | _ => simp [hl] at hq

theorem throws_keeps {q q' : RequestQueue ι σ ρ} (hq : q.throws = some q') :
    q'.pending = q.pending ∧ q'.caller = q.caller ∧ q'.results = q.results ∧
      q'.history.queued = q.history.queued := by
  unfold throws at hq
  cases hl : q.loop with
  | executing ref =>
    simp only [hl, Option.some.injEq] at hq
    subst hq
    exact ⟨by simp [pending, hl, served], rfl, rfl, rfl⟩
  | _ => simp [hl] at hq

theorem Coherent.pops {q q' : RequestQueue ι σ ρ} (h : Coherent q) {ref : Nat}
    (hl : q.loop = .signalled ref) (hq : q.runLoop = some q') :
    ∃ t r, q.history.completed.getLast? = some (t, r) ∧ t.id = ref ∧
      q'.history.popped = q.history.popped ++ [t] := by
  obtain ⟨e, rest, hb, he⟩ := h.back ref (by simp [heldRef, hl])
  have hc := h.completed
  simp only [hl, served, hb, List.take_succ_cons, List.take_zero, List.map_cons, List.map_nil] at hc
  obtain ⟨front, ⟨t, r⟩, hlast⟩ : ∃ front last, q.history.completed = front ++ [last] :=
    List.eq_nil_or_concat' q.history.completed |>.resolve_left (by rintro h0; simp [h0] at hc)
  rw [hlast, List.map_append] at hc
  obtain ⟨-, ht⟩ := List.append_inj' hc rfl
  simp only [List.map_cons, List.map_nil, List.cons.injEq, and_true] at ht
  refine ⟨t, r, by simp [hlast], by rw [ht, he], ?_⟩
  simp only [RequestQueue.runLoop, hl, RequestQueue.popBack, hb, Option.some.injEq] at hq
  rw [← hq, (waitUntilNonEmpty_keeps _).2.2.2.2.2, ht]

section Steps
variable [DecidableEq ι]

/-- The queue after a call: the new entry at the front, its caller waiting on it, and the
loop pinged if it was waiting. -/
def queuedBy (q : RequestQueue ι σ ρ) (i : ι) (request : σ) : RequestQueue ι σ ρ :=
  { q with
    lockChannels := q.lockChannels ++
      [{ ticket := ⟨q.history.queued.length, i, request⟩, channel := .receiver (.caller i) }]
    requestAddChannel := .idle
    loop := if q.loop = .waiting then .pinged else q.loop
    caller := Function.update q.caller i (.suspended q.history.queued.length request)
    history := { q.history with
      queued := q.history.queued ++ [⟨q.history.queued.length, i, request⟩] } }

theorem Coherent.addRequest {q : RequestQueue ι σ ρ} (h : Coherent q) (i : ι) (request : σ) :
    (q.addRequest i request).2 = q.history.queued.length ∧
    (q.addRequest i request).1 = { q.queuedBy i request with
      lockChannels := q.lockChannels ++ [{ ticket := ⟨q.history.queued.length, i, request⟩ }]
      caller := q.caller } := by
  have hr := h.receivers
  have hs := h.senders
  by_cases hw : q.loop = .waiting
  · simp only [hw, if_true] at hr
    simp [RequestQueue.addRequest, Channel.trySend, hr, queuedBy, hw]
  · simp only [hw, if_false] at hr
    have hc : q.requestAddChannel = .idle := Channel.ext_iff'.mpr ⟨hs, hr⟩
    simp [RequestQueue.addRequest, Channel.trySend, queuedBy, hw, hc]

theorem Coherent.asyncExecuteQueued {q q' : RequestQueue ι σ ρ} (h : Coherent q) {i : ι}
    {request : σ} (hq : q.asyncExecuteQueued i request = some q') :
    q.caller i = .idle ∧ q' = q.queuedBy i request := by
  unfold RequestQueue.asyncExecuteQueued at hq
  cases hc : q.caller i with
  | suspended _ _ => simp [hc] at hq
  | resumed _ _ => simp [hc] at hq
  | idle =>
    simp only [hc, Option.some.injEq] at hq
    obtain ⟨href, hadd⟩ := h.addRequest i request
    have hne : ∀ d ∈ q.lockChannels, d.ticket.id ≠ q.history.queued.length :=
      fun d hd => (h.id_lt hd).ne
    refine ⟨rfl, ?_⟩
    rw [← hq, href, hadd]
    have hfind : (q.lockChannels ++ [({ ticket := ⟨q.history.queued.length, i, request⟩ } :
        Entry ι σ)]).find? (fun e => decide (e.ticket.id = q.history.queued.length)) =
        some { ticket := ⟨q.history.queued.length, i, request⟩ } := by
      rw [List.find?_append, List.find?_eq_none.mpr (by simpa using hne)]
      simp
    simp only [receiveOn, entryAt, hfind, Channel.asyncReceive]
    rw [modifyEntry_append (e := { ticket := ⟨q.history.queued.length, i, request⟩ }) rfl hne]
    simp [queuedBy]

theorem served_queuedBy (q : RequestQueue ι σ ρ) (i : ι) (request : σ) :
    served (q.queuedBy i request).loop = served q.loop := by
  by_cases hw : q.loop = .waiting <;> simp [queuedBy, hw, served]

theorem Coherent.pending_queuedBy {q : RequestQueue ι σ ρ} (h : Coherent q) (i : ι)
    (request : σ) : (q.queuedBy i request).pending = q.pending ++
      [{ ticket := ⟨q.history.queued.length, i, request⟩
         channel := { receivers := [.caller i] } }] := by
  unfold pending
  rw [served_queuedBy, RequestQueue.queuedBy, List.drop_append_of_le_length]
  cases hl : q.loop with
  | signalling ref | signalled ref =>
    obtain ⟨e, rest, hq, -⟩ := h.back ref (by simp [heldRef, hl])
    simp [hq, served]
  | _ => exact Nat.zero_le _

omit [DecidableEq ι] in
/-- Only suspended callers have pending entries. -/
theorem Coherent.caller_ne {q : RequestQueue ι σ ρ} (h : Coherent q) {i : ι}
    (hi : ∀ ref request, q.caller i ≠ .suspended ref request) :
    ∀ e ∈ q.pending, e.ticket.caller ≠ i := by
  intro e he heq
  exact hi _ _ (heq ▸ (h.awaited e he).1)

theorem Coherent.queuedBy {q : RequestQueue ι σ ρ} (h : Coherent q) {i : ι} (request : σ)
    (hi : q.caller i = .idle) : Coherent (q.queuedBy i request) := by
  have hne := h.caller_ne (i := i) (by simp [hi])
  have hserved := served_queuedBy q i request
  have hpending := h.pending_queuedBy i request
  have htake : ∀ n, (n = 1 → q.lockChannels ≠ []) → n ≤ 1 →
      ((q.queuedBy i request).lockChannels.take n) = q.lockChannels.take n := by
    intro n hn hle
    rw [RequestQueue.queuedBy, List.take_append_of_le_length]
    rcases Nat.le_one_iff_eq_zero_or_eq_one.mp hle with rfl | rfl
    · exact Nat.zero_le _
    · exact List.length_pos_iff.mpr (hn rfl)
  have hservice : inService q.loop = 1 → q.lockChannels ≠ [] := by
    cases hl : q.loop with
    | terminated => exact fun _ => h.terminated hl
    | executing ref | signalling ref | signalled ref =>
      obtain ⟨e, rest, hq, -⟩ := h.back ref (by simp [heldRef, hl])
      simp [hq]
    | _ => simp [inService]
  constructor
  case queued => simp [RequestQueue.queuedBy, h.queued]
  case ids => simp [RequestQueue.queuedBy, h.ids, List.range_succ]
  case started =>
    have hl : inService (q.queuedBy i request).loop = inService q.loop := by
      by_cases hw : q.loop = .waiting <;> simp [RequestQueue.queuedBy, hw, inService]
    rw [hl, htake _ hservice (by cases q.loop <;> simp [inService])]
    exact h.started
  case completed =>
    have hs : served q.loop = 1 → inService q.loop = 1 := by
      cases q.loop <;> simp [inService, served]
    rw [hserved, htake _ (hservice ∘ hs) (by cases q.loop <;> simp [served])]
    exact h.completed
  case back =>
    intro ref href
    have hl : heldRef q.loop = some ref := by
      by_cases hw : q.loop = .waiting
      · simp [RequestQueue.queuedBy, hw, heldRef] at href
      · simpa [RequestQueue.queuedBy, hw] using href
    obtain ⟨e, rest, hq, he⟩ := h.back ref hl
    exact ⟨e, _, by rw [RequestQueue.queuedBy, hq, List.cons_append], he⟩
  case waiting =>
    by_cases hw : q.loop = .waiting <;> simp [RequestQueue.queuedBy, hw]
  case receivers =>
    by_cases hw : q.loop = .waiting <;> simp [RequestQueue.queuedBy, hw]
  case signalling =>
    intro ref
    have := h.signalling ref
    by_cases hw : q.loop = .waiting <;> simp [RequestQueue.queuedBy, hw, this]
  case defined =>
    have := h.defined
    by_cases hw : q.loop = .waiting <;> simp [RequestQueue.queuedBy, hw, this]
  case awaited =>
    intro e he
    rw [hpending, List.mem_append, List.mem_singleton] at he
    rcases he with he | rfl
    · have := h.awaited e he
      simpa [RequestQueue.queuedBy, Function.update_of_ne (hne e he)] using this
    · simp [RequestQueue.queuedBy]
  case suspended =>
    intro j ref req hj
    rw [hpending]
    by_cases hji : j = i
    · subst j
      simp only [RequestQueue.queuedBy, Function.update_self, CallerState.suspended.injEq] at hj
      exact ⟨_, List.mem_append_right _ (List.mem_singleton_self _), by simp [hj]⟩
    · simp only [RequestQueue.queuedBy, Function.update_of_ne hji] at hj
      obtain ⟨e, he, ht⟩ := h.suspended j ref req hj
      exact ⟨e, List.mem_append_left _ he, ht⟩
  case resumed =>
    intro j ref req hj
    by_cases hji : j = i
    · subst j
      simp [RequestQueue.queuedBy] at hj
    · simp only [RequestQueue.queuedBy, Function.update_of_ne hji] at hj
      exact h.resumed j ref req hj
  all_goals simp [RequestQueue.queuedBy]

theorem take_eq_some {q q' : RequestQueue ι σ ρ} {i : ι} {r : ρ} :
    q.take i = some (r, q') ↔ (∃ ref request, q.caller i = .resumed ref request) ∧
      q.results i = some r ∧ q' = { q with caller := Function.update q.caller i .idle } := by
  unfold take
  cases hc : q.caller i with
  | resumed ref request =>
    cases hr : q.results i with
    | none => simp
    | some r' => simp [eq_comm]
  | _ => simp

theorem Coherent.take {q q' : RequestQueue ι σ ρ} (h : Coherent q) {i : ι} {r : ρ}
    (hq : q.take i = some (r, q')) : Coherent q' := by
  obtain ⟨⟨ref, request, hi⟩, -, rfl⟩ := take_eq_some.mp hq
  have hne := h.caller_ne (i := i) (by simp [hi])
  refine { h with awaited := ?_, suspended := ?_, resumed := ?_ }
  · intro e he
    simpa [Function.update_of_ne (hne e he)] using h.awaited e he
  · intro j ref req hj
    have hji : j ≠ i := by
      intro heq
      subst heq
      simp at hj
    exact h.suspended j ref req (by simpa [Function.update_of_ne hji] using hj)
  · intro j ref req hj
    have hji : j ≠ i := by
      intro heq
      subst heq
      simp at hj
    exact h.resumed j ref req (by simpa [Function.update_of_ne hji] using hj)

/-- The queue after the statement at the back has completed with `r`: its caller is
resumed in the same step. -/
def completedBy (q : RequestQueue ι σ ρ) (e : Entry ι σ) (rest : List (Entry ι σ)) (r : ρ) :
    RequestQueue ι σ ρ :=
  { q with
    lockChannels := { e with channel := .idle } :: rest
    loop := .signalled e.ticket.id
    caller := Function.update q.caller e.ticket.caller (.resumed e.ticket.id e.ticket.request)
    results := Function.update q.results e.ticket.caller (some r)
    history := { q.history with completed := q.history.completed ++ [(e.ticket, r)] } }

theorem sendOn_meet {q : RequestQueue ι σ ρ} {e : Entry ι σ} {rest : List (Entry ι σ)}
    (hb : q.lockChannels = e :: rest) (hne : ∀ d ∈ rest, d.ticket.id ≠ e.ticket.id)
    (hr : e.channel.receivers = [.caller e.ticket.caller]) :
    q.sendOn e.ticket.id e = { q with
      lockChannels := { e with channel := .idle } :: rest
      loop := .signalled e.ticket.id
      caller := Function.update q.caller e.ticket.caller
        (.resumed e.ticket.id e.ticket.request) } := by
  obtain ⟨hmeet, hs, hrs⟩ := Channel.asyncSend_meet hr (.loop : Party ι)
  have hc : (e.channel.asyncSend .loop).1 = .idle := Channel.ext_iff'.mpr ⟨hs, hrs⟩
  have hsend : e.channel.asyncSend .loop = (.idle, some (.caller e.ticket.caller)) :=
    Prod.ext hc hmeet
  simp only [sendOn, hsend]
  rw [modifyEntry_cons hb hne]

theorem Coherent.complete_eq {q q' : RequestQueue ι σ ρ} (h : Coherent q) {r : ρ}
    (hq : q.complete r = some q') :
    ∃ e rest, q.loop = .executing e.ticket.id ∧ q.lockChannels = e :: rest ∧
      q' = q.completedBy e rest r := by
  unfold RequestQueue.complete at hq
  cases hl : q.loop with
  | executing ref =>
    obtain ⟨e, rest, hb, rfl⟩ := h.back ref (by simp [heldRef, hl])
    have hr := (h.awaited e (by simp [pending, served, hl, hb])).2
    refine ⟨e, rest, rfl, hb, ?_⟩
    simp only [hl, entryAt, hb, List.find?_cons, decide_true, Option.some.injEq] at hq
    rw [← hq, sendOn_meet rfl (h.rest_ne hb) hr]
    rfl
  | _ => simp [hl] at hq

theorem Coherent.completedBy {q : RequestQueue ι σ ρ} (h : Coherent q) {e : Entry ι σ}
    {rest : List (Entry ι σ)} (r : ρ) (hl : q.loop = .executing e.ticket.id)
    (hb : q.lockChannels = e :: rest) : Coherent (q.completedBy e rest r) := by
  have hne : ∀ d ∈ rest, d.ticket.caller ≠ e.ticket.caller := by
    intro d hd heq
    have hcd := (h.awaited d (by simp [pending, served, hl, hb, hd])).1
    have hce := (h.awaited e (by simp [pending, served, hl, hb])).1
    rw [heq, hce, CallerState.suspended.injEq] at hcd
    exact h.rest_ne hb d hd hcd.1.symm
  constructor
  case queued => simpa [RequestQueue.completedBy, hb] using h.queued
  case ids => exact h.ids
  case started => simpa [RequestQueue.completedBy, inService, hl, hb] using h.started
  case completed =>
    have := h.completed
    simp only [hl, served, List.take_zero, List.map_nil, List.append_nil] at this
    simp [RequestQueue.completedBy, served, this]
  case back =>
    intro ref href
    simp only [RequestQueue.completedBy, heldRef, Option.some.injEq] at href
    exact ⟨_, _, rfl, href⟩
  case receivers => simpa [RequestQueue.completedBy, hl] using h.receivers
  case senders => exact h.senders
  case awaited =>
    intro d hd
    simp only [RequestQueue.completedBy, pending, served, List.drop_succ_cons, List.drop_zero] at hd
    have := h.awaited d (by simp [pending, served, hl, hb, hd])
    simpa [RequestQueue.completedBy, Function.update_of_ne (hne d hd)] using this
  case suspended =>
    intro i ref request hi
    have hie : i ≠ e.ticket.caller := by
      intro heq
      subst heq
      simp [RequestQueue.completedBy] at hi
    simp only [RequestQueue.completedBy, Function.update_of_ne hie] at hi
    obtain ⟨d, hd, ht⟩ := h.suspended i ref request hi
    simp only [pending, served, hl, hb, List.drop_zero, List.mem_cons] at hd
    rcases hd with rfl | hd
    · exact absurd (by rw [ht]) hie
    · exact ⟨d, by simpa [RequestQueue.completedBy, pending, served] using hd, ht⟩
  case resumed =>
    intro i ref request hi
    by_cases hie : i = e.ticket.caller
    · subst hie
      simp only [RequestQueue.completedBy, Function.update_self, CallerState.resumed.injEq] at hi
      obtain ⟨rfl, rfl⟩ := hi
      exact ⟨r, by simp [RequestQueue.completedBy], by simp [RequestQueue.completedBy]⟩
    · simp only [RequestQueue.completedBy, Function.update_of_ne hie] at hi
      obtain ⟨r', hr, hm⟩ := h.resumed i ref request hi
      exact ⟨r', by simpa [RequestQueue.completedBy, Function.update_of_ne hie] using hr,
        by simp [RequestQueue.completedBy, hm]⟩
  all_goals simp [RequestQueue.completedBy]

theorem Coherent.complete {q q' : RequestQueue ι σ ρ} (h : Coherent q) {r : ρ}
    (hq : q.complete r = some q') : Coherent q' := by
  obtain ⟨e, rest, hl, hb, rfl⟩ := h.complete_eq hq
  exact h.completedBy r hl hb

/-- Every step of the queue keeps it coherent. -/
theorem Coherent.step {q q' : RequestQueue ι σ ρ} (h : Coherent q) {a : Action ι σ ρ}
    (hq : q.step a = some q') : Coherent q' := by
  cases a with
  | call i request =>
    obtain ⟨hi, rfl⟩ := h.asyncExecuteQueued hq
    exact h.queuedBy request hi
  | resume i =>
    obtain ⟨⟨r, q''⟩, ht, rfl⟩ := Option.map_eq_some_iff.mp hq
    exact h.take ht
  | loop => exact h.runLoop hq
  | complete r => exact h.complete hq
  | throws => exact h.throws hq

theorem run_coherent {succeeds : StartStep → Bool} {as : List (Action ι σ ρ)}
    {q : RequestQueue ι σ ρ} (hr : Lts.run step (start succeeds) as = some q) : Coherent q :=
  Lts.invariant_all (fun _ _ _ h hq => h.step hq) (start_coherent succeeds) hr

/-- Statements start in the order they were queued and once each; a resumed caller holds
the result of its own completed statement; `pop_back` removes what was just executed. -/
structure PairedInOrder (q : RequestQueue ι σ ρ) : Prop where
  inOrder : q.history.started <+: q.history.queued
  once : (q.history.started.map Ticket.id).Nodup
  executed : q.history.completed.map Prod.fst <+: q.history.started
  ownResult : ∀ i ref request, q.caller i = .resumed ref request →
    ∃ r, q.results i = some r ∧ (⟨ref, i, request⟩, r) ∈ q.history.completed
  completes : ∀ r q', q.step (.complete r) = some q' → ∃ t,
    q.history.started.getLast? = some t ∧ q.loop = .executing t.id ∧
      q.caller t.caller = .suspended t.id t.request ∧
      q'.caller t.caller = .resumed t.id t.request ∧
      q'.history.completed = q.history.completed ++ [(t, r)]
  pops : ∀ ref q', q.loop = .signalled ref → q.step .loop = some q' → ∃ t r,
    q.history.completed.getLast? = some (t, r) ∧ t.id = ref ∧
      q'.history.popped = q.history.popped ++ [t]

theorem Coherent.completes {q q' : RequestQueue ι σ ρ} (h : Coherent q) {r : ρ}
    (hq : q.complete r = some q') : ∃ t,
    q.history.started.getLast? = some t ∧ q.loop = .executing t.id ∧
      q.caller t.caller = .suspended t.id t.request ∧
      q'.caller t.caller = .resumed t.id t.request ∧
      q'.history.completed = q.history.completed ++ [(t, r)] := by
  obtain ⟨e, rest, hl, hb, rfl⟩ := h.complete_eq hq
  have hs := h.started
  simp only [hl, inService, hb, List.take_succ_cons, List.take_zero, List.map_cons,
    List.map_nil] at hs
  refine ⟨e.ticket, by simp [hs], hl, ?_, by simp [RequestQueue.completedBy], rfl⟩
  exact (h.awaited e (by simp [pending, served, hl, hb])).1

/-- In every run, whatever calls and failures it has, the queue pairs and orders. -/
theorem paired_in_order (succeeds : StartStep → Bool) (as : List (Action ι σ ρ))
    (q : RequestQueue ι σ ρ) (hr : Lts.run step (start succeeds) as = some q) :
    PairedInOrder q := by
  have h := run_coherent hr
  refine ⟨h.started_initial, ?_, h.completed_initial, h.resumed,
    fun r q' hq => h.completes hq, fun ref q' hl hq => h.pops hl hq⟩
  have hn : (q.history.queued.map Ticket.id).Nodup := h.ids ▸ List.nodup_range
  exact hn.sublist (h.started_initial.map _).sublist

/-- A caller that calls again before the loop has popped its first entry. -/
theorem paired_in_order_reentrant :
    ∃ q, Lts.run step (start fun _ => true : RequestQueue Nat String Nat)
        [.loop, .call 0 "a", .loop, .call 1 "b", .complete 7, .resume 0, .call 0 "c", .loop] =
        some q ∧ q.history.started.map Ticket.request = ["a", "b"] ∧ PairedInOrder q :=
  ⟨_, rfl, rfl, paired_in_order (fun _ => true) [.loop, .call 0 "a", .loop, .call 1 "b",
    .complete 7, .resume 0, .call 0 "c", .loop] _ rfl⟩

/-- `lock_channels.back()` is never evaluated on an empty deque, and the loop is parked
without a ping only while the deque is empty and the next ping will reach it. -/
theorem no_lost_wakeup (succeeds : StartStep → Bool) (as : List (Action ι σ ρ))
    (q : RequestQueue ι σ ρ) (hr : Lts.run step (start succeeds) as = some q) :
    q.loop ≠ .undefined ∧ (q.loop = .pinged → q.lockChannels ≠ []) ∧
      (q.loop = .waiting → q.lockChannels = [] ∧ q.requestAddChannel.receivers = [.loop]) := by
  have h := run_coherent hr
  exact ⟨h.defined, h.pinged, fun hw => ⟨h.waiting hw, by simpa [hw] using h.receivers⟩⟩

/-- A burst of two calls reaches the parked loop; only the first ping is accepted. -/
theorem no_lost_wakeup_burst :
    ∃ q, Lts.run step (start fun _ => true : RequestQueue Nat String Nat)
        [.loop, .call 0 "a", .call 1 "b"] = some q ∧ q.loop = .pinged ∧
      q.loop ≠ .undefined ∧ (q.loop = .pinged → q.lockChannels ≠ []) ∧
      (q.loop = .waiting → q.lockChannels = [] ∧ q.requestAddChannel.receivers = [.loop]) :=
  ⟨_, rfl, rfl, no_lost_wakeup (fun _ => true) [.loop, .call 0 "a", .call 1 "b"] _ rfl⟩

end Steps

end MydakServer.RequestQueue
