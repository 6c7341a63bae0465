import MydakServer.RequestQueueOrder

/-! Failures in the request queue: while no statement throws the loop serves every caller,
and the first one that throws leaves its caller and all later ones unserved. -/
namespace MydakServer.RequestQueue
open Rendezvous
variable {ι σ ρ : Type*}

/-- What the loop does by itself when no statement throws. -/
def Action.byLoop : Action ι σ ρ → Bool
  | .loop | .complete _ => true
  | _ => false

def Action.isCall : Action ι σ ρ → Bool
  | .call _ _ => true
  | _ => false

def Action.isThrows : Action ι σ ρ → Bool
  | .throws => true
  | _ => false

/-- The loop runs: it has been spawned and has not left its `for`. -/
def LoopAlive (q : RequestQueue ι σ ρ) : Prop := q.loop ≠ .unborn ∧ q.loop ≠ .terminated

theorem waitUntilNonEmpty_alive (q : RequestQueue ι σ ρ) : LoopAlive q.waitUntilNonEmpty := by
  unfold waitUntilNonEmpty executeBack
  cases q.lockChannels with
  | nil =>
    simp only [List.isEmpty_nil, if_true]
    split <;> simp [LoopAlive]
  | cons e es => simp [LoopAlive]

variable [DecidableEq ι]

/-- Whoever is suspended in `async_execute_queued` has a live loop, which by itself gets to
the caller's entry, resumes the caller and takes the entry out of the deque. -/
def Serves (q : RequestQueue ι σ ρ) : Prop :=
  ∀ i ref request, q.caller i = .suspended ref request →
    LoopAlive q ∧ ∃ bs q', (∀ b ∈ bs, b.byLoop) ∧ Lts.run RequestQueue.step q bs = some q' ∧
      q'.caller i = .resumed ref request ∧ ∀ e ∈ q'.lockChannels, e.ticket.id ≠ ref

/-- From a live coherent state the loop reaches the completion of the next statement. -/
theorem Coherent.serve_next [Inhabited ρ] {q : RequestQueue ι σ ρ} (h : Coherent q)
    (ha : LoopAlive q) {e : Entry ι σ} {rest : List (Entry ι σ)} (hp : q.pending = e :: rest) :
    ∃ bs q', (∀ b ∈ bs, b.byLoop) ∧ Lts.run RequestQueue.step q bs = some q' ∧ Coherent q' ∧
      q'.loop = .signalled e.ticket.id ∧ q'.pending = rest ∧
      q'.caller e.ticket.caller = .resumed e.ticket.id e.ticket.request := by
  have hexec : ∀ p : RequestQueue ι σ ρ, Coherent p → p.loop = .executing e.ticket.id →
      p.lockChannels = e :: rest → ∃ q', p.step (.complete default) = some q' ∧ Coherent q' ∧
        q'.loop = .signalled e.ticket.id ∧ q'.pending = rest ∧
        q'.caller e.ticket.caller = .resumed e.ticket.id e.ticket.request := by
    intro p hpc hl hb
    have hc : p.complete default = some (p.completedBy e rest default) := by
      have hr := (hpc.awaited e (by simp [pending, served, hl, hb])).2
      simp only [RequestQueue.complete, hl, entryAt, hb, List.find?_cons, decide_true,
        Option.some.injEq]
      rw [sendOn_meet rfl (hpc.rest_ne hb) hr]
      simp [RequestQueue.completedBy]
    refine ⟨_, hc, hpc.complete hc, rfl, ?_, ?_⟩
    · simp [RequestQueue.completedBy, pending, served]
    · simp [RequestQueue.completedBy]
  have hstart : ∀ p, q.step .loop = some p → p.loop = .executing e.ticket.id →
      p.lockChannels = e :: rest → ∃ bs q', (∀ b ∈ bs, b.byLoop) ∧
        Lts.run RequestQueue.step q bs = some q' ∧ Coherent q' ∧ q'.loop = .signalled e.ticket.id ∧
        q'.pending = rest ∧ q'.caller e.ticket.caller = .resumed e.ticket.id e.ticket.request := by
    intro p hs hl hb
    obtain ⟨q', hq', hrest⟩ := hexec p (h.step hs) hl hb
    refine ⟨[.loop, .complete default], q', by simp [Action.byLoop], ?_, hrest⟩
    simp [Lts.run, hs, hq']
  cases hl : q.loop with
  | unborn => exact absurd hl ha.1
  | terminated => exact absurd hl ha.2
  | undefined => exact absurd hl h.defined
  | signalling ref => exact absurd hl (h.signalling ref)
  | waiting => simp [pending, h.waiting hl] at hp
  | spawned =>
    simp only [pending, hl, served, List.drop_zero] at hp
    refine hstart q.executeBack ?_ ?_ ?_ <;>
      simp [RequestQueue.step, RequestQueue.runLoop, hl, RequestQueue.waitUntilNonEmpty, hp,
        RequestQueue.executeBack]
  | pinged =>
    simp only [pending, hl, served, List.drop_zero] at hp
    refine hstart q.executeBack ?_ ?_ ?_ <;>
      simp [RequestQueue.step, RequestQueue.runLoop, hl, hp, RequestQueue.executeBack]
  | signalled ref =>
    obtain ⟨d, ds, hb, -⟩ := h.back ref (by simp [heldRef, hl])
    simp only [pending, hl, served, hb, List.drop_succ_cons, List.drop_zero] at hp
    subst hp
    refine hstart ({ q with
      lockChannels := e :: rest
      loop := .executing e.ticket.id
      history := { q.history with
        popped := q.history.popped ++ [d.ticket]
        started := q.history.started ++ [e.ticket] } }) ?_ rfl rfl
    simp [RequestQueue.step, RequestQueue.runLoop, hl, RequestQueue.popBack, hb,
      RequestQueue.waitUntilNonEmpty, RequestQueue.executeBack]
  | executing ref =>
    simp only [pending, hl, served, List.drop_zero] at hp
    obtain ⟨d, ds, hb, hd⟩ := h.back ref (by simp [heldRef, hl])
    obtain ⟨rfl, rfl⟩ := List.cons.inj (hb.symm.trans hp)
    obtain ⟨q', hq', hrest⟩ := hexec q h (hd ▸ hl) hb
    exact ⟨[.complete default], q', by simp [Action.byLoop], by simp [Lts.run, hq'], hrest⟩

/-- The loop comes to every entry of the deque. -/
theorem Coherent.serve [Inhabited ρ] {q : RequestQueue ι σ ρ} (h : Coherent q)
    (ha : LoopAlive q) {e : Entry ι σ} (he : e ∈ q.pending) :
    ∃ bs q', (∀ b ∈ bs, b.byLoop) ∧ Lts.run RequestQueue.step q bs = some q' ∧ Coherent q' ∧
      q'.loop = .signalled e.ticket.id ∧
      q'.caller e.ticket.caller = .resumed e.ticket.id e.ticket.request := by
  generalize hp : q.pending = es at he
  induction es generalizing q with
  | nil => simp at he
  | cons d ds ih =>
    obtain ⟨bs, q₁, hbs, hr, hc, hl, hp₁, hcaller⟩ := h.serve_next ha hp
    rcases List.mem_cons.mp he with rfl | he
    · exact ⟨bs, q₁, hbs, hr, hc, hl, hcaller⟩
    · obtain ⟨cs, q₂, hcs, hr₂, hrest⟩ := ih hc (by simp [LoopAlive, hl]) hp₁ he
      refine ⟨bs ++ cs, q₂, ?_, Lts.run_append.mpr ⟨q₁, hr, hr₂⟩, hrest⟩
      intro b hb
      exact (List.mem_append.mp hb).elim (hbs b) (hcs b)

theorem Coherent.serves [Inhabited ρ] {q : RequestQueue ι σ ρ} (h : Coherent q)
    (ha : LoopAlive q) : Serves q := by
  intro i ref request hi
  refine ⟨ha, ?_⟩
  obtain ⟨e, he, ht⟩ := h.suspended i ref request hi
  obtain ⟨bs, q₁, hbs, hr, hc, hl, hcaller⟩ := h.serve ha he
  simp only [ht] at hl hcaller
  obtain ⟨d, rest, hb, hd⟩ := hc.back ref (by simp [heldRef, hl])
  have hne : ∀ c ∈ rest, c.ticket.id ≠ ref := hd ▸ hc.rest_ne hb
  have hloop : q₁.step .loop = some ({ q₁ with
      lockChannels := rest
      history := { q₁.history with
        popped := q₁.history.popped ++ [d.ticket] } } : RequestQueue ι σ ρ).waitUntilNonEmpty := by
    simp [RequestQueue.step, RequestQueue.runLoop, hl, RequestQueue.popBack, hb]
  obtain ⟨hlc, hcl, -⟩ := waitUntilNonEmpty_keeps ({ q₁ with
    lockChannels := rest
    history := { q₁.history with popped := q₁.history.popped ++ [d.ticket] } } : RequestQueue ι σ ρ)
  refine ⟨bs ++ [.loop], _, ?_, Lts.run_append.mpr ⟨q₁, hr, Lts.run_single.mpr hloop⟩, ?_, ?_⟩
  · intro b hb
    rcases List.mem_append.mp hb with hb | hb
    · exact hbs b hb
    · simp_all [Action.byLoop]
  · rw [hcl, hcaller]
  · rwa [hlc]

/-- Only a statement that throws ends a loop that runs. -/
theorem Coherent.alive_step {q q' : RequestQueue ι σ ρ} (h : Coherent q) (ha : LoopAlive q)
    {a : Action ι σ ρ} (hn : a.isThrows = false) (hq : q.step a = some q') : LoopAlive q' := by
  cases a with
  | call i request =>
    obtain ⟨-, rfl⟩ := h.asyncExecuteQueued hq
    by_cases hw : q.loop = .waiting
    · simp [LoopAlive, RequestQueue.queuedBy, hw]
    · simpa [LoopAlive, RequestQueue.queuedBy, hw] using ha
  | resume i =>
    obtain ⟨⟨r, p⟩, ht, rfl⟩ := Option.map_eq_some_iff.mp hq
    obtain ⟨-, -, rfl⟩ := take_eq_some.mp ht
    exact ha
  | loop =>
    simp only [RequestQueue.step, RequestQueue.runLoop] at hq
    cases hl : q.loop with
    | spawned =>
      simp only [hl, Option.some.injEq] at hq
      exact hq ▸ waitUntilNonEmpty_alive q
    | pinged =>
      obtain ⟨e, rest, hb⟩ := List.exists_cons_of_ne_nil (h.pinged hl)
      simp only [hl, RequestQueue.executeBack, hb, Option.some.injEq] at hq
      simp [← hq, LoopAlive]
    | signalled ref =>
      obtain ⟨e, rest, hb, -⟩ := h.back ref (by simp [heldRef, hl])
      simp only [hl, RequestQueue.popBack, hb, Option.some.injEq] at hq
      exact hq ▸ waitUntilNonEmpty_alive _
    | _ => simp [hl] at hq
  | complete r =>
    obtain ⟨e, rest, -, -, rfl⟩ := h.complete_eq hq
    simp [LoopAlive, RequestQueue.completedBy]
  | throws => simp [Action.isThrows] at hn

/-- Without a call nobody is ever suspended. -/
theorem Coherent.idle_step {q q' : RequestQueue ι σ ρ} (h : Coherent q)
    (hi : ∀ i, q.caller i = .idle) {a : Action ι σ ρ} (hn : a.isCall = false)
    (hq : q.step a = some q') : ∀ i, q'.caller i = .idle := by
  cases a with
  | call i request => simp [Action.isCall] at hn
  | resume i =>
    obtain ⟨⟨r, p⟩, ht, rfl⟩ := Option.map_eq_some_iff.mp hq
    obtain ⟨⟨ref, request, hc⟩, -, -⟩ := take_eq_some.mp ht
    simp [hi] at hc
  | loop =>
    simp only [RequestQueue.step, RequestQueue.runLoop] at hq
    cases hl : q.loop with
    | spawned =>
      simp only [hl, Option.some.injEq] at hq
      rwa [← hq, (waitUntilNonEmpty_keeps q).2.1]
    | pinged =>
      obtain ⟨e, rest, hb⟩ := List.exists_cons_of_ne_nil (h.pinged hl)
      simp only [hl, RequestQueue.executeBack, hb, Option.some.injEq] at hq
      rwa [← hq]
    | signalled ref =>
      obtain ⟨e, rest, hb, -⟩ := h.back ref (by simp [heldRef, hl])
      simp only [hl, RequestQueue.popBack, hb, Option.some.injEq] at hq
      rwa [← hq, (waitUntilNonEmpty_keeps _).2.1]
    | _ => simp [hl] at hq
  | complete r =>
    obtain ⟨e, rest, hl, hb, rfl⟩ := h.complete_eq hq
    have := (h.awaited e (by simp [pending, served, hl, hb])).1
    simp [hi] at this
  | throws =>
    simp only [RequestQueue.step, RequestQueue.throws] at hq
    cases hl : q.loop <;> simp [hl] at hq
    rwa [← hq]

/-- A loop that was never spawned stays so. -/
theorem Coherent.unborn_step {q q' : RequestQueue ι σ ρ} (h : Coherent q)
    (hu : q.loop = .unborn) {a : Action ι σ ρ} (hq : q.step a = some q') :
    q'.loop = .unborn := by
  cases a with
  | call i request =>
    obtain ⟨-, rfl⟩ := h.asyncExecuteQueued hq
    simp [RequestQueue.queuedBy, hu]
  | resume i =>
    obtain ⟨⟨r, p⟩, ht, rfl⟩ := Option.map_eq_some_iff.mp hq
    obtain ⟨-, -, rfl⟩ := take_eq_some.mp ht
    exact hu
  | loop => simp [RequestQueue.step, RequestQueue.runLoop, hu] at hq
  | complete r => simp [RequestQueue.step, RequestQueue.complete, hu] at hq
  | throws => simp [RequestQueue.step, RequestQueue.throws, hu] at hq

/-- The state a statement leaves when it throws: its caller waits on a loop that is gone. -/
theorem Coherent.not_serves_throws {q q' : RequestQueue ι σ ρ} (h : Coherent q)
    (hq : q.throws = some q') : ¬ Serves q' := by
  have hc := h.throws hq
  have hl : q'.loop = .terminated := by
    unfold RequestQueue.throws at hq
    cases hl : q.loop <;> simp [hl] at hq
    simp [← hq]
  obtain ⟨e, rest, hb⟩ := List.exists_cons_of_ne_nil (hc.terminated hl)
  have he := (hc.awaited e (by simp [pending, served, hl, hb])).1
  intro hs
  exact (hs _ _ _ he).1.2 hl

/-- A run serves every caller in every state exactly when no statement in it throws and,
unless nothing is ever queued, `database::start` came as far as its loop. -/
theorem failure_isolated_iff [Inhabited ρ] (succeeds : StartStep → Bool)
    (as : List (Action ι σ ρ)) (q : RequestQueue ι σ ρ)
    (hr : Lts.run step (start succeeds) as = some q) :
    Lts.Always step Serves (start succeeds) as ↔
      (∀ a ∈ as, a.isThrows = false) ∧
        ((∀ x, succeeds x = true) ∨ ∀ a ∈ as, a.isCall = false) := by
  constructor
  · intro hs
    constructor
    · intro a ha
      by_contra hn
      obtain rfl : a = .throws := by cases a <;> simp_all [Action.isThrows]
      obtain ⟨bs, cs, rfl⟩ := List.append_of_mem ha
      obtain ⟨m, hm, ht⟩ := Lts.run_append.mp hr
      obtain ⟨t, hstep, -⟩ := Lts.run_cons.mp ht
      refine (run_coherent hm).not_serves_throws hstep (hs (bs ++ [.throws]) ?_ t ?_)
      · simp
      · exact Lts.run_append.mpr ⟨m, hm, Lts.run_single.mpr hstep⟩
    · by_contra hn
      simp only [not_or, not_forall, Bool.not_eq_true, Bool.not_eq_false] at hn
      obtain ⟨⟨x, hx⟩, a, ha, hcall⟩ := hn
      obtain ⟨i, request, rfl⟩ : ∃ i request, a = .call i request := by
        cases a <;> simp_all [Action.isCall]
      have h0 : (start succeeds : RequestQueue ι σ ρ).loop = .unborn := by
        unfold start
        cases x <;> simp [hx]
      obtain ⟨bs, cs, rfl⟩ := List.append_of_mem ha
      obtain ⟨m, hm, ht⟩ := Lts.run_append.mp hr
      obtain ⟨t, hstep, -⟩ := Lts.run_cons.mp ht
      have hu : m.loop = .unborn := (Lts.invariant_all
        (I := fun q => Coherent q ∧ q.loop = .unborn)
        (fun _ _ _ h hq => ⟨h.1.step hq, h.1.unborn_step h.2 hq⟩)
        ⟨start_coherent succeeds, h0⟩ hm).2
      have htu := (run_coherent hm).unborn_step hu hstep
      obtain ⟨-, rfl⟩ := (run_coherent hm).asyncExecuteQueued hstep
      have hserves := hs (bs ++ [.call i request]) (by simp) _
        (Lts.run_append.mpr ⟨m, hm, Lts.run_single.mpr hstep⟩)
      have hi : (m.queuedBy i request).caller i =
          .suspended m.history.queued.length request := by simp [RequestQueue.queuedBy]
      exact (hserves i _ _ hi).1.1 htu
  · rintro ⟨hthrows, hstart⟩ bs hp t ht
    have hc : Coherent t := run_coherent ht
    have hb : ∀ b ∈ bs, b ∈ as := fun b hb => hp.subset hb
    rcases hstart with hok | hcalls
    · have h0 : LoopAlive (start succeeds : RequestQueue ι σ ρ) := by
        simp [start, hok, LoopAlive]
      have hcond : Lts.Along step (fun _ a => Action.isThrows a = false)
          (start succeeds : RequestQueue ι σ ρ) bs :=
        Lts.along_of_forall fun b h => hthrows b (hb b h)
      exact hc.serves (Lts.invariant (I := fun q => Coherent q ∧ LoopAlive q)
        (fun _ _ _ h hn hq => ⟨h.1.step hq, h.1.alive_step h.2 hn hq⟩)
        ⟨start_coherent succeeds, h0⟩ hcond ht).2
    · have h0 : ∀ i, (start succeeds : RequestQueue ι σ ρ).caller i = .idle := by
        intro i
        unfold start
        split <;> rfl
      have hcond : Lts.Along step (fun _ a => Action.isCall a = false)
          (start succeeds : RequestQueue ι σ ρ) bs :=
        Lts.along_of_forall fun b h => hcalls b (hb b h)
      have hidle := (Lts.invariant (I := fun q => Coherent q ∧ ∀ i, q.caller i = .idle)
        (fun _ _ _ h hn hq => ⟨h.1.step hq, h.1.idle_step h.2 hn hq⟩)
        ⟨start_coherent succeeds, h0⟩ hcond ht).2
      intro i ref request hi
      simp [hidle] at hi

/-- The statement of the only caller throws. -/
theorem not_failure_isolated :
    ¬ Lts.Always step Serves (start fun _ => true : RequestQueue Nat String Nat)
      [.loop, .call 0 "INSERT", .loop, .throws] := by
  intro hs
  have := hs _ (List.prefix_refl _) _ rfl 0 0 "INSERT" rfl
  exact this.1.2 rfl

/-- Two callers, both served. -/
theorem failure_isolated_two_calls :
    Lts.Always step Serves (start fun _ => true : RequestQueue Nat String Nat)
      [.loop, .call 0 "INSERT", .call 1 "SELECT", .loop, .complete 7, .resume 0, .loop] :=
  (failure_isolated_iff (fun _ => true) [.loop, .call 0 "INSERT", .call 1 "SELECT", .loop,
    .complete 7, .resume 0, .loop] _ rfl).mpr ⟨by decide, .inl fun _ => rfl⟩

end MydakServer.RequestQueue
