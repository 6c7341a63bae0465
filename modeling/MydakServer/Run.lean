import Mathlib.Data.List.Basic

/-! Finite runs of a partial labelled step function, conditions on the steps of a
run, and the induction rules that carry an invariant along it. -/
namespace Lts
variable {σ τ α β : Type*}

/-- The state after the actions, if each of them is enabled in its turn. -/
def run (step : σ → α → Option σ) : σ → List α → Option σ
  | s, [] => some s
  | s, a :: as => (step s a).bind fun t => run step t as

/-- `C` holds of every step of the run: of the state and the action taken there. -/
def Along (step : σ → α → Option σ) (C : σ → α → Prop) : σ → List α → Prop
  | _, [] => True
  | s, a :: as => C s a ∧ ∀ t, step s a = some t → Along step C t as

/-- What the steps of the run show, one after the other. -/
def log (step : σ → α → Option σ) (shows : σ → α → List β) : σ → List α → List β
  | _, [] => []
  | s, a :: as => shows s a ++ ((step s a).map fun t => log step shows t as).getD []

/-- A step together with what the steps before it have shown. -/
def logged (step : σ → α → Option σ) (shows : σ → α → List β) (p : σ × List β) (a : α) :
    Option (σ × List β) :=
  (step p.1 a).map fun t => (t, p.2 ++ shows p.1 a)

/-- `P` holds in every state of the run, the first and the last included. -/
def Always (step : σ → α → Option σ) (P : σ → Prop) (s : σ) (as : List α) : Prop :=
  ∀ bs, bs <+: as → ∀ t, run step s bs = some t → P t

instance Along.decidable (step : σ → α → Option σ) (C : σ → α → Prop)
    [∀ s a, Decidable (C s a)] : ∀ s as, Decidable (Along step C s as)
  | _, [] => .isTrue trivial
  | s, a :: as =>
    match h : step s a with
    | none => decidable_of_iff (C s a) (by simp [Along, h])
    | some t =>
      have := Along.decidable step C t as
      decidable_of_iff (C s a ∧ Along step C t as) (by simp [Along, h])

variable {step : σ → α → Option σ}

theorem run_cons {s t : σ} {a : α} {as : List α} :
    run step s (a :: as) = some t ↔ ∃ m, step s a = some m ∧ run step m as = some t := by
  simp [run, Option.bind_eq_some_iff]

theorem run_append {s t : σ} {as bs : List α} :
    run step s (as ++ bs) = some t ↔ ∃ m, run step s as = some m ∧ run step m bs = some t := by
  induction as generalizing s with
  | nil => simp [run]
  | cons a as ih =>
    simp only [List.cons_append, run_cons, ih]
    constructor
    · rintro ⟨m, hm, n, hn, ht⟩
      exact ⟨n, ⟨m, hm, hn⟩, ht⟩
    · rintro ⟨n, ⟨m, hm, hn⟩, ht⟩
      exact ⟨m, hm, n, hn, ht⟩

theorem run_single {s t : σ} {a : α} : run step s [a] = some t ↔ step s a = some t := by
  simp [run]

/-- What holds at the start and is kept by every step that meets `C` holds at the end
of every run whose steps all meet `C`. -/
theorem invariant {C : σ → α → Prop} {I : σ → Prop}
    (hstep : ∀ s a t, I s → C s a → step s a = some t → I t) {s t : σ} {as : List α}
    (hs : I s) (hc : Along step C s as) (hr : run step s as = some t) : I t := by
  induction as generalizing s with
  | nil => exact Option.some.inj hr ▸ hs
  | cons a as ih =>
    obtain ⟨m, hm, hr⟩ := run_cons.mp hr
    exact ih (hstep s a m hs hc.1 hm) (hc.2 m hm) hr

theorem along_true (s : σ) (as : List α) : Along step (fun _ _ => True) s as := by
  induction as generalizing s with
  | nil => trivial
  | cons a as ih => exact ⟨trivial, fun t _ => ih t⟩

theorem along_of_forall {p : α → Prop} {s : σ} {as : List α} (h : ∀ a ∈ as, p a) :
    Along step (fun _ a => p a) s as := by
  induction as generalizing s with
  | nil => trivial
  | cons a as ih =>
    exact ⟨h a (by simp), fun t _ => ih fun b hb => h b (by simp [hb])⟩

/-- The rule for an invariant that every step keeps. -/
theorem invariant_all {I : σ → Prop} (hstep : ∀ s a t, I s → step s a = some t → I t)
    {s t : σ} {as : List α} (hs : I s) (hr : run step s as = some t) : I t :=
  invariant (C := fun _ _ => True) (fun s a t hI _ h => hstep s a t hI h) hs (along_true s as) hr

/-- The rule for a measure that only changes to what another measure has then reached. -/
theorem exists_reached {m n : σ → Nat} {I : σ → Prop}
    (hstep : ∀ s a t, I s → step s a = some t → I t ∧ (m t = m s ∨ m t = n t)) {s t : σ}
    {as : List α} (hs : I s) (hr : run step s as = some t) :
    m t = m s ∨ ∃ bs u, bs <+: as ∧ run step s bs = some u ∧ m t = n u := by
  induction as generalizing s with
  | nil =>
    cases hr
    exact .inl rfl
  | cons a as ih =>
    obtain ⟨v, hv, hr⟩ := run_cons.mp hr
    obtain ⟨hI, hm⟩ := hstep s a v hs hv
    obtain hsame | ⟨bs, u, hp, hu, hreached⟩ := ih hI hr
    · obtain hm | hm := hm
      · exact .inl (hsame.trans hm)
      · exact .inr ⟨[a], v, by simp, run_single.mpr hv, hsame.trans hm⟩
    · exact .inr ⟨a :: bs, u, by simpa using hp, run_cons.mpr ⟨v, hv, hu⟩, hreached⟩

/-- The rule for an invariant of the state and of what the run has shown. -/
theorem invariant_log {C : σ → α → Prop} {I : σ → List β → Prop} {shows : σ → α → List β}
    (hstep : ∀ s l a t, I s l → C s a → step s a = some t → I t (l ++ shows s a)) {s t : σ}
    {l : List β} {as : List α} (hs : I s l) (hc : Along step C s as)
    (hr : run step s as = some t) : I t (l ++ log step shows s as) := by
  induction as generalizing s l with
  | nil =>
    cases hr
    simpa [log] using hs
  | cons a as ih =>
    obtain ⟨m, hm, hr⟩ := run_cons.mp hr
    have h := ih (hstep s l a m hs hc.1 hm) (hc.2 m hm) hr
    rw [List.append_assoc] at h
    simpa [log, hm] using h

theorem logged_eq_some {shows : σ → α → List β} {p q : σ × List β} {a : α} :
    logged step shows p a = some q ↔
      step p.1 a = some q.1 ∧ q.2 = p.2 ++ shows p.1 a := by
  obtain ⟨t, l⟩ := q
  simp only [logged, Option.map_eq_some_iff, Prod.mk.injEq]
  constructor
  · rintro ⟨t', ht, rfl, rfl⟩
    exact ⟨ht, rfl⟩
  · rintro ⟨ht, rfl⟩
    exact ⟨t, ht, rfl, rfl⟩

theorem log_append {shows : σ → α → List β} {s t : σ} {as bs : List α}
    (hr : run step s as = some t) :
    log step shows s (as ++ bs) = log step shows s as ++ log step shows t bs := by
  induction as generalizing s with
  | nil =>
    cases hr
    rfl
  | cons a as ih =>
    obtain ⟨m, hm, hr⟩ := run_cons.mp hr
    simp [log, hm, ih hr]

/-- What holds of all that a run shows holds of what each of its steps shows. -/
theorem along_of_log {shows : σ → α → List β} {Q : β → Prop} {s t : σ} {as : List α}
    (hr : run step s as = some t) (h : ∀ x ∈ log step shows s as, Q x) :
    Along step (fun s a => ∀ x ∈ shows s a, Q x) s as := by
  induction as generalizing s with
  | nil => trivial
  | cons a as ih =>
    obtain ⟨m, hm, hr⟩ := run_cons.mp hr
    simp only [log, hm, Option.map_some, Option.getD_some, List.mem_append] at h
    refine ⟨fun x hx => h x (.inl hx), fun t ht => ?_⟩
    obtain rfl : m = t := Option.some.inj (hm.symm.trans ht)
    exact ih hr fun x hx => h x (.inr hx)

/-- Two conditions that agree on the steps of a run hold along the same runs. -/
theorem along_congr {C D E : σ → α → Prop} {I : σ → Prop}
    (hstep : ∀ s a t, I s → step s a = some t → I t)
    (hCD : ∀ s a t, I s → E s a → step s a = some t → (C s a ↔ D s a)) {s u : σ} {as : List α}
    (hs : I s) (he : Along step E s as) (hr : run step s as = some u) :
    Along step C s as ↔ Along step D s as := by
  induction as generalizing s with
  | nil => exact Iff.rfl
  | cons a as ih =>
    obtain ⟨m, hm, hr⟩ := run_cons.mp hr
    simp only [Along, hCD s a m hs he.1 hm]
    refine and_congr_right fun _ => forall_congr' fun t => forall_congr' fun ht => ?_
    obtain rfl : m = t := Option.some.inj (hm.symm.trans ht)
    exact ih (hstep s a m hs hm) (he.2 m hm) hr

theorem Along.mono {C D : σ → α → Prop} (h : ∀ s a, C s a → D s a) {s : σ} {as : List α}
    (hc : Along step C s as) : Along step D s as := by
  induction as generalizing s with
  | nil => trivial
  | cons a as ih => exact ⟨h s a hc.1, fun t ht => ih (hc.2 t ht)⟩

theorem Along.and {C D : σ → α → Prop} {s : σ} {as : List α} (hc : Along step C s as)
    (hd : Along step D s as) : Along step (fun s a => C s a ∧ D s a) s as := by
  induction as generalizing s with
  | nil => trivial
  | cons a as ih => exact ⟨⟨hc.1, hd.1⟩, fun t ht => ih (hc.2 t ht) (hd.2 t ht)⟩

theorem Along.append {C : σ → α → Prop} {s t : σ} {as bs : List α}
    (h : Along step C s (as ++ bs)) (hr : run step s as = some t) : Along step C t bs := by
  induction as generalizing s with
  | nil => exact Option.some.inj hr ▸ h
  | cons a as ih =>
    obtain ⟨m, hm, hr⟩ := run_cons.mp hr
    exact ih (h.2 m hm) hr

theorem Along.initial {C : σ → α → Prop} {s : σ} {as bs : List α} (hp : bs <+: as)
    (hc : Along step C s as) : Along step C s bs := by
  induction bs generalizing s as with
  | nil => trivial
  | cons b bs ih =>
    obtain ⟨cs, rfl⟩ := hp
    exact ⟨hc.1, fun t ht => ih ⟨cs, rfl⟩ (hc.2 t ht)⟩

/-- A condition that the states before and after each step imply holds along a run whose
states all satisfy `P`. -/
theorem along_of_always {C : σ → α → Prop} {P : σ → Prop}
    (h : ∀ s a t, step s a = some t → P s → P t → C s a) {s u : σ} {as : List α}
    (hr : run step s as = some u) (hp : Always step P s as) : Along step C s as := by
  induction as generalizing s with
  | nil => trivial
  | cons a as ih =>
    obtain ⟨m, hm, hr⟩ := run_cons.mp hr
    have hs : P s := hp [] ⟨_, rfl⟩ s rfl
    refine ⟨h s a m hm hs (hp [a] ⟨as, rfl⟩ m (run_single.mpr hm)), fun t ht => ?_⟩
    obtain rfl : m = t := Option.some.inj (hm.symm.trans ht)
    refine ih hr fun bs hb t ht => hp (a :: bs) ?_ t (run_cons.mpr ⟨m, hm, ht⟩)
    exact List.cons_prefix_cons.mpr ⟨rfl, hb⟩

/-- A condition holds along a run if it holds of every step that a part of the run leads to. -/
theorem along_of_initial {C : σ → α → Prop} {s u : σ} {as : List α}
    (hr : run step s as = some u) (h : ∀ bs a m t, bs ++ [a] <+: as → run step s bs = some m →
      step m a = some t → C m a) : Along step C s as := by
  induction as generalizing s with
  | nil => trivial
  | cons a as ih =>
    obtain ⟨m, hm, hr⟩ := run_cons.mp hr
    refine ⟨h [] a s m ⟨as, rfl⟩ rfl hm, fun t ht => ?_⟩
    obtain rfl : m = t := Option.some.inj (hm.symm.trans ht)
    refine ih hr fun bs b n t hb hn ht => h (a :: bs) b n t ?_ (run_cons.mpr ⟨m, hm, hn⟩) ht
    exact List.cons_prefix_cons.mpr ⟨rfl, hb⟩

/-- An invariant of the steps that meet `C` holds in every state of such a run. -/
theorem always {C : σ → α → Prop} {I : σ → Prop}
    (hstep : ∀ s a t, I s → C s a → step s a = some t → I t) {s : σ} {as : List α}
    (hs : I s) (hc : Along step C s as) : Always step I s as :=
  fun _ hp _ hr => invariant hstep hs (hc.initial hp) hr

/-- A run that can always be continued to the next `P` reaches every later one. -/
theorem exists_run {P : Nat → σ → Prop}
    (hnext : ∀ n s, P n s → ∃ as t, run step s as = some t ∧ P (n + 1) t) {s : σ} (hs : P 0 s)
    (n : Nat) : ∃ as t, run step s as = some t ∧ P n t := by
  induction n with
  | zero => exact ⟨[], s, rfl, hs⟩
  | succ n ih =>
    obtain ⟨as, t, hrun, ht⟩ := ih
    obtain ⟨bs, u, hrun', hu⟩ := hnext n t ht
    exact ⟨as ++ bs, u, run_append.mpr ⟨t, hrun, hrun'⟩, hu⟩

/-- Without the steps that `p` leaves out, a run goes on from a related state and ends in a
related state, if each of them keeps the relation and every other step is matched. -/
theorem run_filter {C : σ → α → Prop} {R : σ → σ → Prop} {p : α → Bool}
    (hkeep : ∀ s u a t, R s u → C s a → p a = true → step s a = some t →
      ∃ w, step u a = some w ∧ R t w)
    (hskip : ∀ s u a t, R s u → C s a → p a = false → step s a = some t → R t u)
    {s u t : σ} {as : List α} (h : R s u) (hc : Along step C s as) (hr : run step s as = some t) :
    ∃ w, run step u (as.filter p) = some w ∧ R t w := by
  induction as generalizing s u with
  | nil => exact ⟨u, rfl, Option.some.inj hr ▸ h⟩
  | cons a as ih =>
    obtain ⟨m, hm, hr⟩ := run_cons.mp hr
    cases hp : p a with
    | true =>
      obtain ⟨n, hn, hR⟩ := hkeep s u a m h hc.1 hp hm
      obtain ⟨w, hw, hR'⟩ := ih hR (hc.2 m hm) hr
      refine ⟨w, ?_, hR'⟩
      rw [List.filter_cons_of_pos hp]
      exact run_cons.mpr ⟨n, hn, hw⟩
    | false =>
      rw [List.filter_cons_of_neg (by simp [hp])]
      exact ih (hskip s u a m h hc.1 hp hm) (hc.2 m hm) hr

end Lts

/-! Facts on lists and results that are used along with runs. -/

theorem List.exists_split_at {α : Type*} {xs : List α} {n : Nat} {x : α} (h : xs[n]? = some x) :
    ∃ ys zs, xs = ys ++ x :: zs ∧ ys.length = n := by
  obtain ⟨hn, rfl⟩ := List.getElem?_eq_some_iff.mp h
  refine ⟨xs.take n, xs.drop (n + 1), ?_, by simp; omega⟩
  rw [← List.drop_eq_getElem_cons hn, List.take_append_drop]

theorem List.getElem?_of_prefix {α : Type*} {xs ys : List α} (h : xs <+: ys) {n : Nat} {x : α}
    (hx : xs[n]? = some x) : ys[n]? = some x := by
  obtain ⟨hn, rfl⟩ := List.getElem?_eq_some_iff.mp hx
  exact List.prefix_iff_getElem?.mp h n hn

theorem Except.map_eq_ok {ε α β : Type} {f : α → β} {x : Except ε α} {y : β} :
    x.map f = .ok y ↔ ∃ a, x = .ok a ∧ f a = y := by
  cases x <;> simp [Except.map]
