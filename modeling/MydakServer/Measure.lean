import Mathlib.Algebra.Order.BigOperators.Group.Finset
import Mathlib.Data.List.Induction
import MydakServer.Run

/-! Runs whose steps all lower a measure: they end, and each can be continued to a state in
which none of these steps is enabled. -/
namespace Lts
variable {σ τ α : Type*} {step : σ → α → Option σ} {C : α → Prop} {I : σ → Prop} {μ : σ → Nat}

/-- None of the actions is enabled. -/
def Stuck (step : σ → α → Option σ) (C : α → Prop) (s : σ) : Prop := ∀ a, C a → step s a = none

/-- A run whose steps lower the measure has at most as many as the measure tells. -/
theorem length_le_measure
    (hstep : ∀ s a t, I s → C a → step s a = some t → I t ∧ μ t < μ s) {s t : σ} {as : List α}
    (hs : I s) (ha : ∀ a ∈ as, C a) (hr : run step s as = some t) : as.length + μ t ≤ μ s := by
  induction as generalizing s with
  | nil =>
    cases hr
    simp
  | cons a as ih =>
    obtain ⟨m, hm, hr⟩ := run_cons.mp hr
    obtain ⟨hI, hlt⟩ := hstep s a m hs (ha a (by simp)) hm
    have hle := ih hI (fun b hb => ha b (by simp [hb])) hr
    simp only [List.length_cons]
    omega

/-- A run of steps that lower the measure leads to a state in which none is enabled. -/
theorem exists_stuck (hstep : ∀ s a t, I s → C a → step s a = some t → I t ∧ μ t < μ s) {s : σ}
    (hs : I s) : ∃ as t, (∀ a ∈ as, C a) ∧ run step s as = some t ∧ Stuck step C t := by
  induction hn : μ s using Nat.strong_induction_on generalizing s with
  | _ n ih =>
    by_cases hstuck : Stuck step C s
    · exact ⟨[], s, by simp, rfl, hstuck⟩
    · simp only [Stuck, not_forall] at hstuck
      obtain ⟨a, ha, hsome⟩ := hstuck
      obtain ⟨m, hm⟩ := Option.ne_none_iff_exists'.mp hsome
      obtain ⟨hI, hlt⟩ := hstep s a m hs ha hm
      obtain ⟨as, t, has, hr, ht⟩ := ih (μ m) (hn ▸ hlt) hI rfl
      refine ⟨a :: as, t, ?_, run_cons.mpr ⟨m, hm, hr⟩, ht⟩
      intro b hb
      obtain rfl | hb := List.mem_cons.mp hb
      · exact ha
      · exact has b hb

end Lts

/-! Weights of the first few of a family, where a step changes one of them. -/
namespace Weights

/-- The first `n` weights together. -/
def total (n : Nat) (f : Nat → Nat) : Nat := ∑ i ∈ Finset.range n, f i

theorem total_le {n : Nat} {f g : Nat → Nat} (h : ∀ i, i < n → g i ≤ f i) :
    total n g ≤ total n f :=
  Finset.sum_le_sum fun i hi => h i (Finset.mem_range.mp hi)

/-- One weight changes, and the others do not grow. -/
theorem total_change_le {n c : Nat} {f g : Nat → Nat} (hc : c < n)
    (h : ∀ i, i ≠ c → g i ≤ f i) : total n g + f c ≤ total n f + g c := by
  have hf := Finset.add_sum_erase (Finset.range n) f (Finset.mem_range.mpr hc)
  have hg := Finset.add_sum_erase (Finset.range n) g (Finset.mem_range.mpr hc)
  have hrest : ∑ i ∈ (Finset.range n).erase c, g i ≤ ∑ i ∈ (Finset.range n).erase c, f i :=
    Finset.sum_le_sum fun i hi => h i (Finset.ne_of_mem_erase hi)
  simp only [total]
  omega

/-- One weight changes. -/
theorem total_change {n c : Nat} {f g : Nat → Nat} (hc : c < n)
    (h : ∀ i, i ≠ c → g i = f i) : total n g + f c = total n f + g c :=
  Nat.le_antisymm (total_change_le hc fun i hi => (h i hi).le)
    (total_change_le hc fun i hi => (h i hi).ge)

end Weights

/-! Two facts on the lengths of lists and on counting in them. -/

theorem List.length_flatMap_le {α β γ : Type*} {f : α → List β} {g : α → List γ} {xs : List α}
    (h : ∀ x ∈ xs, (f x).length ≤ (g x).length + 1) :
    (xs.flatMap f).length ≤ (xs.flatMap g).length + xs.length := by
  induction xs with
  | nil => simp
  | cons x xs ih =>
    have hx := h x (by simp)
    have hle := ih fun y hy => h y (by simp [hy])
    simp only [List.flatMap_cons, List.length_append, List.length_cons]
    omega

/-- The elements of a list, by their places. -/
theorem List.countP_range {α : Type*} (l : List α) (p : α → Bool) :
    (List.range l.length).countP (fun i => l[i]?.any p) = l.countP p := by
  induction l using List.reverseRecOn with
  | nil => rfl
  | append_singleton l x ih =>
    have hinit : (List.range l.length).countP (fun i => (l ++ [x])[i]?.any p) =
        (List.range l.length).countP (fun i => l[i]?.any p) := by
      refine List.countP_congr fun i hi => ?_
      rw [List.getElem?_append_left (List.mem_range.mp hi)]
    rw [List.length_append, List.length_singleton, List.range_succ, List.countP_append, hinit, ih,
      List.countP_append]
    simp [List.countP_singleton]
