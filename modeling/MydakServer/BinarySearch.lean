import Mathlib.Data.List.Nodup

/-! Binary search by a predicate that holds of an initial part of a list, and searches by key in
lists that are sorted or permuted. -/
namespace BinarySearch
variable {α κ : Type*}

/-- The place of the first of the `len` elements from `first` on that `comp` does not hold of, if
`comp` holds of those before it and of no later one. -/
def lowerBound (comp : α → Bool) (l : List α) (first len : Nat) : Nat :=
  if len = 0 then first
  else
    let half := len / 2
    if l[first + half]?.any comp then
      lowerBound comp l (first + half + 1) (len - half - 1)
    else lowerBound comp l first half
termination_by len

theorem lowerBound_eq {comp : α → Bool} {l : List α} {k : Nat}
    (hk : ∀ i x, l[i]? = some x → (comp x ↔ i < k)) {first len : Nat} (hfirst : first ≤ k)
    (hlast : k ≤ first + len) (hlen : first + len ≤ l.length) :
    lowerBound comp l first len = k := by
  fun_induction lowerBound comp l first len with
  | case1 first => omega
  | case2 first len hne half hcomp ih =>
    obtain ⟨x, hx, hc⟩ := (Option.any_eq_true _ _).mp hcomp
    have hlt := (hk _ x hx).mp hc
    exact ih (by omega) (by omega) (by omega)
  | case3 first len hne half hcomp ih =>
    have hlt : first + half < l.length := by omega
    have hge : ¬ first + half < k := by
      intro hc
      exact hcomp (by simpa [List.getElem?_eq_getElem hlt] using
        (hk _ _ (List.getElem?_eq_getElem hlt)).mpr hc)
    exact ih hfirst (by omega) (by omega)

/-- Where `comp` holds of what comes before an element it holds of, it holds of an initial part. -/
theorem comp_iff_lt {comp : α → Bool} {l : List α}
    (h : l.Pairwise fun x y => comp y → comp x) (i : Nat) (x : α) (hx : l[i]? = some x) :
    comp x ↔ i < (l.takeWhile comp).length := by
  induction l generalizing i with
  | nil => simp at hx
  | cons y l ih =>
    obtain ⟨hy, hl⟩ := List.pairwise_cons.mp h
    cases hc : comp y with
    | true =>
      rw [List.takeWhile_cons_of_pos hc]
      cases i with
      | zero =>
        obtain rfl : y = x := by simpa using hx
        simp [hc]
      | succ i => simpa using ih hl i (by simpa using hx)
    | false =>
      have hx' : comp x ≠ true := by
        intro hcx
        cases i with
        | zero =>
          obtain rfl : y = x := by simpa using hx
          simp [hc] at hcx
        | succ i =>
          have hm : x ∈ l := List.mem_of_getElem? (by simpa using hx)
          simp [hc] at hy
          simp [hy x hm] at hcx
      simp [List.takeWhile_cons_of_neg, hc, hx']

/-- Binary search finds what a search from the front finds. -/
theorem getElem?_lowerBound {comp : α → Bool} {l : List α}
    (h : l.Pairwise fun x y => comp y → comp x) :
    l[lowerBound comp l 0 l.length]? = l.find? fun x => !comp x := by
  rw [lowerBound_eq (comp_iff_lt h) (Nat.zero_le _)
    (by simpa using (List.takeWhile_sublist comp).length_le) (by simp)]
  induction l with
  | nil => rfl
  | cons y l ih =>
    cases hc : comp y with
    | true => simpa [hc] using ih (List.pairwise_cons.mp h).2
    | false => simp [hc]

theorem find?_key_eq_some [DecidableEq κ] {f : α → κ} {l : List α} (h : (l.map f).Nodup) {key : κ}
    {x : α} : l.find? (fun x => f x = key) = some x ↔ x ∈ l ∧ f x = key := by
  constructor
  · intro hf
    exact ⟨List.mem_of_find?_eq_some hf, by simpa using List.find?_some hf⟩
  · rintro ⟨hx, rfl⟩
    cases hf : l.find? (fun y => f y = f x) with
    | none => simpa using List.find?_eq_none.mp hf x hx
    | some y =>
      have hy : f y = f x := by simpa using List.find?_some hf
      rw [List.inj_on_of_nodup_map h (List.mem_of_find?_eq_some hf) hx hy]

theorem find?_key_perm [DecidableEq κ] {f : α → κ} {l l' : List α} (h : (l.map f).Nodup)
    (hp : l.Perm l') (key : κ) :
    l'.find? (fun x => f x = key) = l.find? (fun x => f x = key) := by
  apply Option.ext
  intro x
  rw [find?_key_eq_some h, find?_key_eq_some ((hp.map f).nodup_iff.mp h), hp.mem_iff]

section Order
variable [LT κ] [LE κ] [Std.IsLinearOrder κ] [Std.LawfulOrderLT κ] [DecidableLT κ] [DecidableEq κ]

omit [Std.IsLinearOrder κ] in
/-- In a list with ascending keys the first key that is not below the one searched for is that key,
or the list does not have it. -/
theorem find?_key_sorted {f : α → κ} {l : List α} (h : l.Pairwise fun x y => f x < f y) (key : κ) :
    (l.find? fun x => !decide (f x < key)).filter (fun x => f x = key) =
      l.find? fun x => f x = key := by
  induction l with
  | nil => rfl
  | cons y l ih =>
    obtain ⟨hy, hl⟩ := List.pairwise_cons.mp h
    by_cases hlt : f y < key
    · have hne : f y ≠ key := fun he => Std.lt_irrefl (he ▸ hlt)
      simpa [hlt, hne] using ih hl
    · by_cases he : f y = key
      · simp [he, Std.lt_irrefl]
      · have hnone : ∀ x ∈ l, f x ≠ key := by
          intro x hx hk
          exact hlt (hk ▸ hy x hx)
        have hnone' : l.find? (fun x => f x = key) = none := by
          simpa [List.find?_eq_none] using hnone
        simp [hlt, he, hnone']

theorem getElem?_lowerBound_sorted {f : α → κ} {l : List α} (h : l.Pairwise fun x y => f x < f y)
    (key : κ) : l[lowerBound (fun x => f x < key) l 0 l.length]?.filter (fun x => f x = key) =
      l.find? fun x => f x = key := by
  rw [getElem?_lowerBound, find?_key_sorted h]
  refine h.imp fun hxy hy => ?_
  simp only [decide_eq_true_eq] at hy ⊢
  exact Std.lt_trans hxy hy

end Order
end BinarySearch
