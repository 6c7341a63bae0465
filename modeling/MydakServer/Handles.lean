import MydakServer.SlotVector

/-! Handles of the slot vector: the pairs of index and generation that `emplace_back`
returns, and when they lead to the object they were returned for. -/
namespace MydakServer.SlotVector
variable {α : Type*}

inductive Op (α : Type*) where
  | emplaceBack (object : α)
  | pop (index : Nat)

/-- Where `emplace_back` throws, the vector stays as it was. -/
def apply (v : SlotVector α) : Op α → SlotVector α
  | .emplaceBack object => ((v.emplaceBack object).map Prod.snd).getD v
  | .pop index => v.pop index

/-- The handle that the operation returns. -/
def returned (v : SlotVector α) : Op α → Option ClientIndex
  | .emplaceBack object => (v.emplaceBack object).map Prod.fst
  | .pop _ => none

def run (v : SlotVector α) (ops : List (Op α)) : SlotVector α := ops.foldl apply v

/-- The handles that the operations return, in their order. -/
def handles (v : SlotVector α) : List (Op α) → List ClientIndex
  | [] => []
  | op :: ops => (v.returned op).toList ++ (v.apply op).handles ops

/-- The slot is occupied, in the generation of the handle. -/
def Valid (v : SlotVector α) (g : ClientIndex) : Prop :=
  ∃ object, v.slotAt g.index = some ⟨some object, g.generation⟩

theorem run_append (v : SlotVector α) (ops ops' : List (Op α)) :
    v.run (ops ++ ops') = (v.run ops).run ops' := List.foldl_append

/-- An operation leaves the slots as they are, clears one, or grants one. -/
theorem apply_cases (v : SlotVector α) (op : Op α) :
    (v.apply op = v ∧ v.returned op = none) ∨
    (∃ i, v.apply op = v.pop i ∧ v.returned op = none) ∨
    ∃ object g w, op = .emplaceBack object ∧ v.emplaceBack object = some (g, w) ∧
      v.apply op = w ∧ v.returned op = some g := by
  cases op with
  | pop i => exact .inr (.inl ⟨i, rfl, rfl⟩)
  | emplaceBack object =>
    cases h : v.emplaceBack object with
    | none => exact .inl ⟨by simp [apply, h], by simp [returned, h]⟩
    | some r => exact .inr (.inr ⟨object, r.1, r.2, rfl, h, by simp [apply, h],
        by simp [returned, h]⟩)

/-- The generations in which the slot has been granted. -/
def stamps (hs : List ClientIndex) (i : Nat) : List Nat :=
  (hs.filter (·.index = i)).map ClientIndex.generation

theorem stamps_append (hs : List ClientIndex) (g : ClientIndex) (i : Nat) :
    stamps (hs ++ [g]) i = if g.index = i then stamps hs i ++ [g.generation] else stamps hs i := by
  by_cases h : g.index = i <;> simp [stamps, List.filter_append, h]

/-- The first `n` generations of a slot. -/
def counter (n : Nat) : List Nat := (List.range n).map fun k => (k + 1) % 2 ^ 64

theorem counter_succ (n : Nat) : counter (n + 1) = counter n ++ [(n + 1) % 2 ^ 64] := by
  simp [counter, List.range_succ]

/-- Each slot has been granted in its first generations, and is in the last of them. -/
structure Stamped (v : SlotVector α) (hs : List ClientIndex) : Prop where
  counted : ∀ i, stamps hs i = counter (stamps hs i).length
  generation : ∀ i, (v.slotAt i).map Slot.generation =
    if stamps hs i = [] then none else some ((stamps hs i).length % 2 ^ 64)

theorem Stamped.pop {v : SlotVector α} {hs : List ClientIndex} (h : Stamped v hs) (i : Nat) :
    Stamped (v.pop i) hs := by
  refine ⟨h.counted, fun j => ?_⟩
  rw [← h.generation j, slotAt_pop]
  split
  · cases v.slotAt j <;> rfl
  · rfl

theorem Stamped.grant {v w : SlotVector α} {hs : List ClientIndex} {object : α} {g : ClientIndex}
    (h : Stamped v hs) (hw : v.emplaceBack object = some (g, w)) : Stamped w (hs ++ [g]) := by
  obtain ⟨-, hslots, hg⟩ := emplaceBack_cases hw
  have hnext : g.generation = ((stamps hs g.index).length + 1) % 2 ^ 64 := by
    have hgen := h.generation g.index
    obtain ⟨slot, -, hslot, hnew⟩ | ⟨-, -, hslot, hnew⟩ := hg
    · rw [hslot] at hgen
      split at hgen
      · cases hgen
      · have hlast : slot.generation = (stamps hs g.index).length % 2 ^ 64 := by
          simpa using hgen
        rw [hnew, hlast]
        omega
    · rw [hslot] at hgen
      split at hgen
      · rename_i hnil
        simp [hnil, hnew]
      · cases hgen
  constructor
  · intro i
    by_cases hi : g.index = i
    · subst hi
      rw [stamps_append, if_pos rfl, List.length_append, List.length_singleton, counter_succ,
        ← h.counted, hnext]
    · rw [stamps_append, if_neg hi]
      exact h.counted i
  · intro i
    by_cases hi : g.index = i
    · subst hi
      rw [hslots, if_pos rfl, stamps_append, if_pos rfl]
      simp [hnext]
    · rw [hslots, if_neg (Ne.symm hi), stamps_append, if_neg hi]
      exact h.generation i

theorem Stamped.apply {v : SlotVector α} {hs : List ClientIndex} (h : Stamped v hs) (op : Op α) :
    Stamped (v.apply op) (hs ++ (v.returned op).toList) := by
  obtain ⟨he, hr⟩ | ⟨i, he, hr⟩ | ⟨object, g, w, -, hw, he, hr⟩ := v.apply_cases op
  · simpa [he, hr] using h
  · simpa [he, hr] using h.pop i
  · simpa [he, hr] using h.grant hw

theorem Stamped.run {v : SlotVector α} {hs : List ClientIndex} (h : Stamped v hs)
    (ops : List (Op α)) : Stamped (v.run ops) (hs ++ v.handles ops) := by
  induction ops generalizing v hs with
  | nil => simpa [SlotVector.run, handles] using h
  | cons op ops ih =>
    have h' := ih (h.apply op)
    rwa [List.append_assoc] at h'

/-- What a handle is good for, over all operations on a vector that starts empty. -/
structure Fresh (ops : List (Op α)) : Prop where
  distinct : (((empty : SlotVector α).handles ops).map fun g => (g.index, g.generation)).Nodup
  valid : ∀ before object after g w, ops = before ++ .emplaceBack object :: after →
    (empty.run before).emplaceBack object = some (g, w) →
    w.slotAt g.index = some ⟨some object, g.generation⟩
  own : ∀ before object after g w, ops = before ++ .emplaceBack object :: after →
    (empty.run before).emplaceBack object = some (g, w) → ∀ object',
    (empty.run ops).slotAt g.index = some ⟨some object', g.generation⟩ → object' = object
  stale : ∀ before after, ops = before ++ after → ∀ g ∈ empty.handles before,
    ¬ (empty.run before).Valid g → ¬ (empty.run ops).Valid g

end MydakServer.SlotVector
