import MydakServer.Tables

/-! The slot vector: slots that are reused, each with a generation that tells the
occupants apart. -/
namespace MydakServer

/-- `client_index::invalid_index`. -/
def invalidIndex : Nat := maxUInt64

structure ClientIndex where
  index : Nat := 0
  generation : Nat := 0
  dbIndex : Nat := 0
  deriving DecidableEq

def ClientIndex.empty : ClientIndex := ⟨invalidIndex, invalidIndex, invalidIndex⟩

structure Slot (α : Type*) where
  object : Option α
  generation : Nat
  deriving DecidableEq

namespace Slot
variable {α : Type*}

def clear (s : Slot α) : Slot α := { s with object := none }

def setValue (s : Slot α) (object : α) : Slot α :=
  { object := some object, generation := (s.generation + 1) % 2 ^ 64 }

end Slot

/-- A bound on `clients.max_size()`. -/
def maxSize : Nat := 2 ^ 63 - 1

/-- `emptySlots` lists the queue of free indices from its front. -/
structure SlotVector (α : Type*) where
  clients : List (Slot α) := []
  emptySlots : List Nat := []
  globalIndex : Nat := 0
  counted : globalIndex = clients.length := by rfl
  bounded : clients.length ≤ maxSize := by decide
  inRange : ∀ i ∈ emptySlots, i < clients.length := by simp

namespace SlotVector
variable {α : Type*}

/-- The vector has no slots yet. -/
abbrev empty : SlotVector α := { bounded := Nat.zero_le _ }

def setSlot (v : SlotVector α) (i : Nat) (f : Slot α → Slot α) : SlotVector α :=
  { v with
    clients := v.clients.modify i f
    counted := by simpa using v.counted
    bounded := by simpa using v.bounded
    inRange := by simpa using v.inRange }

/-- The least recently freed slot, or a new one at the end; `none` where the vector
cannot grow and throws. -/
def emplaceBack (v : SlotVector α) (object : α) : Option (ClientIndex × SlotVector α) :=
  match h : v.emptySlots with
  | index :: rest =>
    let v' : SlotVector α := { v with
      emptySlots := rest
      inRange := fun i hi => v.inRange i (by simp [h, hi]) }
    let v' := v'.setSlot index (·.setValue object)
    (v'.clients[index]?).map fun slot => ({ index, generation := slot.generation }, v')
  | [] =>
    if hs : v.clients.length < maxSize then
      some ({ index := v.globalIndex, generation := 1 }, { v with
        clients := v.clients ++ [{ object := some object, generation := 1 }]
        globalIndex := v.globalIndex + 1
        counted := by simpa using v.counted
        bounded := by simpa using Nat.succ_le_of_lt hs
        inRange := by simp [h] })
    else none

def pop (v : SlotVector α) (index : Nat) : SlotVector α :=
  if hi : v.clients.length ≤ index then v
  else
    let v' := v.setSlot index Slot.clear
    { v' with
      emptySlots := v.emptySlots ++ [index]
      inRange := by
        intro i hm
        rcases List.mem_append.mp hm with hm | hm
        · simpa [v', setSlot] using v.inRange i hm
        · simp only [List.mem_singleton] at hm
          simp only [v', setSlot, List.length_modify]
          omega }

/-- `operator[]`, undefined out of range. -/
def slotAt (v : SlotVector α) (i : Nat) : Option (Slot α) := v.clients[i]?

theorem slotAt_eq_none {v : SlotVector α} {i : Nat} : v.slotAt i = none ↔ v.clients.length ≤ i :=
  List.getElem?_eq_none_iff

theorem slotAt_invalid (v : SlotVector α) : v.slotAt invalidIndex = none := by
  have := v.bounded
  simp only [maxSize] at this
  simp only [slotAt_eq_none, invalidIndex, maxUInt64]
  omega

theorem pop_of_none {v : SlotVector α} {i : Nat} (h : v.slotAt i = none) : v.pop i = v := by
  simp [pop, slotAt_eq_none.mp h]

theorem slotAt_pop (v : SlotVector α) (i j : Nat) :
    (v.pop i).slotAt j = if j = i then (v.slotAt j).map Slot.clear else v.slotAt j := by
  by_cases hi : v.clients.length ≤ i
  · by_cases hj : j = i
    · subst hj
      simp [pop, hi, slotAt_eq_none.mpr hi]
    · simp [pop, hi, hj]
  · simp only [slotAt, pop, hi, dif_neg, not_false_eq_true, setSlot, List.getElem?_modify]
    by_cases hj : i = j
    · simp [hj]
    · simp [hj, Ne.symm hj]

theorem emptySlots_pop {v : SlotVector α} {i : Nat} (h : v.slotAt i ≠ none) :
    (v.pop i).emptySlots = v.emptySlots ++ [i] := by
  simp [pop, mt slotAt_eq_none.mpr h]

/-- What `emplace_back` did: it took the front of the free queue, or appended a slot. -/
theorem emplaceBack_cases {v w : SlotVector α} {object : α} {g : ClientIndex}
    (h : v.emplaceBack object = some (g, w)) :
    g.dbIndex = 0 ∧
    (∀ j, w.slotAt j = if j = g.index then some ⟨some object, g.generation⟩ else v.slotAt j) ∧
    ((∃ slot, v.emptySlots = g.index :: w.emptySlots ∧ v.slotAt g.index = some slot ∧
        g.generation = (slot.generation + 1) % 2 ^ 64) ∨
      (v.emptySlots = [] ∧ w.emptySlots = [] ∧ v.slotAt g.index = none ∧ g.generation = 1)) := by
  unfold emplaceBack at h
  split at h
  · rename_i index rest he
    obtain ⟨slot', hs, hg⟩ := Option.map_eq_some_iff.mp h
    cases hg
    have hlt : index < v.clients.length := v.inRange index (by simp [he])
    have hv : v.slotAt index = some v.clients[index] := by simp [slotAt]
    simp only [setSlot, List.getElem?_modify, List.getElem?_eq_getElem hlt, Option.map_eq_map,
      Option.map_some, if_true, Option.some.injEq] at hs
    subst hs
    refine ⟨rfl, ?_, .inl ⟨v.clients[index], he, hv, rfl⟩⟩
    intro j
    by_cases hj : index = j
    · subst hj
      simp [slotAt, setSlot, Slot.setValue, hlt]
    · simp [slotAt, setSlot, hj, Ne.symm hj]
  · rename_i he
    split at h
    · rename_i hs
      cases h
      refine ⟨rfl, ?_, .inr ⟨he, he, by simp [slotAt, v.counted], rfl⟩⟩
      intro j
      simp only [slotAt, v.counted]
      by_cases hj : j = v.clients.length
      · simp [hj]
      · simp only [hj, if_false, List.getElem?_append]
        by_cases hl : j < v.clients.length
        · simp [hl]
        · simp only [hl, if_false]
          rw [List.getElem?_eq_none (by simp; omega), List.getElem?_eq_none (by omega)]
    · cases h

theorem emplaceBack_ne_empty {v w : SlotVector α} {object : α} {g : ClientIndex}
    (h : v.emplaceBack object = some (g, w)) (dbIndex : Nat) :
    ({ g with dbIndex } : ClientIndex) ≠ .empty := by
  intro he
  have hi : g.index = invalidIndex := congrArg ClientIndex.index he
  have hslot := (emplaceBack_cases h).2.1 invalidIndex
  simp [hi, slotAt_invalid] at hslot

end SlotVector
end MydakServer
