import MydakServer.Handles
import MydakServer.Measure

/-! The free queue of the slot vector: when it lists the empty slots, and how many slots there
are then. -/
namespace MydakServer.SlotVector
variable {α : Type*}

def step (v : SlotVector α) (op : Op α) : Option (SlotVector α) := some (v.apply op)

/-- The number of slots that hold an object. -/
def occupied (v : SlotVector α) : Nat := v.clients.countP (·.object.isSome)

/-- The index of every empty slot is in the free queue once, and no other. -/
def Listed (v : SlotVector α) : Prop := ∀ i slot, v.slotAt i = some slot →
  v.emptySlots.count i = if slot.object.isNone then 1 else 0

structure Intact (v : SlotVector α) : Prop where
  listed : Listed v
  spares : ∀ object g w, v.emplaceBack object = some (g, w) → ∀ slot,
    v.slotAt g.index = some slot → slot.object = none
  counted : v.occupied + v.emptySlots.length = v.clients.length

/-- No slot is freed that is empty already. -/
def freesOnce (v : SlotVector α) : Op α → Bool
  | .pop i => (v.slotAt i).all (·.object.isSome)
  | .emplaceBack _ => true

/-- A slot is freed only while it is occupied. -/
def freesOccupied (v : SlotVector α) : Op α → Bool
  | .pop i => (v.slotAt i).any (·.object.isSome)
  | .emplaceBack _ => true

/-- The largest number of occupied slots at any time of a run. -/
def peak (v : SlotVector α) : List (Op α) → Nat
  | [] => v.occupied
  | op :: ops => max v.occupied ((v.apply op).peak ops)

/-- The slots that are freed, in this order. -/
def freed (ops : List (Op α)) : List Nat :=
  ops.filterMap fun
    | .pop i => some i
    | .emplaceBack _ => none

/-- The slot that `emplace_back` grants, if it was there before. -/
def regrants (v : SlotVector α) (op : Op α) : List Nat :=
  ((v.returned op).toList.map ClientIndex.index).filter fun i => (v.slotAt i).isSome

/-- The slots that are granted again, in this order. -/
def regranted (v : SlotVector α) : List (Op α) → List Nat
  | [] => []
  | op :: ops => v.regrants op ++ (v.apply op).regranted ops

theorem run_step (v : SlotVector α) (ops : List (Op α)) :
    Lts.run step v ops = some (v.run ops) := by
  induction ops generalizing v with
  | nil => rfl
  | cons op ops ih => exact Lts.run_cons.mpr ⟨v.apply op, rfl, ih _⟩

/-- `emplace_back` takes the front of the free queue, or adds a slot when the queue is empty. -/
theorem emplaceBack_length {v w : SlotVector α} {object : α} {g : ClientIndex}
    (h : v.emplaceBack object = some (g, w)) :
    (v.emptySlots = g.index :: w.emptySlots ∧ w.clients.length = v.clients.length) ∨
      (v.emptySlots = [] ∧ w.emptySlots = [] ∧ g.index = v.clients.length ∧
        w.clients.length = v.clients.length + 1) := by
  unfold emplaceBack at h
  split at h
  · rename_i index rest he
    obtain ⟨slot, -, hg⟩ := Option.map_eq_some_iff.mp h
    cases hg
    exact .inl ⟨he, by simp [setSlot]⟩
  · rename_i he
    split at h
    · cases h
      exact .inr ⟨he, he, v.counted, by simp⟩
    · cases h

theorem length_pop (v : SlotVector α) (i : Nat) : (v.pop i).clients.length = v.clients.length := by
  unfold pop
  split
  · rfl
  · simp [setSlot]

theorem empty_listed : Listed (empty : SlotVector α) := by
  intro i slot h
  simp [slotAt] at h

theorem Listed.pop {v : SlotVector α} (h : Listed v) {i : Nat} (hi : v.freesOnce (.pop i)) :
    Listed (v.pop i) := by
  cases hs : v.slotAt i with
  | none => rwa [pop_of_none hs]
  | some slot =>
    have hfull : slot.object.isSome := by simpa [freesOnce, hs] using hi
    have hcount : v.emptySlots.count i = 0 := by
      rw [h i slot hs, if_neg (by simpa [Option.isSome_iff_ne_none] using hfull)]
    intro j slot' hj
    rw [emptySlots_pop (by simp [hs]), List.count_append]
    rw [slotAt_pop] at hj
    by_cases hij : j = i
    · subst hij
      rw [if_pos rfl, hs, Option.map_some, Option.some.injEq] at hj
      simp [← hj, hcount, Slot.clear]
    · rw [if_neg hij] at hj
      have hother : List.count j [i] = 0 := by simp [Ne.symm hij]
      rw [h j slot' hj, hother, Nat.add_zero]

theorem Listed.emplaceBack {v w : SlotVector α} {object : α} {g : ClientIndex} (h : Listed v)
    (hw : v.emplaceBack object = some (g, w)) : Listed w := by
  obtain ⟨-, hslots, hg⟩ := emplaceBack_cases hw
  intro j slot hj
  rw [hslots] at hj
  obtain ⟨slot', he, hslot, -⟩ | ⟨he, he', hslot, -⟩ := hg
  · have hcount := h g.index slot' hslot
    rw [he, List.count_cons_self] at hcount
    by_cases hij : j = g.index
    · subst hij
      rw [if_pos rfl, Option.some.injEq] at hj
      rw [← hj]
      split at hcount
      · simpa using hcount
      · omega
    · rw [if_neg hij] at hj
      rw [← h j slot hj, he, List.count_cons_of_ne (Ne.symm hij)]
  · by_cases hij : j = g.index
    · rw [if_pos hij, Option.some.injEq] at hj
      simp [← hj, he']
    · rw [if_neg hij] at hj
      rw [← h j slot hj, he, he']

theorem Listed.step {v w : SlotVector α} {op : Op α} (h : Listed v) (hop : v.freesOnce op)
    (hw : v.step op = some w) : Listed w := by
  cases hw
  cases op with
  | pop i => exact h.pop hop
  | emplaceBack object =>
    obtain ⟨he, -⟩ | ⟨i, he, hr⟩ | ⟨object', g, w, hop, hw, he, -⟩ :=
      v.apply_cases (.emplaceBack object)
    · rwa [he]
    · cases hw' : v.emplaceBack object with
      | none => simpa [apply, hw'] using h
      | some r => simp [returned, hw'] at hr
    · rw [he]
      exact h.emplaceBack hw

/-- The queue has as many indices as there are empty slots. -/
theorem Listed.counted {v : SlotVector α} (h : Listed v) :
    v.occupied + v.emptySlots.length = v.clients.length := by
  have hperm : v.emptySlots.Perm ((List.range v.clients.length).filter fun i =>
      (v.slotAt i).any (·.object.isNone)) := by
    rw [List.perm_iff_count]
    intro i
    cases hs : v.slotAt i with
    | none =>
      have hi : i ∉ v.emptySlots := fun hm =>
        Nat.not_le_of_lt (v.inRange i hm) (slotAt_eq_none.mp hs)
      rw [List.count_eq_zero_of_not_mem hi, List.count_eq_zero_of_not_mem (by simp [hs])]
    | some slot =>
      have hi : i < v.clients.length := by
        rw [← Nat.not_le, ← slotAt_eq_none, hs]
        exact Option.some_ne_none slot
      rw [h i slot hs]
      split
      · rename_i hnone
        rw [List.count_filter (by simpa [hs] using hnone)]
        exact (List.count_eq_one_of_mem List.nodup_range (List.mem_range.mpr hi)).symm
      · rename_i hnone
        have hfull : i ∉ (List.range v.clients.length).filter fun i =>
            (v.slotAt i).any (·.object.isNone) := by
          simp only [List.mem_filter, hs, Option.any_some, not_and]
          exact fun _ => hnone
        rw [List.count_eq_zero_of_not_mem hfull]
  have hfree : v.emptySlots.length = v.clients.countP (·.object.isNone) := by
    rw [hperm.length_eq, ← List.countP_eq_length_filter]
    exact List.countP_range v.clients (·.object.isNone)
  rw [occupied, hfree,
    List.length_eq_countP_add_countP (fun slot : Slot α => slot.object.isSome) (l := v.clients)]
  congr 1
  exact List.countP_congr fun slot _ => by simp

theorem Listed.intact {v : SlotVector α} (h : Listed v) : Intact v where
  listed := h
  counted := h.counted
  spares := by
    intro object g w hw slot hslot
    obtain ⟨-, -, ⟨slot', he, -, -⟩ | ⟨-, -, hnone, -⟩⟩ := emplaceBack_cases hw
    · have hcount := h g.index slot hslot
      rw [he, List.count_cons_self] at hcount
      split at hcount
      · rename_i hnone
        simpa using hnone
      · omega
    · rw [hslot] at hnone
      cases hnone

/-- The free queue lists the empty slots all along a run exactly when no slot is freed twice. -/
theorem free_list_intact_iff (ops : List (Op α)) :
    Lts.Always step Intact empty ops ↔ Lts.Along step (fun v op => v.freesOnce op) empty ops := by
  constructor
  · refine Lts.along_of_always (fun v op w hw hv hw' => ?_) (run_step empty ops)
    cases hw
    cases op with
    | emplaceBack object => rfl
    | pop i =>
      cases hs : v.slotAt i with
      | none => simp [freesOnce, hs]
      | some slot =>
        -- a second entry for the slot would be there after the call
        cases hobject : slot.object with
        | some object => simp [freesOnce, hs, hobject]
        | none =>
          have hbefore := hv.listed i slot hs
          have hafter := hw'.listed i slot.clear (by simp [apply, slotAt_pop, hs])
          rw [apply, emptySlots_pop (by simp [hs]), List.count_append, hbefore] at hafter
          simp [hobject, Slot.clear] at hafter
  · intro h bs hp v hr
    exact (Lts.invariant (fun v op w hv hop hw => hv.step hop hw) empty_listed
      (h.initial hp) hr).intact

/-- A slot is freed twice. -/
theorem not_free_list_intact :
    ¬ Lts.Always step Intact (empty : SlotVector Nat) [.emplaceBack 7, .pop 0, .pop 0] := by
  intro h
  have hcount := (h _ (List.prefix_refl _) _ rfl).listed 0 ⟨none, 1⟩ (by decide)
  revert hcount
  decide

theorem freesOnce_of_freesOccupied {v : SlotVector α} {op : Op α} (h : v.freesOccupied op) :
    v.freesOnce op := by
  cases op with
  | emplaceBack object => rfl
  | pop i =>
    cases hs : v.slotAt i with
    | none => simp [freesOnce, hs]
    | some slot => simpa [freesOnce, freesOccupied, hs] using h

theorem occupied_le_peak (v : SlotVector α) (ops : List (Op α)) : v.occupied ≤ v.peak ops := by
  cases ops with
  | nil => exact Nat.le_refl _
  | cons op ops => exact Nat.le_max_left _ _

/-- A slot is added only when all slots are occupied. -/
theorem Listed.grows {v : SlotVector α} (h : Listed v) {op : Op α} (hop : v.freesOnce op) :
    (v.apply op).clients.length = v.clients.length ∨
      ((v.apply op).clients.length = v.clients.length + 1 ∧
        (v.apply op).occupied = v.clients.length + 1) := by
  obtain ⟨he, -⟩ | ⟨i, he, -⟩ | ⟨object, g, w, -, hw, he, -⟩ := v.apply_cases op
  · exact .inl (by rw [he])
  · exact .inl (by rw [he, length_pop])
  · have hcounted := (h.step hop rfl).counted
    rw [he] at hcounted ⊢
    obtain ⟨-, hlen⟩ | ⟨-, hnil, -, hlen⟩ := emplaceBack_length hw
    · exact .inl hlen
    · rw [hnil, List.length_nil, Nat.add_zero, hlen] at hcounted
      exact .inr ⟨hlen, hcounted⟩

theorem Listed.length_run {v : SlotVector α} (h : Listed v) {ops : List (Op α)}
    (hops : Lts.Along SlotVector.step (fun v op => v.freesOnce op) v ops) :
    (v.run ops).clients.length = max v.clients.length (v.peak ops) := by
  induction ops generalizing v with
  | nil =>
    have hcounted := h.counted
    simp only [run, List.foldl_nil, peak]
    omega
  | cons op ops ih =>
    have hcounted := h.counted
    have hrun := ih (h.step hops.1 rfl) (hops.2 _ rfl)
    have hpeak := (v.apply op).occupied_le_peak ops
    have hgrows := h.grows hops.1
    change ((v.apply op).run ops).clients.length = _
    rw [hrun, peak]
    omega

/-- What is in the free queue and what is freed is granted again in this order. -/
theorem Listed.regranted_run {v : SlotVector α} (h : Listed v) {ops : List (Op α)}
    (hops : Lts.Along SlotVector.step (fun v op => v.freesOccupied op) v ops) :
    v.emptySlots ++ freed ops = v.regranted ops ++ (v.run ops).emptySlots := by
  induction ops generalizing v with
  | nil => simp [freed, regranted, run]
  | cons op ops ih =>
    have hrun := ih (h.step (freesOnce_of_freesOccupied hops.1) rfl) (hops.2 _ rfl)
    change _ = (v.regrants op ++ (v.apply op).regranted ops) ++ ((v.apply op).run ops).emptySlots
    rw [List.append_assoc, ← hrun]
    cases op with
    | pop i =>
      have hi : v.slotAt i ≠ none := by
        intro hs
        simpa [freesOccupied, hs] using hops.1
      simp [apply, emptySlots_pop hi, freed, regrants, returned]
    | emplaceBack object =>
      cases hw : v.emplaceBack object with
      | none => simp [apply, hw, freed, regrants, returned]
      | some r =>
        obtain ⟨g, w⟩ := r
        obtain ⟨-, -, ⟨slot, he, hslot, -⟩ | ⟨he, he', hslot, -⟩⟩ := emplaceBack_cases hw
        · simp [apply, hw, freed, regrants, returned, hslot, he]
        · simp [apply, hw, freed, regrants, returned, hslot, he, he']

/-- The vector after operations that started from no slots. -/
structure Compact (ops : List (Op α)) : Prop where
  counted : ((empty : SlotVector α).run ops).globalIndex = (empty.run ops).clients.length
  peak : ((empty : SlotVector α).run ops).clients.length = (empty : SlotVector α).peak ops
  inOrder : freed ops = (empty : SlotVector α).regranted ops ++ (empty.run ops).emptySlots

/-- Where only occupied slots are freed, there are never more slots than were occupied at one
time, and they are granted again in the order in which they were freed. -/
theorem slots_compact (ops : List (Op α))
    (hops : Lts.Along step (fun v op => v.freesOccupied op) empty ops) :
    ∀ before, before <+: ops → Compact before := by
  intro before hp
  have hbefore := hops.initial hp
  constructor
  · exact SlotVector.counted _
  · rw [empty_listed.length_run (hbefore.mono fun _ _ => freesOnce_of_freesOccupied)]
    exact Nat.zero_max _
  · exact empty_listed.regranted_run hbefore

/-- Two slots are freed and granted again before a third one is added. -/
theorem slots_compact_regranted : Compact ([.emplaceBack 7, .emplaceBack 8, .pop 1, .pop 0,
    .emplaceBack 9, .emplaceBack 10, .emplaceBack 11, .pop 0] : List (Op Nat)) :=
  slots_compact _ (by decide) _ (List.prefix_refl _)

end MydakServer.SlotVector
