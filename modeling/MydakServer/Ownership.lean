import MydakServer.Registry

/-! Who owns which slot, while no connection clears a slot it was not granted, and how
many sessions a key has, while no two logins with it overlap. -/
namespace MydakServer.Registry

/-- `remove_client` has cleared the slot that the connection was granted. -/
def OwnClear (r : Registry) (x : Clear) : Prop :=
  ∃ g, r.answer x.connection = some g ∧ g ≠ .empty ∧ g.index = x.index ∧
    x.slot = ⟨some (.new x.connection), g.generation⟩

structure Owned (r : Registry) : Prop where
  free : r.clientsSlotVector.emptySlots.Nodup
  vacant : ∀ i ∈ r.clientsSlotVector.emptySlots, ∃ slot,
    r.clientsSlotVector.slotAt i = some slot ∧ slot.object = none
  holds : ∀ c g, Granted r c g →
    r.clientsSlotVector.slotAt g.index = some ⟨some (.new c), g.generation⟩
  held : ∀ i slot c, r.clientsSlotVector.slotAt i = some slot → slot.object = some (.new c) →
    ∃ g, Granted r c g ∧ g.index = i
  entries : ∀ key e, r.clientIndices key = some e →
    ∃ c, Granted r c e ∧ (r.connection c).publicKey = key
  cleared : ∀ x ∈ r.cleared, r.phase x.connection = .ended ∧ OwnClear r x
  once : (r.cleared.map Clear.connection).Nodup

theorem start_owned : Owned start := by
  constructor <;> simp [start, SlotVector.slotAt, Granted]

theorem granted_setPhase {r : Registry} {c : ConnId} {p : Phase} (hc : r.phase c ≠ .running)
    (hp : p ≠ .running) {d : ConnId} {g : ClientIndex} :
    Granted (r.setPhase c p) d g ↔ Granted r d g := by
  by_cases hd : d = c
  · subst hd
    simp [Granted, setPhase, hc, hp]
  · simp [Granted, setPhase, Function.update_of_ne hd]

theorem granted_answered {r : Registry} {c : ConnId} (hc : r.phase c ≠ .running)
    {g g' : ClientIndex} {d : ConnId} :
    Granted (r.answered c g) d g' ↔ (d = c ∧ g' = g ∧ g ≠ .empty) ∨ Granted r d g' := by
  by_cases hd : d = c
  · subst hd
    simp only [Granted, Registry.answered, setPhase, Function.update_self, Option.some.injEq, hc,
      true_and, false_and, or_false]
    constructor
    · rintro ⟨rfl, hg⟩
      exact ⟨rfl, hg⟩
    · rintro ⟨rfl, hg⟩
      exact ⟨rfl, hg⟩
  · simp [Granted, Registry.answered, setPhase, hd]

theorem granted_remove {r : Registry} {c d : ConnId} {g : ClientIndex} :
    Granted (r.remove c) d g ↔ d ≠ c ∧ Granted r d g := by
  by_cases hd : d = c
  · subst hd
    simp [Granted, Registry.remove, setPhase]
  · simp [Granted, Registry.remove, setPhase, hd]

theorem Granted.unique {r : Registry} {c : ConnId} {g g' : ClientIndex} (h : Granted r c g)
    (h' : Granted r c g') : g = g' :=
  Option.some.inj (h.2.1.symm.trans h'.2.1)

theorem publicKey_setKey {r : Registry} {c d : ConnId} {key : PublicKey} (hd : d ≠ c) :
    ((r.setKey c key).connection d).publicKey = (r.connection d).publicKey := by
  simp [Registry.setKey, Function.update_of_ne hd]

theorem publicKey_answered {r : Registry} {c : ConnId} {g : ClientIndex} (d : ConnId) :
    ((r.answered c g).connection d).publicKey = (r.connection d).publicKey := by
  by_cases hd : d = c
  · subst hd
    simp [Registry.answered]
  · simp [Registry.answered, Function.update_of_ne hd]

theorem Owned.setKey {r : Registry} (h : Owned r) {c : ConnId} (hc : r.phase c ≠ .running)
    (key : PublicKey) : Owned (r.setKey c key) := by
  refine { h with entries := ?_ }
  intro key' e he
  obtain ⟨d, hd, hk⟩ := h.entries key' e he
  have hdc : d ≠ c := by
    intro heq
    subst heq
    exact hc hd.1
  exact ⟨d, hd, by rw [publicKey_setKey hdc, hk]⟩

/-- The same sessions hold the same slots. -/
theorem Owned.of_granted {r r' : Registry} (h : Owned r)
    (hg : ∀ d g, Granted r' d g ↔ Granted r d g)
    (hslots : r'.clientsSlotVector = r.clientsSlotVector)
    (hentries : r'.clientIndices = r.clientIndices)
    (hkey : ∀ d, (r'.connection d).publicKey = (r.connection d).publicKey)
    (hcleared : r'.cleared = r.cleared)
    (hclear : ∀ x ∈ r.cleared, r'.phase x.connection = .ended ∧ OwnClear r' x) : Owned r' where
  free := hslots ▸ h.free
  vacant := hslots ▸ h.vacant
  holds := fun d g hd => hslots ▸ h.holds d g ((hg d g).mp hd)
  held := by
    intro i slot d hi ho
    obtain ⟨g, hd, hgi⟩ := h.held i slot d (hslots ▸ hi) ho
    exact ⟨g, (hg d g).mpr hd, hgi⟩
  entries := by
    intro key e he
    obtain ⟨d, hd, hk⟩ := h.entries key e (hentries ▸ he)
    exact ⟨d, (hg d e).mpr hd, (hkey d).trans hk⟩
  cleared := hcleared ▸ hclear
  once := hcleared ▸ h.once

theorem Owned.adding {r : Registry} (h : Owned r) {c : ConnId} (hc : r.phase c = .fresh) :
    Owned (r.setPhase c .adding) := by
  refine h.of_granted (fun d g => granted_setPhase (by simp [hc]) (by simp)) rfl rfl
    (fun _ => rfl) rfl fun x hx => ?_
  obtain ⟨hp, ho⟩ := h.cleared x hx
  have hxc : x.connection ≠ c := by
    intro hxc
    rw [hxc, hc] at hp
    cases hp
  exact ⟨by simpa [setPhase, Function.update_of_ne hxc] using hp, ho⟩

theorem Owned.cleared_answered {r : Registry} (h : Owned r) {c : ConnId}
    (hc : r.phase c ≠ .ended) (g : ClientIndex) {x : Clear} (hx : x ∈ r.cleared) :
    (r.answered c g).phase x.connection = .ended ∧ OwnClear (r.answered c g) x := by
  obtain ⟨hp, ho⟩ := h.cleared x hx
  have hxc : x.connection ≠ c := fun hxc => hc (hxc ▸ hp)
  refine ⟨by simpa [Registry.answered, setPhase, Function.update_of_ne hxc] using hp, ?_⟩
  simpa [OwnClear, Registry.answered, Function.update_of_ne hxc] using ho

theorem Owned.reject {r : Registry} (h : Owned r) {c : ConnId} (hc : r.phase c = .fresh) :
    Owned (r.answered c .empty) := by
  have hg : ∀ d g, Granted (r.answered c .empty) d g ↔ Granted r d g := by
    intro d g
    rw [granted_answered (by simp [hc])]
    simp
  exact h.of_granted hg rfl rfl publicKey_answered rfl
    fun x hx => h.cleared_answered (by simp [hc]) _ hx

/-- The slot that `emplace_back` hands out is no session's. -/
theorem Owned.unheld {r : Registry} (h : Owned r) {c : ConnId} {g : ClientIndex}
    {v : SlotVector Client} (hv : r.clientsSlotVector.emplaceBack (.new c) = some (g, v))
    {d : ConnId} {g' : ClientIndex} (hd : Granted r d g') : g'.index ≠ g.index := by
  intro hi
  have hslot := h.holds d g' hd
  rw [hi] at hslot
  obtain ⟨-, -, ⟨slot, he, hs, -⟩ | ⟨-, -, hs, -⟩⟩ := SlotVector.emplaceBack_cases hv
  · obtain ⟨slot', hs', ho⟩ := h.vacant g.index (by simp [he])
    rw [hslot, Option.some.injEq] at hs'
    simp [← hs'] at ho
  · simp [hslot] at hs

theorem Owned.grant {r : Registry} (h : Owned r) {c : ConnId} (hc : r.phase c = .adding)
    {g : ClientIndex} {v : SlotVector Client} (dbIndex : Nat)
    (hv : r.clientsSlotVector.emplaceBack (.new c) = some (g, v)) :
    Owned ((r.emplaced c v { g with dbIndex }).answered c { g with dbIndex }) := by
  obtain ⟨-, hslots, hfrom⟩ := SlotVector.emplaceBack_cases hv
  have hne := SlotVector.emplaceBack_ne_empty hv dbIndex
  have hg : ∀ d g', Granted ((r.emplaced c v { g with dbIndex }).answered c { g with dbIndex })
      d g' ↔ (d = c ∧ g' = { g with dbIndex }) ∨ Granted r d g' := by
    intro d g'
    rw [granted_answered (by simp [emplaced, hc])]
    simp [hne, Granted, emplaced]
  have hkeep : ∀ d g', Granted r d g' →
      v.slotAt g'.index = r.clientsSlotVector.slotAt g'.index := by
    intro d g' hd
    simp [hslots, h.unheld hv hd]
  constructor
  case free =>
    obtain ⟨slot, he, -⟩ | ⟨-, he, -⟩ := hfrom
    · have := h.free
      rw [he] at this
      exact (List.nodup_cons.mp this).2
    · simp [Registry.answered, setPhase, emplaced, he]
  case vacant =>
    intro i hi
    obtain ⟨slot, he, -⟩ | ⟨-, he, -⟩ := hfrom
    · have hn := h.free
      rw [he, List.nodup_cons] at hn
      have hig : i ≠ g.index := by
        intro heq
        subst heq
        exact hn.1 hi
      obtain ⟨slot', hs, ho⟩ := h.vacant i (by simpa [he] using .inr hi)
      exact ⟨slot', by simpa [Registry.answered, setPhase, emplaced, hslots, hig] using hs, ho⟩
    · simp [Registry.answered, setPhase, emplaced, he] at hi
  case holds =>
    intro d g' hd
    obtain ⟨rfl, rfl⟩ | hd := (hg d g').mp hd
    · simp [Registry.answered, setPhase, emplaced, hslots]
    · exact (hkeep d g' hd).trans (h.holds d g' hd)
  case held =>
    intro i slot d hi ho
    simp only [Registry.answered, setPhase, emplaced, hslots] at hi
    split at hi
    · rename_i hig
      cases hi
      obtain rfl := Client.new_inj (Option.some.inj ho)
      exact ⟨_, (hg _ _).mpr (.inl ⟨rfl, rfl⟩), hig.symm⟩
    · obtain ⟨g', hd, hgi⟩ := h.held i slot d hi ho
      exact ⟨g', (hg d g').mpr (.inr hd), hgi⟩
  case entries =>
    intro key e he
    by_cases hk : key = (r.connection c).publicKey
    · subst hk
      simp only [Registry.answered, setPhase, emplaced, Function.update_self,
        Option.some.injEq] at he
      exact ⟨c, (hg c e).mpr (.inl ⟨rfl, he.symm⟩), publicKey_answered c⟩
    · obtain ⟨d, hd, hdk⟩ := h.entries key e
        (by simpa [Registry.answered, setPhase, emplaced, Function.update_of_ne hk] using he)
      exact ⟨d, (hg d e).mpr (.inr hd), (publicKey_answered d).trans hdk⟩
  case cleared => exact fun x hx => h.cleared_answered (by simp [hc]) _ hx
  case once => exact h.once

/-- The entries that the end of a connection leaves are of other sessions. -/
theorem Owned.entries_remove {r : Registry} (h : Owned r) {c : ConnId} {key : PublicKey}
    {e : ClientIndex} (he : (r.remove c).clientIndices key = some e) :
    ∃ d, Granted (r.remove c) d e ∧ ((r.remove c).connection d).publicKey = key := by
  have hk : key ≠ (r.connection c).publicKey := by
    intro heq
    subst heq
    simp [Registry.remove] at he
  obtain ⟨d, hd, hdk⟩ := h.entries key e
    (by simpa [Registry.remove, Function.update_of_ne hk] using he)
  have hdc : d ≠ c := by
    intro heq
    subst heq
    exact hk hdk.symm
  exact ⟨d, granted_remove.mpr ⟨hdc, hd⟩, hdk⟩

theorem Owned.cleared_remove {r : Registry} (h : Owned r) {c : ConnId} (hc : r.phase c ≠ .ended)
    {x : Clear} (hx : x ∈ r.cleared) :
    (r.remove c).phase x.connection = .ended ∧ OwnClear r x := by
  obtain ⟨hp, ho⟩ := h.cleared x hx
  have hxc : x.connection ≠ c := fun hxc => hc (hxc ▸ hp)
  exact ⟨by simpa [Registry.remove, setPhase, Function.update_of_ne hxc] using hp, ho⟩

/-- The end of a session gives back its own slot. -/
theorem Owned.close {r : Registry} (h : Owned r) (hw : WellFormed r) {c : ConnId}
    {g : ClientIndex} (hg : Granted r c g) : Owned (r.remove c) := by
  have hc : r.phase c ≠ .ended := by simp [hg.1]
  have hindex : (r.connection c).indices = g := by simp [hw.indices, hg.2.1]
  have hslot := h.holds c g hg
  constructor
  case free =>
    simp only [Registry.remove, hindex]
    rw [SlotVector.emptySlots_pop (by simp [hslot])]
    refine h.free.append (List.nodup_singleton _) ?_
    simp only [List.disjoint_singleton]
    intro hm
    obtain ⟨slot, hs, ho⟩ := h.vacant _ hm
    rw [hslot, Option.some.injEq] at hs
    simp [← hs] at ho
  case vacant =>
    intro i hi
    simp only [Registry.remove, hindex, SlotVector.slotAt_pop] at hi ⊢
    rw [SlotVector.emptySlots_pop (by simp [hslot]), List.mem_append, List.mem_singleton] at hi
    by_cases hig : i = g.index
    · exact ⟨⟨none, g.generation⟩, by simp [hig, hslot, Slot.clear], rfl⟩
    · simpa [hig] using h.vacant i (hi.resolve_right hig)
  case holds =>
    intro d g' hd
    obtain ⟨hdc, hd⟩ := granted_remove.mp hd
    have hslot' := h.holds d g' hd
    have hi : g'.index ≠ g.index := by
      intro hi
      rw [hi, hslot, Option.some.injEq, Slot.mk.injEq] at hslot'
      exact hdc (Client.new_inj (Option.some.inj hslot'.1)).symm
    simpa [Registry.remove, hindex, SlotVector.slotAt_pop, hi] using hslot'
  case held =>
    intro i slot d hi ho
    simp only [Registry.remove, hindex, SlotVector.slotAt_pop] at hi
    split at hi
    · obtain ⟨slot', -, rfl⟩ := Option.map_eq_some_iff.mp hi
      cases ho
    · rename_i hig
      obtain ⟨g', hd, rfl⟩ := h.held i slot d hi ho
      refine ⟨g', granted_remove.mpr ⟨?_, hd⟩, rfl⟩
      intro heq
      subst heq
      exact hig (congrArg _ (hd.unique hg))
  case entries => exact fun key e he => h.entries_remove he
  case cleared =>
    intro x hx
    simp only [Registry.remove, hindex, hslot, Option.toList_some, List.map_cons, List.map_nil,
      List.mem_append, List.mem_singleton] at hx
    obtain hx | rfl := hx
    · exact h.cleared_remove hc hx
    · exact ⟨by simp [Registry.remove, setPhase], g, hg.2.1, hg.2.2, rfl, rfl⟩
  case once =>
    simp only [Registry.remove, hindex, hslot, Option.toList_some, List.map_cons, List.map_nil,
      List.map_append]
    refine h.once.append (List.nodup_singleton _) ?_
    simp only [List.disjoint_singleton, List.mem_map, not_exists, not_and]
    intro x hx hxc
    exact hc (hxc ▸ (h.cleared x hx).1)

/-- The end of a connection whose index leads to no slot touches none. -/
theorem Owned.closeNone {r : Registry} (h : Owned r) (hw : WellFormed r) {c : ConnId}
    (hc : r.phase c ≠ .ended)
    (hnone : r.clientsSlotVector.slotAt (r.connection c).indices.index = none) :
    Owned (r.remove c) := by
  have hslots : (r.remove c).clientsSlotVector = r.clientsSlotVector :=
    SlotVector.pop_of_none hnone
  have hlog : (r.remove c).cleared = r.cleared := by simp [Registry.remove, hnone]
  have hfree : ∀ g, ¬ Granted r c g := by
    intro g hg
    have hindex : (r.connection c).indices = g := by simp [hw.indices, hg.2.1]
    rw [hindex, h.holds c g hg] at hnone
    cases hnone
  constructor
  case free => exact hslots ▸ h.free
  case vacant => exact hslots ▸ h.vacant
  case holds =>
    intro d g hd
    rw [hslots]
    exact h.holds d g (granted_remove.mp hd).2
  case held =>
    intro i slot d hi ho
    rw [hslots] at hi
    obtain ⟨g, hd, hgi⟩ := h.held i slot d hi ho
    refine ⟨g, granted_remove.mpr ⟨?_, hd⟩, hgi⟩
    intro heq
    subst heq
    exact hfree g hd
  case entries => exact fun key e he => h.entries_remove he
  case cleared =>
    rw [hlog]
    exact fun x hx => h.cleared_remove hc hx
  case once => exact hlog ▸ h.once

/-- Every step keeps the slots owned if, where it ends a connection that has not called
`add_client`, there is no slot yet. -/
theorem Owned.step {r r' : Registry} (h : Owned r) (hw : WellFormed r) {a : Action}
    (hfail : ∀ c key, a = .fail c key → ∀ i, r.clientsSlotVector.slotAt i = none)
    (hr : r.step a = some r') : Owned r' := by
  cases a with
  | login c key =>
    simp only [Registry.step] at hr
    split at hr
    · rename_i hc
      cases hr
      exact (h.setKey (by simp [hc.1]) key).adding hc.1
    · cases hr
  | reject c key =>
    simp only [Registry.step] at hr
    split at hr
    · rename_i hc
      cases hr
      exact (h.setKey (by simp [hc.1]) key).reject hc.1
    · cases hr
  | grant c dbIndex =>
    simp only [Registry.step] at hr
    split at hr
    · rename_i hc
      obtain ⟨⟨g, v⟩, hv, rfl⟩ := Option.map_eq_some_iff.mp hr
      exact h.grant hc dbIndex hv
    · cases hr
  | fail c key =>
    simp only [Registry.step] at hr
    split at hr
    · rename_i hc
      cases hr
      exact (h.setKey (by simp [hc]) key).closeNone (hw.setKey c key)
        (by simp [Registry.setKey, hc]) (hfail c key rfl _)
    · cases hr
  | close c =>
    simp only [Registry.step] at hr
    split at hr
    · rename_i hc
      cases hr
      obtain ⟨g, hg⟩ := Option.ne_none_iff_exists'.mp (hw.answered c hc)
      by_cases he : g = .empty
      · apply h.closeNone hw (by simp [hc])
        simp [hw.indices, hg, he, ClientIndex.empty, SlotVector.slotAt_invalid]
      · exact h.close hw ⟨hc, hg, he⟩
    · cases hr

/-- No two sessions of one key, and the registry lists every key that has a session. -/
structure Single (r : Registry) : Prop where
  listed : ∀ c g, Granted r c g → r.clientIndices (r.connection c).publicKey ≠ none
  oneSession : ∀ c d g g', Granted r c g → Granted r d g' →
    (r.connection c).publicKey = (r.connection d).publicKey → c = d

/-- The key of a login is not listed when it is granted a slot, and a connection without a
slot leaves no entry behind that it could erase. -/
def Separate (r : Registry) : Action → Prop
  | .grant c _ => r.clientIndices (r.connection c).publicKey = none
  | .fail _ key => r.clientIndices key = none
  | .close c => (∃ g, Granted r c g) ∨ r.clientIndices (r.connection c).publicKey = none
  | _ => True

theorem start_single : Single start := by
  constructor <;> simp [start, Granted]

theorem Single.setKey {r : Registry} (h : Single r) {c : ConnId} (hc : r.phase c = .fresh)
    (key : PublicKey) : Single (r.setKey c key) := by
  have hg : ∀ d g, Granted r d g → d ≠ c := by
    intro d g hd heq
    subst heq
    simp [Granted, hc] at hd
  constructor
  · intro d g hd
    rw [publicKey_setKey (hg d g hd)]
    exact h.listed d g hd
  · intro d e g g' hd he hk
    rw [publicKey_setKey (hg d g hd), publicKey_setKey (hg e g' he)] at hk
    exact h.oneSession d e g g' hd he hk

theorem Single.adding {r : Registry} (h : Single r) {c : ConnId} (hc : r.phase c = .fresh) :
    Single (r.setPhase c .adding) := by
  have hg : ∀ d g, Granted (r.setPhase c .adding) d g ↔ Granted r d g :=
    fun d g => granted_setPhase (by simp [hc]) (by simp)
  constructor
  · exact fun d g hd => h.listed d g ((hg d g).mp hd)
  · exact fun d e g g' hd he hk => h.oneSession d e g g' ((hg d g).mp hd) ((hg e g').mp he) hk

theorem Single.reject {r : Registry} (h : Single r) {c : ConnId} (hc : r.phase c = .fresh) :
    Single (r.answered c .empty) := by
  have hg : ∀ d g, Granted (r.answered c .empty) d g ↔ Granted r d g :=
    fun d g => by
      rw [granted_answered (by simp [hc])]
      simp
  constructor
  · intro d g hd
    rw [publicKey_answered]
    exact h.listed d g ((hg d g).mp hd)
  · intro d e g g' hd he hk
    rw [publicKey_answered, publicKey_answered] at hk
    exact h.oneSession d e g g' ((hg d g).mp hd) ((hg e g').mp he) hk

theorem Single.grant {r : Registry} (h : Single r) {c : ConnId} (hc : r.phase c = .adding)
    (hnone : r.clientIndices (r.connection c).publicKey = none) (v : SlotVector Client)
    (g : ClientIndex) : Single ((r.emplaced c v g).answered c g) := by
  have hg : ∀ d g', Granted ((r.emplaced c v g).answered c g) d g' →
      d = c ∨ Granted r d g' := by
    intro d g' hd
    rw [granted_answered (by simp [emplaced, hc])] at hd
    obtain ⟨hdc, -⟩ | hd := hd
    · exact .inl hdc
    · exact .inr hd
  have hkey : ∀ d g', Granted r d g' →
      (r.connection d).publicKey ≠ (r.connection c).publicKey :=
    fun d g' hd hk => h.listed d g' hd (hk ▸ hnone)
  constructor
  · intro d g' hd
    rw [publicKey_answered]
    by_cases hk : (r.connection d).publicKey = (r.connection c).publicKey
    · simp [Registry.answered, setPhase, emplaced, hk]
    · obtain rfl | hd := hg d g' hd
      · exact absurd rfl hk
      · simpa [Registry.answered, setPhase, emplaced, Function.update_of_ne hk] using
          h.listed d g' hd
  · intro d e g₁ g₂ hd he hk
    rw [publicKey_answered, publicKey_answered] at hk
    obtain rfl | hd' := hg d g₁ hd <;> obtain rfl | he' := hg e g₂ he
    · rfl
    · exact absurd hk.symm (hkey e g₂ he')
    · exact absurd hk (hkey d g₁ hd')
    · exact h.oneSession d e g₁ g₂ hd' he' hk

theorem Single.remove {r : Registry} (h : Single r) {c : ConnId}
    (hc : (∃ g, Granted r c g) ∨ r.clientIndices (r.connection c).publicKey = none) :
    Single (r.remove c) := by
  constructor
  · intro d g hd
    obtain ⟨hdc, hd⟩ := granted_remove.mp hd
    have hlisted := h.listed d g hd
    have hk : (r.connection d).publicKey ≠ (r.connection c).publicKey := by
      intro hk
      obtain ⟨g', hg'⟩ | hnone := hc
      · exact hdc (h.oneSession d c g g' hd hg' hk)
      · exact hlisted (hk ▸ hnone)
    simpa [Registry.remove, setPhase, Function.update_of_ne hk] using hlisted
  · exact fun d e g g' hd he hk => h.oneSession d e g g' (granted_remove.mp hd).2
      (granted_remove.mp he).2 hk

theorem Single.step {r r' : Registry} (h : Single r) {a : Action} (hs : Separate r a)
    (hr : r.step a = some r') : Single r' := by
  cases a with
  | login c key =>
    simp only [Registry.step] at hr
    split at hr
    · rename_i hc
      cases hr
      exact (h.setKey hc.1 key).adding hc.1
    · cases hr
  | reject c key =>
    simp only [Registry.step] at hr
    split at hr
    · rename_i hc
      cases hr
      exact (h.setKey hc.1 key).reject hc.1
    · cases hr
  | grant c dbIndex =>
    simp only [Registry.step] at hr
    split at hr
    · rename_i hc
      obtain ⟨⟨g, v⟩, -, rfl⟩ := Option.map_eq_some_iff.mp hr
      exact h.grant hc hs v { g with dbIndex }
    · cases hr
  | fail c key =>
    simp only [Registry.step] at hr
    split at hr
    · rename_i hc
      cases hr
      refine (h.setKey hc key).remove (.inr ?_)
      simpa [Registry.setKey, Separate] using hs
    · cases hr
  | close c =>
    simp only [Registry.step] at hr
    split at hr
    · cases hr
      exact h.remove hs
    · cases hr

end MydakServer.Registry
