import MydakServer.Backpressure
import MydakServer.FreeList

/-! How many slots the server has: as many as there were sessions at one time, however the
connections end. -/
namespace MydakServer

namespace SlotVector
variable {α : Type*} {v w : SlotVector α}

/-- Every empty slot is in the free queue. -/
def Spare (v : SlotVector α) : Prop := ∀ i slot, v.slotAt i = some slot → slot.object = none →
  i ∈ v.emptySlots

theorem Spare.pop (h : v.Spare) (j : Nat) : (v.pop j).Spare := by
  cases hj : v.slotAt j with
  | none => rwa [pop_of_none hj]
  | some slot' =>
    intro i slot hi ho
    rw [emptySlots_pop (by simp [hj]), List.mem_append, List.mem_singleton]
    rw [slotAt_pop] at hi
    by_cases hij : i = j
    · exact .inr hij
    · rw [if_neg hij] at hi
      exact .inl (h i slot hi ho)

theorem Spare.emplaceBack (h : v.Spare) {object : α} {g : ClientIndex}
    (hw : v.emplaceBack object = some (g, w)) : w.Spare := by
  obtain ⟨-, hslots, hg⟩ := emplaceBack_cases hw
  intro i slot hi ho
  rw [hslots] at hi
  by_cases hij : i = g.index
  · rw [if_pos hij, Option.some.injEq] at hi
    simp [← hi] at ho
  · rw [if_neg hij] at hi
    have hm := h i slot hi ho
    obtain ⟨slot', he, -⟩ | ⟨he, -⟩ := hg
    · rw [he, List.mem_cons] at hm
      exact hm.resolve_left hij
    · simp [he] at hm

theorem Spare.full (h : v.Spare) (he : v.emptySlots = []) : v.clients.length = v.occupied := by
  refine (List.countP_eq_length.mpr fun slot hslot => ?_).symm
  obtain ⟨i, hi⟩ := List.mem_iff_getElem?.mp hslot
  by_contra hn
  have hm := h i slot hi (by simpa using hn)
  simp [he] at hm

/-- A slot is added only when all slots are occupied, and then they all are again. -/
theorem Spare.grows (h : v.Spare) {object : α} {g : ClientIndex}
    (hw : v.emplaceBack object = some (g, w)) :
    w.clients.length = v.clients.length ∨
      w.clients.length = v.clients.length + 1 ∧ w.clients.length = w.occupied := by
  obtain ⟨-, hlen⟩ | ⟨-, he, -, hlen⟩ := emplaceBack_length hw
  · exact .inl hlen
  · exact .inr ⟨hlen, (h.emplaceBack hw).full he⟩

end SlotVector

namespace Server
variable {I : Tables → Prop} {s s' t : Server} {a : Action}

theorem Same.slots (h : Same s t) : t.clientsSlotVector = s.clientsSlotVector :=
  congrArg Registry.clientsSlotVector h.registry

/-- A step grants a slot, or clears one, or leaves the slots alone. -/
theorem Move.vector (hm : Move I s a t) : t.clientsSlotVector = s.clientsSlotVector ∨
    (∃ i, t.clientsSlotVector = s.clientsSlotVector.pop i) ∨
      ∃ c g, s.clientsSlotVector.emplaceBack (.new c) = some (g, t.clientsSlotVector) := by
  cases hm with
  | grant _ c key g v id state hc hv hev =>
    obtain ⟨channel, signal, socket, he, -⟩ :=
      (s.setKey c key).granted_eq c v { g with dbIndex := id }
    rw [he]
    exact .inr (.inr ⟨c, g, hv⟩)
  | fail c bytes => exact .inr (.inl ⟨_, rfl⟩)
  | close _ c => exact .inr (.inl ⟨_, rfl⟩)
  | relay c bytes lookup size recipient e d =>
    have hsame := (asyncSend_same (s.push d (s.frame c size recipient bytes).message) d
      (.start c)).slots
    exact .inl hsame
  | hand c d row rest sent =>
    have hsame := (asyncSend_same (s.push d row.data) d (.delayed c)).slots
    exact .inl hsame
  | park c => exact .inl (s.socketCoroutine_same c).slots
  | wrote c socket q channel message front rest =>
    have hsame := (writeMessages_same (s.popped socket q message rest) c
      ⟨some socket, some q, channel⟩ q).slots
    exact .inl hsame
  | _ => exact .inl rfl

/-- Each occupied slot is that of one session. -/
theorem Settled.sessions_length (h : Settled s) :
    s.sessions.length = s.clientsSlotVector.occupied := by
  let indexOf := fun c => (s.connection c).indices.index
  have hinj : ∀ c ∈ s.sessions, ∀ d ∈ s.sessions, indexOf c = indexOf d → c = d := by
    intro c hc d hd heq
    obtain ⟨generation, hi⟩ := h.slot_of_registered (List.mem_filter.mp hc).2
    obtain ⟨generation', hj⟩ := h.slot_of_registered (List.mem_filter.mp hd).2
    rw [show (s.connection c).indices.index = (s.connection d).indices.index from heq, hj] at hi
    exact (Client.new_inj (Option.some.inj (congrArg Slot.object (Option.some.inj hi)))).symm
  have hnodup : (s.sessions.map indexOf).Nodup :=
    (List.nodup_range.filter _).map_on hinj
  have hperm : (s.sessions.map indexOf).Perm
      ((List.range s.clientsSlotVector.clients.length).filter fun i =>
        (s.clientsSlotVector.clients[i]?).any (·.object.isSome)) := by
    refine (List.perm_ext_iff_of_nodup hnodup (List.nodup_range.filter _)).mpr fun i => ?_
    simp only [List.mem_map, List.mem_filter, List.mem_range]
    constructor
    · rintro ⟨c, hc, rfl⟩
      obtain ⟨generation, hi⟩ := h.slot_of_registered (List.mem_filter.mp hc).2
      have hi' : s.clientsSlotVector.clients[indexOf c]? = some ⟨some (.new c), generation⟩ := hi
      exact ⟨(List.getElem?_eq_some_iff.mp hi').1, by simp [hi']⟩
    · rintro ⟨-, hi⟩
      obtain ⟨slot, hslot, ho⟩ := (Option.any_eq_true _ _).mp hi
      obtain ⟨client, ho⟩ := Option.isSome_iff_exists.mp ho
      obtain ⟨c, rfl⟩ := h.steady.sound.wellFormed.objects i slot client hslot ho
      obtain ⟨g, hg, -, rfl, -⟩ := h.seated i slot c hslot ho
      have hreg : s.registered c :=
        registered_iff.mpr ⟨g.index, slot.generation, by rw [← ho]; exact hslot⟩
      have hc : c ∈ s.sessions :=
        List.mem_filter.mpr ⟨List.mem_range.mpr (h.steady.sound.accepted hg), hreg⟩
      exact ⟨c, hc, by simp [indexOf, h.steady.sound.indices hg]⟩
  have hlen := hperm.length_eq
  rw [List.length_map, ← List.countP_eq_length_filter, List.countP_range] at hlen
  exact hlen

/-- A step adds a slot only if every slot then belongs to a session. -/
theorem Settled.slots_step (h : Settled s) (hv : s.clientsSlotVector.Spare)
    (hstep : s.step a = some s') : s'.clientsSlotVector.Spare ∧
      s.clientsSlotVector.clients.length ≤ s'.clientsSlotVector.clients.length ∧
      (s'.clientsSlotVector.clients.length = s.clientsSlotVector.clients.length ∨
        s'.clientsSlotVector.clients.length = s'.sessions.length) := by
  obtain ⟨t, hm, halike⟩ := step_move h.steady.sound h.steady.linked hstep
  rw [(h.step hstep).sessions_length, halike.clientsSlotVector]
  obtain heq | ⟨i, heq⟩ | ⟨c, g, hw⟩ := hm.vector
  · rw [heq]
    exact ⟨hv, Nat.le_refl _, .inl rfl⟩
  · rw [heq, SlotVector.length_pop]
    exact ⟨hv.pop i, Nat.le_refl _, .inl rfl⟩
  · have hgrows := hv.grows hw
    refine ⟨hv.emplaceBack hw, by omega, by omega⟩

/-- The slots stay, and the empty ones among them stay in the free queue. -/
theorem Settled.slots_run {as : List Action} (h : Settled s) (hv : s.clientsSlotVector.Spare)
    (hr : Lts.run Server.step s as = some t) : Settled t ∧ t.clientsSlotVector.Spare ∧
      s.clientsSlotVector.clients.length ≤ t.clientsSlotVector.clients.length := by
  induction as generalizing s with
  | nil =>
    obtain rfl : s = t := Option.some.inj hr
    exact ⟨h, hv, Nat.le_refl _⟩
  | cons a as ih =>
    obtain ⟨u, hstep, hrest⟩ := Lts.run_cons.mp hr
    obtain ⟨hu, hle, -⟩ := h.slots_step hv hstep
    obtain ⟨ht, hspare, hle'⟩ := ih (h.step hstep) hu hrest
    exact ⟨ht, hspare, hle.trans hle'⟩

/-- The server has as many slots as there have been sessions at one time. -/
structure Peaked (s₀ : Server) (as : List Action) (s : Server) : Prop where
  reached : ∃ bs t, bs <+: as ∧ Lts.run step s₀ bs = some t ∧
    t.sessions.length = s.clientsSlotVector.clients.length
  bound : ∀ bs t, bs <+: as → Lts.run step s₀ bs = some t →
    t.sessions.length ≤ s.clientsSlotVector.clients.length

/-- In every run the number of slots is the largest number of sessions that there have been at
one time. -/
theorem slots_peaked (native : Proto.Endian) (succeeds : StartStep → Bool) (tables : Tables)
    (as : List Action) (s : Server)
    (hr : Lts.run step (init native succeeds tables) as = some s) :
    Peaked (init native succeeds tables) as s := by
  have hinit := init_settled native succeeds tables
  have hspare : (init native succeeds tables).clientsSlotVector.Spare := by
    simp [SlotVector.Spare, init, SlotVector.slotAt]
  refine ⟨?_, fun bs t hp ht => ?_⟩
  · obtain hsame | ⟨bs, t, hp, ht, hlen⟩ := Lts.exists_reached
      (m := fun s => s.clientsSlotVector.clients.length) (n := fun s => s.sessions.length)
      (I := fun s => Settled s ∧ s.clientsSlotVector.Spare)
      (fun s a t h hstep => by
        obtain ⟨hspare, -, hlen⟩ := h.1.slots_step h.2 hstep
        exact ⟨⟨h.1.step hstep, hspare⟩, hlen⟩) ⟨hinit, hspare⟩ hr
    · exact ⟨[], _, List.nil_prefix, rfl, by simp [hsame, sessions, init]⟩
    · exact ⟨bs, t, hp, ht, hlen.symm⟩
  · obtain ⟨cs, rfl⟩ := hp
    obtain ⟨u, hu, hrest⟩ := Lts.run_append.mp hr
    obtain rfl : t = u := Option.some.inj (ht.symm.trans hu)
    obtain ⟨hreached, hv, -⟩ := hinit.slots_run hspare ht
    obtain ⟨-, -, hle⟩ := hreached.slots_run hv hrest
    have hoccupied : t.clientsSlotVector.occupied ≤ t.clientsSlotVector.clients.length :=
      List.countP_le_length
    rw [hreached.sessions_length]
    omega

/-- Key 2 gets the slot that key 1 has left. -/
def slotLeft : List Action :=
  [.loop, .accept, .keyRead 0 (.replicate 32 1), .loop, .execute, .resume (.start 0), .loop,
    .execute, .resume (.delayed 0), .readFails 0, .accept, .keyRead 1 (.replicate 32 2), .loop,
    .execute, .resume (.start 1)]

theorem slots_peaked_left : ∃ s,
    Lts.run step (init .little (fun _ => true) .empty) slotLeft = some s ∧ s.accepted = 2 ∧
      s.clientsSlotVector.clients.length = 1 ∧
      Peaked (init .little (fun _ => true) .empty) slotLeft s := by
  have hsome : (Lts.run step (init .little (fun _ => true) .empty) slotLeft).any fun s =>
      s.accepted = 2 ∧ s.clientsSlotVector.clients.length = 1 := by
    decide +kernel
  obtain ⟨s, hr, hs⟩ := (Option.any_eq_true _ _).mp hsome
  obtain ⟨hacc, hlen⟩ := of_decide_eq_true hs
  exact ⟨s, hr, hacc, hlen, slots_peaked .little (fun _ => true) .empty slotLeft s hr⟩

end Server
end MydakServer
