import MydakServer.Handovers

/-! The clients in the slots, and the connections that messages can have reached. -/
namespace MydakServer

/-- A client in a slot belongs to a connection that was granted the slot, in its generation. -/
def Registry.Seated (r : Registry) : Prop := ∀ i slot c,
  r.clientsSlotVector.slotAt i = some slot → slot.object = some (.new c) →
    ∃ g, r.answer c = some g ∧ g ≠ .empty ∧ g.index = i ∧ g.generation = slot.generation

theorem Registry.Seated.remove {r : Registry} (h : r.Seated) (c : ConnId) :
    (r.remove c).Seated := by
  intro i slot d hi ho
  simp only [Registry.remove, SlotVector.slotAt_pop] at hi
  split at hi
  · obtain ⟨slot', -, rfl⟩ := Option.map_eq_some_iff.mp hi
    cases ho
  · exact h i slot d hi ho

theorem Registry.Seated.step {r r' : Registry} (h : r.Seated) (hw : r.WellFormed)
    {a : Registry.Action} (hr : r.step a = some r') : r'.Seated := by
  -- a connection without an answer has no slot, so its answer takes nothing away
  have hother : ∀ c, r.answer c = none → ∀ i slot d, r.clientsSlotVector.slotAt i = some slot →
      slot.object = some (.new d) → d ≠ c := by
    intro c hc i slot d hi ho heq
    obtain ⟨g, hg, -⟩ := h i slot d hi ho
    simp [← heq, hg] at hc
  cases a with
  | login c key =>
    simp only [Registry.step] at hr
    split at hr <;> cases hr
    exact h
  | reject c key =>
    simp only [Registry.step] at hr
    split at hr <;> cases hr
    rename_i hc
    intro i slot d hi ho
    have hdc := hother c (hw.unanswered c (.inl hc.1)) i slot d hi ho
    simpa [Registry.answered, Registry.setKey, Function.update_of_ne hdc] using h i slot d hi ho
  | grant c dbIndex =>
    simp only [Registry.step] at hr
    split at hr
    · rename_i hc
      obtain ⟨⟨g, v⟩, hv, rfl⟩ := Option.map_eq_some_iff.mp hr
      intro i slot d hi ho
      simp only [Registry.answered, Registry.emplaced, Registry.setPhase,
        (SlotVector.emplaceBack_cases hv).2.1] at hi
      split at hi
      · rename_i hig
        cases hi
        cases Client.new_inj (Option.some.inj ho)
        exact ⟨{ g with dbIndex }, by simp [Registry.answered],
          SlotVector.emplaceBack_ne_empty hv dbIndex, hig.symm, rfl⟩
      · have hdc := hother c (hw.unanswered c (.inr hc)) i slot d hi ho
        simpa [Registry.answered, Registry.emplaced, Function.update_of_ne hdc] using
          h i slot d hi ho
    · cases hr
  | fail c key =>
    simp only [Registry.step] at hr
    split at hr <;> cases hr
    exact Registry.Seated.remove (r := r.setKey c key) h c
  | close c =>
    simp only [Registry.step] at hr
    split at hr <;> cases hr
    exact h.remove c

namespace Server
variable {I : Tables → Prop}

theorem seated_step {s s' : Server} {a : Action} (hs : Sound s) (h : s.registry.Seated)
    (hstep : s.step a = some s') : s'.registry.Seated := by
  obtain ⟨hr, -⟩ := step_registry hs.numbered hs.wellFormed hstep
  refine (Lts.invariant_all (I := fun r => r.WellFormed ∧ r.Seated) ?_ ⟨hs.wellFormed, h⟩ hr).2
  exact fun r a r' ⟨hw, h⟩ hr => ⟨hw.step hr, h.step hw hr⟩

/-- Messages have reached only connections with an answer, and are fetched only for them. -/
structure Reached (s : Server) : Prop where
  writing : ∀ c e m, s.socket c = .writing (Client.new e).data m → s.answer e ≠ none
  queues : ∀ c, s.answer c = none → s.messages c = [] ∧ s.written c = []
  begun : ∀ c, s.answer c = none → s.delayed c = .unborn

/-- What holds of queues, slots and sockets however connections end. -/
structure Settled (s : Server) : Prop where
  steady : Steady s
  seated : s.registry.Seated
  clients : WritesClient s
  reached : Reached s

theorem init_settled (native : Proto.Endian) (succeeds : StartStep → Bool) (tables : Tables) :
    Settled (init native succeeds tables) where
  steady := init_steady native succeeds tables
  seated := by
    intro i slot c hi
    simp [registry, init, SlotVector.slotAt] at hi
  clients := by
    intro c data m hc
    cases hc
  reached := by constructor <;> simp [init]

/-- The client in a slot was granted it. -/
theorem Settled.granted {s : Server} (h : Settled s) {i generation : Nat} {c : ConnId}
    (hc : s.clientsSlotVector.slotAt i = some ⟨some (.new c), generation⟩) :
    ∃ g, s.answer c = some g ∧ g ≠ .empty ∧ g.index = i ∧ g.generation = generation :=
  h.seated i _ c hc rfl

theorem Settled.reached_step {s s' : Server} {a : Action} (h : Settled s)
    (hstep : s.step a = some s') : Reached s' := by
  have hanswer : ∀ c, s.answer c ≠ none → s'.answer c ≠ none := by
    intro c hc
    obtain ⟨g, hg⟩ := Option.ne_none_iff_exists'.mp hc
    simp [h.steady.answer_step hg hstep]
  have hslot : ∀ i generation c, s.clientsSlotVector.slotAt i = some ⟨some (.new c), generation⟩ →
      s.answer c ≠ none := by
    intro i generation c hc
    obtain ⟨g, hg, -⟩ := h.granted hc
    simp [hg]
  have hbefore : ∀ c, s'.answer c = none → s.answer c = none := fun c hc => by
    by_contra hn
    exact hanswer c hn hc
  constructor
  case begun =>
    intro c hc
    have hold := h.reached.begun c (hbefore c hc)
    by_cases ha : a = .resume (.delayed c)
    · subst ha
      have hnone : s.step (.resume (.delayed c)) = none := by simp [Server.step, resume, hold]
      cases hnone.symm.trans hstep
    · obtain hdel | ⟨-, hsome, -⟩ := h.steady.delayed hstep ha
      · exact hdel.trans hold
      · exact absurd hc hsome
  case writing =>
    intro c e m hc
    obtain ⟨t, hm, ha⟩ := step_move h.steady.sound h.steady.linked hstep
    rw [ha.socket] at hc
    obtain ⟨m', hw⟩ | ⟨e', i, generation, heq, hslot'⟩ := hm.writing hc
    · exact hanswer e (h.reached.writing c e m' hw)
    · cases heq
      exact hanswer e (hslot i generation e hslot')
  case queues =>
    intro c hc
    have hc' := hbefore c hc
    obtain ⟨hm, hw⟩ := h.reached.queues c hc'
    cases step_queues h.steady.sound h.steady.linked hstep with
    | push _ p d state _ hp ha =>
      obtain ⟨i, generation, hslot', -⟩ := pushOf_cases h.steady.sound.wellFormed hp
      have hcp : c ≠ p.login := by
        intro heq
        subst heq
        exact hslot i generation _ hslot' hc'
      obtain ⟨hm', hw'⟩ := queues_of_push ha
      rw [hm', hw', Function.update_of_ne hcp]
      exact ⟨hm, hw⟩
    | pop d socket q channel message _ hd hm' hw' =>
      obtain ⟨e, hdata⟩ := h.clients d _ message hd
      cases hdata
      have hce : c ≠ socket := by
        intro heq
        subst heq
        exact h.reached.writing d c message hd hc'
      rw [hm', hw', Function.update_of_ne hce, Function.update_of_ne hce]
      exact ⟨hm, hw⟩
    | same _ _ _ hm' hw' =>
      rw [hm', hw']
      exact ⟨hm, hw⟩

theorem Settled.step {s s' : Server} {a : Action} (h : Settled s) (hstep : s.step a = some s') :
    Settled s' := by
  obtain ⟨t, hm, ha⟩ := step_move h.steady.sound h.steady.linked hstep
  exact ⟨h.steady.step hstep, seated_step h.steady.sound h.seated hstep,
    h.clients.move hm ha, h.reached_step hstep⟩

/-- The stream of a login grows by what is put into its queue. -/
theorem Settled.stream {s s' : Server} {a : Action} (h : Settled s) (hw : WritesOwn s)
    (hstep : s.step a = some s') (c : ConnId) : s'.written c ++ s'.messages c =
      s.written c ++ s.messages c ++ pushedTo (s.pushOf a).toList c :=
  (step_queues h.steady.sound h.steady.linked hstep).stream hw c

theorem Settled.answer_of_delayed {s : Server} (h : Settled s) {c : ConnId}
    (hc : s.delayed c ≠ .unborn) : s.answer c ≠ none :=
  fun hnone => hc (h.reached.begun c hnone)

theorem Steady.accepted {s : Server} (h : Steady s) {c : ConnId} (hc : ¬ s.Unserved c) :
    c < s.accepted := by
  simp only [Unserved, not_forall] at hc
  obtain ⟨g, hg, -⟩ := hc
  exact h.sound.accepted hg

theorem Steady.accepted_of_socket {s : Server} (h : Steady s) {c : ConnId}
    (hc : s.socket c ≠ .unborn) : c < s.accepted :=
  h.accepted fun hun => hc (h.aside.socket c hun)

theorem Settled.accepted_of_delayed {s : Server} (h : Settled s) {c : ConnId}
    (hc : s.delayed c ≠ .unborn) : c < s.accepted := by
  obtain ⟨g, hg⟩ := Option.ne_none_iff_exists'.mp (h.answer_of_delayed hc)
  exact h.steady.sound.accepted hg

/-- A connection that has not been accepted has no coroutine. -/
theorem Settled.unborn {s : Server} (h : Settled s) {c : ConnId} (hc : ¬ c < s.accepted) :
    s.start c = .unborn ∧ s.socket c = .unborn ∧ s.delayed c = .unborn := by
  refine ⟨h.steady.sound.numbered c (Nat.le_of_not_lt hc), ?_, ?_⟩
  · by_contra hsocket
    exact hc (h.steady.accepted_of_socket hsocket)
  · by_contra hdelayed
    exact hc (h.accepted_of_delayed hdelayed)

end Server
end MydakServer
