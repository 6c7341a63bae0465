import MydakServer.Rest

/-! The registry holds nothing of a connection that has ended, and a server whose connections
have all ended comes to rest empty. -/
namespace MydakServer

/-- An entry is the answer of a connection with the entry's key that has not ended. -/
def Registry.LiveEntries (r : Registry) : Prop := ∀ key e, r.clientIndices key = some e →
  ∃ c, r.phase c = .running ∧ (r.connection c).publicKey = key ∧ r.answer c = some e

theorem Registry.LiveEntries.remove {r : Registry} (h : r.LiveEntries) (c : ConnId) :
    (r.remove c).LiveEntries := by
  intro key e he
  have hk : key ≠ (r.connection c).publicKey := by
    intro heq
    simp [Registry.remove, heq] at he
  simp only [Registry.remove, Function.update_of_ne hk] at he
  obtain ⟨d, hd, hkey, hans⟩ := h key e he
  have hdc : d ≠ c := by
    intro heq
    exact hk (hkey.symm.trans (by rw [heq]))
  exact ⟨d, by simpa [Registry.remove, setPhase, Function.update_of_ne hdc] using hd, hkey, hans⟩

/-- A connection that does not run yet has no entry to lose. -/
theorem Registry.LiveEntries.setKey {r : Registry} (h : r.LiveEntries) {c : ConnId}
    (hc : r.phase c ≠ .running) (key : PublicKey) : (r.setKey c key).LiveEntries := by
  intro key' e he
  obtain ⟨d, hd, hkey, hans⟩ := h key' e he
  have hdc : d ≠ c := by
    intro heq
    exact hc (heq ▸ hd)
  exact ⟨d, hd, by simpa [Registry.setKey, Function.update_of_ne hdc] using hkey, hans⟩

theorem Registry.LiveEntries.step {r r' : Registry} (h : r.LiveEntries) {a : Registry.Action}
    (hr : r.step a = some r') : r'.LiveEntries := by
  cases a with
  | login c key =>
    simp only [Registry.step] at hr
    split at hr <;> cases hr
    rename_i hc
    have hc' : r.phase c ≠ .running := by simp [hc.1]
    intro key' e he
    obtain ⟨d, hd, hkey, hans⟩ := h.setKey hc' key key' e he
    have hdc : d ≠ c := by
      intro heq
      exact hc' (heq ▸ hd)
    exact ⟨d, by simpa [setPhase, Function.update_of_ne hdc] using hd, hkey, hans⟩
  | reject c key =>
    simp only [Registry.step] at hr
    split at hr <;> cases hr
    rename_i hc
    have hc' : r.phase c ≠ .running := by simp [hc.1]
    intro key' e he
    obtain ⟨d, hd, hkey, hans⟩ := h.setKey hc' key key' e he
    have hdc : d ≠ c := by
      intro heq
      exact hc' (heq ▸ hd)
    refine ⟨d, ?_, ?_, ?_⟩
    · simpa [answered, setPhase, Function.update_of_ne hdc] using hd
    · simpa [answered, Function.update_of_ne hdc] using hkey
    · simpa [answered, Function.update_of_ne hdc] using hans
  | grant c dbIndex =>
    simp only [Registry.step] at hr
    split at hr
    · rename_i hc
      obtain ⟨⟨g, v⟩, hv, rfl⟩ := Option.map_eq_some_iff.mp hr
      intro key e he
      by_cases hk : key = (r.connection c).publicKey
      · subst hk
        simp only [answered, emplaced, setPhase, Function.update_self, Option.some.injEq] at he
        subst he
        exact ⟨c, by simp [answered, setPhase], by simp [answered, emplaced],
          by simp [answered, emplaced]⟩
      · simp only [answered, emplaced, setPhase, Function.update_of_ne hk] at he
        obtain ⟨d, hd, hkey, hans⟩ := h key e he
        have hdc : d ≠ c := by
          intro heq
          simp [← heq, hd] at hc
        refine ⟨d, ?_, ?_, ?_⟩
        · simpa [answered, setPhase, emplaced, Function.update_of_ne hdc] using hd
        · simpa [answered, emplaced, Function.update_of_ne hdc] using hkey
        · simpa [answered, emplaced, Function.update_of_ne hdc] using hans
    · cases hr
  | fail c key =>
    simp only [Registry.step] at hr
    split at hr <;> cases hr
    rename_i hc
    exact Registry.LiveEntries.remove (h.setKey (by simp [hc]) key) c
  | close c =>
    simp only [Registry.step] at hr
    split at hr <;> cases hr
    exact h.remove c

namespace Server

theorem liveEntries_step {s s' : Server} {a : Action} (hs : Sound s)
    (h : s.registry.LiveEntries) (hstep : s.step a = some s') : s'.registry.LiveEntries := by
  obtain ⟨hr, -⟩ := step_registry hs.numbered hs.wellFormed hstep
  exact Lts.invariant_all (fun _ _ _ h hr => h.step hr) h hr

theorem run_liveEntries {native : Proto.Endian} {succeeds : StartStep → Bool} {tables : Tables}
    {as : List Action} {s : Server} (hr : Lts.run step (init native succeeds tables) as = some s) :
    s.registry.LiveEntries := by
  refine (Lts.invariant_all (I := fun s => Sound s ∧ s.registry.LiveEntries)
    (fun s a t ⟨hs, h⟩ hstep => ⟨hs.step hstep, liveEntries_step hs h hstep⟩)
    ⟨init_sound native succeeds tables, ?_⟩ hr).2
  intro key e he
  simp [registry, init] at he

/-- Every occupied slot and every entry belongs to a connection in its message loop: the slot is
the one whose handle the connection holds, and the entry is that handle. -/
structure OnlyLive (s : Server) : Prop where
  slots : ∀ i slot client, s.clientsSlotVector.slotAt i = some slot →
    slot.object = some client → ∃ c < s.accepted, client = .new c ∧
      s.registry.phase c = .running ∧ (s.connection c).indices.index = i ∧
      (s.connection c).indices.generation = slot.generation
  entries : ∀ key e, s.clientIndices key = some e → ∃ c < s.accepted,
    s.registry.phase c = .running ∧ (s.connection c).publicKey = key ∧
      (s.connection c).indices = e

/-- Every connection that has been accepted has ended. -/
def Over (s : Server) : Prop := ∀ c, s.start c = .unborn ∨ s.start c = .ended

/-- The server has forgotten its connections. -/
structure Emptied (s : Server) : Prop where
  slots : ∀ slot ∈ s.clientsSlotVector.clients, slot.object = none
  entries : ∀ key, s.clientIndices key = none

theorem Over.phase {s : Server} (h : Over s) (c : ConnId) : s.registry.phase c ≠ .running := by
  obtain hc | hc := h c <;> simp [registry, hc, StartState.phase]

theorem Composed.onlyLive {tables : Tables} {s : Server} (h : Composed tables s)
    (he : s.registry.LiveEntries) : OnlyLive s where
  slots := by
    intro i slot client hi ho
    have hsettled := h.attentive.settled
    obtain ⟨c, rfl⟩ := hsettled.steady.sound.wellFormed.objects i slot client hi ho
    obtain ⟨g, hg, -, hindex, hgen⟩ := hsettled.seated i slot c hi ho
    have hreg : s.registered c := registered_iff.mpr ⟨i, slot.generation, by rw [← ho]; exact hi⟩
    have hindices := hsettled.steady.sound.indices hg
    exact ⟨c, hsettled.steady.sound.accepted hg, rfl, h.running c hreg,
      by rw [hindices, hindex], by rw [hindices, hgen]⟩
  entries := by
    intro key e hk
    obtain ⟨c, hc, hkey, hans⟩ := he key e hk
    have hsound := h.attentive.settled.steady.sound
    exact ⟨c, hsound.accepted hans, hc, hkey, hsound.indices hans⟩

theorem OnlyLive.emptied {s : Server} (h : OnlyLive s) (hover : Over s) : Emptied s where
  slots := by
    intro slot hslot
    obtain ⟨i, hi⟩ := List.mem_iff_getElem?.mp hslot
    cases ho : slot.object with
    | none => rfl
    | some client =>
      obtain ⟨c, -, -, hrun, -⟩ := h.slots i slot client hi ho
      exact absurd hrun (hover.phase c)
  entries := by
    intro key
    cases hk : s.clientIndices key with
    | none => rfl
    | some e =>
      obtain ⟨c, -, hrun, -⟩ := h.entries key e hk
      exact absurd hrun (hover.phase c)

/-- In every state of every run the registry holds live connections only, so that nothing is left
in it once all connections have ended. -/
theorem registry_live (native : Proto.Endian) (succeeds : StartStep → Bool) (tables : Tables)
    (as : List Action) :
    Lts.Always step (fun s => OnlyLive s ∧ (Over s → Emptied s))
      (init native succeeds tables) as := by
  intro bs hp s hr
  have hlive := (run_composed hr).onlyLive (run_liveEntries hr)
  exact ⟨hlive, hlive.emptied⟩

theorem over_of_accepted {s : Server} (hs : Sound s) (h : ∀ c < s.accepted, s.start c = .ended) :
    Over s := by
  intro c
  by_cases hc : c < s.accepted
  · exact .inr (h c hc)
  · exact .inl (hs.numbered c (Nat.le_of_not_lt hc))

/-- No connection comes back. -/
theorem Over.step {s s' : Server} {a : Action} (h : Over s) (hs : Sound s)
    (ha : a.input = false) (hstep : s.step a = some s') : Over s' := by
  obtain ⟨hstart, -⟩ | ⟨c, state, -, hst⟩ := step_start hs hstep
  · intro d
    rw [hstart]
    exact h d
  · cases hst with
    | resume c hc =>
      have hno := h c
      obtain hc | hc := hc <;> simp [hc] at hno
    | _ => cases ha

/-- Nothing is left of the connections but what a dead loop of the request queue keeps waiting. -/
structure Drained (s : Server) : Prop where
  emptied : Emptied s
  channels : ∀ c, s.signalChannel c = .idle
  sockets : ∀ c, s.socket c = .unborn ∨ s.socket c = .terminated ∨ (s.socket c).undefined
  calls : ∀ t, s.calling t = false
  asked : s.db.queue.loop = .waiting → ∀ t, s.db.asked t = none
  delayed : s.db.queue.loop = .waiting → ∀ c, s.delayed c = .unborn ∨ s.delayed c = .finished

theorem Composed.drained {tables : Tables} {s : Server} (h : Composed tables s)
    (he : s.registry.LiveEntries) (hst : Resting s) (hover : Over s) : Drained s := by
  have haside := h.attentive.settled.steady.aside
  have hidle : ∀ c, s.signalChannel c = .idle := by
    intro c
    by_cases hc : s.Unserved c
    · exact haside.channel c hc
    · obtain hu | hend := hover c
      · have hnone := h.attentive.settled.steady.sound.answer_none (.inl hu)
        exact absurd (fun g hg => by simp [hnone] at hg) hc
      · exact h.channel_at_rest hst hend
  have hcalls : ∀ t, s.calling t = false := by
    intro t
    by_contra hn
    obtain ⟨c, hc, -⟩ := h.call_at_rest hst (by simpa using hn)
    simp [senders, hidle c] at hc
  have hasked : s.db.queue.loop = .waiting → ∀ t, s.db.asked t = none := by
    intro hl t
    obtain hnone | ⟨c, rfl, -⟩ := h.asked_at_rest hst hl t
    · exact hnone
    · by_contra hne
      obtain ⟨stmt, hstmt⟩ := Option.ne_none_iff_exists'.mp hne
      have hw := h.attentive.asking (.start c) stmt hstmt
      have hno := hover c
      simp [hw.1] at hno
  refine ⟨(h.onlyLive he).emptied hover, hidle, fun c => ?_, hcalls, hasked, fun hl c => ?_⟩
  · by_cases hc : s.Unserved c
    · exact .inl (haside.socket c hc)
    · obtain hs | hs | ⟨hs, hsig⟩ := h.socket_at_rest hst c hc
      · exact .inr (.inl hs)
      · exact .inr (.inr hs)
      · have hrecv := h.parked c hs hsig
        simp [hidle c] at hrecv
  · have hcall := hcalls (.delayed c)
    obtain ⟨hf, hd⟩ := h.fetched_at_rest hst hl c
    cases hdel : s.delayed c with
    | unborn => exact .inl rfl
    | finished => exact .inr rfl
    | fetching => exact absurd hdel hf
    | deleting => exact absurd hdel hd
    | sending current rest sent => simp [calling, hdel] at hcall

/-- When all connections have ended, the server comes to rest without another input, and then
nothing is left of them. -/
theorem drained_at_rest (native : Proto.Endian) (succeeds : StartStep → Bool) (tables : Tables)
    (as : List Action) (s : Server)
    (hr : Lts.run step (init native succeeds tables) as = some s) (hover : Over s) :
    (∀ bs t, (∀ b ∈ bs, b.input = false) → Lts.run step s bs = some t → Resting t → Drained t) ∧
      ∃ bs t, (∀ b ∈ bs, b.input = false) ∧ Lts.run step s bs = some t ∧ Resting t := by
  refine ⟨fun bs t hbs ht hst => ?_, (run_attentive hr).exists_resting⟩
  have hrun := Lts.run_append.mpr ⟨s, hr, ht⟩
  have hover' : Sound t ∧ Over t :=
    Lts.invariant (I := fun s => Sound s ∧ Over s) (C := fun _ b => b.input = false)
      (fun _ _ _ ⟨hs, ho⟩ hb hstep => ⟨hs.step hstep, ho.step hs hb hstep⟩) ⟨run_sound hr, hover⟩
      (Lts.along_of_forall hbs) ht
  exact (run_composed hrun).drained (run_liveEntries hrun) hst hover'.2

/-- Two keys log in, one writes to the other, and both leave. -/
def bothLeave : List Action := writtenToSession ++ [.resume (.start 1), .readFails 0, .readFails 1]

theorem drained_at_rest_both : ∃ s bs t,
    Lts.run step (init .little (fun _ => true) .empty) bothLeave = some s ∧
      Lts.run step s bs = some t ∧ Resting t ∧ Drained t := by
  have hsome : (Lts.run step (init .little (fun _ => true) .empty) bothLeave).any fun s =>
      (List.range s.accepted).all fun c => s.start c = .ended := by
    decide +kernel
  obtain ⟨s, hr, hend⟩ := (Option.any_eq_true _ _).mp hsome
  have hover : Over s := over_of_accepted (run_sound hr) fun c hc => by
    simpa using List.all_eq_true.mp hend c (List.mem_range.mpr hc)
  obtain ⟨hdrained, bs, t, hbs, ht, hst⟩ :=
    drained_at_rest .little (fun _ => true) .empty bothLeave s hr hover
  exact ⟨s, bs, t, hr, ht, hst, hdrained bs t hbs ht hst⟩

end Server
end MydakServer
