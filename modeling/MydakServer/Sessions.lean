import MydakServer.ServerRegistry

/-! Slots and keys over whole runs of the server: whose slots the ends of connections
clear, and how many sessions a key has. -/
namespace MydakServer.Server

/-- What holds of the registry in every reachable state. -/
structure Sound (s : Server) : Prop where
  numbered : s.Numbered
  wellFormed : s.registry.WellFormed

theorem init_sound (native : Proto.Endian) (succeeds : StartStep → Bool) (tables : Tables) :
    Sound (init native succeeds tables) :=
  ⟨fun _ _ => rfl, Registry.start_wellFormed⟩

theorem Sound.step {s s' : Server} (h : Sound s) {a : Action} (hs : s.step a = some s') :
    Sound s' := by
  obtain ⟨hr, hn⟩ := step_registry h.numbered h.wellFormed hs
  exact ⟨hn, Lts.invariant_all (fun _ _ _ hw hr => hw.step hr) h.wellFormed hr⟩

/-- `add_client` has no answer yet for a connection that has not come past it. -/
theorem Sound.answer_none {s : Server} (h : Sound s) {c : ConnId}
    (hc : s.start c = .unborn ∨ s.start c = .readKey ∨ s.start c = .addClient) :
    s.answer c = none := by
  apply h.wellFormed.unanswered c
  obtain hc | hc | hc := hc <;> simp [registry, hc, StartState.phase]

theorem Sound.indices {s : Server} (h : Sound s) {c : ConnId} {g : ClientIndex}
    (hc : s.answer c = some g) : (s.connection c).indices = g := by
  have hi : (s.connection c).indices = (s.answer c).getD {} := h.wellFormed.indices c
  rw [hi, hc]
  rfl

theorem Sound.accepted {s : Server} (h : Sound s) {c : ConnId} {g : ClientIndex}
    (hc : s.answer c = some g) : c < s.accepted := by
  by_contra hn
  have hnone := h.answer_none (.inl (h.numbered c (Nat.le_of_not_lt hn)))
  exact Option.some_ne_none g (hc.symm.trans hnone)

theorem run_sound {native : Proto.Endian} {succeeds : StartStep → Bool} {tables : Tables}
    {as : List Action} {s : Server} (hr : Lts.run step (init native succeeds tables) as = some s) :
    Sound s :=
  Lts.invariant_all (fun _ _ _ h hs => h.step hs) (init_sound native succeeds tables) hr

/-- An invariant of the registry under `D` is one of the server where `D` holds of the
registry steps that each step takes. -/
theorem Sound.lift {I : Registry → Prop} {D : Registry → Registry.Action → Prop}
    (hI : ∀ r b r', r.WellFormed → I r → D r b → r.step b = some r' → I r')
    {s s' : Server} (h : Sound s) (hi : I s.registry) {a : Action}
    (hd : Lts.Along Registry.step D s.registry (s.events a)) (hs : s.step a = some s') :
    I s'.registry := by
  obtain ⟨hr, -⟩ := step_registry h.numbered h.wellFormed hs
  exact (Lts.invariant (I := fun r => r.WellFormed ∧ I r)
    (fun r b r' hw hb hr => ⟨hw.1.step hr, hI r b r' hw.1 hw.2 hb hr⟩) ⟨h.wellFormed, hi⟩ hd hr).2

theorem fail_mem_events {s : Server} {a : Action} {c : ConnId} {key : PublicKey}
    (h : .fail c key ∈ s.events a) : ∃ bytes, a = .keyFails c bytes := by
  cases a with
  | keyFails d bytes =>
    simp only [events, List.mem_singleton, Registry.Action.fail.injEq] at h
    exact ⟨bytes, by rw [h.1]⟩
  | keyRead d key =>
    simp only [events] at h
    split at h
    · simp at h
    · split at h <;> simp at h
  | greetings d g =>
    simp only [events] at h
    split at h <;> simp at h
  | resume t =>
    cases t with
    | start d =>
      simp only [events] at h
      split at h <;> simp at h
    | _ => simp [events] at h
  | _ => simp [events] at h

/-- No connection that `add_client` has not answered ends while there are slots. -/
def sparesSlots (s : Server) : Action → Bool
  | .keyFails _ _ => s.clientsSlotVector.clients.isEmpty
  | _ => true

theorem along_sparesSlots {s : Server} {a : Action} (h : s.sparesSlots a) :
    Lts.Along Registry.step
      (fun r b => ∀ c key, b = .fail c key → ∀ i, r.clientsSlotVector.slotAt i = none)
      s.registry (s.events a) := by
  by_cases ha : ∃ c bytes, a = .keyFails c bytes
  · obtain ⟨c, bytes, rfl⟩ := ha
    have he : s.clientsSlotVector.clients = [] := by simpa [sparesSlots] using h
    refine ⟨fun _ _ _ i => ?_, fun _ _ => trivial⟩
    show s.clientsSlotVector.clients[i]? = none
    simp [he]
  · have hnot : ∀ b ∈ s.events a, ∀ c key, b ≠ .fail c key := by
      intro b hb c key heq
      subst heq
      obtain ⟨bytes, hb⟩ := fail_mem_events hb
      exact ha ⟨c, bytes, hb⟩
    exact (Lts.along_of_forall hnot).mono fun r b hb c key he => absurd he (hb c key)

theorem Sound.owned {s s' : Server} (h : Sound s) (ho : s.registry.Owned) {a : Action}
    (ha : s.sparesSlots a) (hs : s.step a = some s') : s'.registry.Owned :=
  h.lift (fun _ _ _ hw ho hd hr => ho.step hw hd hr) ho (along_sparesSlots ha) hs

/-- An entry leads to a session of its key. -/
theorem session_of_entry {s : Server} (ho : s.registry.Owned) {key : PublicKey} {e : ClientIndex}
    (he : s.clientIndices key = some e) : ∃ c, s.registry.Granted c e ∧
      (s.connection c).publicKey = key ∧
      s.clientsSlotVector.slotAt e.index = some ⟨some (.new c), e.generation⟩ := by
  obtain ⟨c, hg, hk⟩ := ho.entries key e he
  exact ⟨c, hg, hk, ho.holds c e hg⟩

/-- Every slot that `remove_client` has cleared is the one granted to the connection it was
called for, each grant was cleared at most once, and every session has its slot. -/
structure SlotsOwned (s : Server) : Prop where
  own : ∀ x ∈ s.cleared, ∃ g, s.answer x.connection = some g ∧ g ≠ .empty ∧
    g.index = x.index ∧ x.slot = ⟨some (.new x.connection), g.generation⟩
  once : (s.cleared.map Clear.connection).Nodup
  kept : ∀ c g, s.registry.Granted c g →
    s.clientsSlotVector.slotAt g.index = some ⟨some (.new c), g.generation⟩ ∧
      g.index ∉ s.clientsSlotVector.emptySlots

theorem slotsOwned_of_owned {s : Server} (h : s.registry.Owned) : SlotsOwned s where
  own := fun x hx => (h.cleared x hx).2
  once := h.once
  kept := by
    intro c g hg
    have hslot := h.holds c g hg
    refine ⟨hslot, fun hm => ?_⟩
    obtain ⟨slot, hs, ho⟩ := h.vacant _ hm
    rw [hslot, Option.some.injEq] at hs
    simp [← hs] at ho

/-- A connection that ends before its answer clears the slot with index 0, if there is one. -/
theorem not_slotsOwned_keyFails {s s' : Server} (h : Sound s) {c : ConnId} {bytes : List UInt8}
    (hs : s.step (.keyFails c bytes) = some s')
    (hne : s.clientsSlotVector.clients.isEmpty = false) : ¬ SlotsOwned s' := by
  cases step_cases hs with
  | keyFails _ _ hc =>
    have hnone : s.answer c = none := h.answer_none (.inr (.inl hc))
    have hindex : ((s.setKey c (partialKey bytes)).connection c).indices.index = 0 := by
      have hi : (s.connection c).indices = (s.answer c).getD {} := h.wellFormed.indices c
      simp [setKey, hi, hnone]
    obtain ⟨slot, hslot⟩ : ∃ slot, s.clientsSlotVector.slotAt 0 = some slot := by
      rw [← Option.ne_none_iff_exists', Ne, SlotVector.slotAt_eq_none]
      simpa using hne
    intro ho
    have hm : (⟨c, 0, slot⟩ : Clear) ∈
        ((s.setKey c (partialKey bytes)).endConnection c).cleared := by
      have hslot' : (s.setKey c (partialKey bytes)).clientsSlotVector.slotAt 0 = some slot := hslot
      simp [endConnection, removeClient, setStart, hindex, hslot']
    obtain ⟨g, hg, -⟩ := ho.own _ hm
    have hg' : s.answer c = some g := hg
    simp [hnone] at hg'

/-- `remove_client` only ever clears the connection's own slot in a run, exactly when no
connection in it ends before `add_client` has answered it while there are slots. -/
theorem slots_owned_iff (native : Proto.Endian) (succeeds : StartStep → Bool) (tables : Tables)
    (as : List Action) (s : Server)
    (hr : Lts.run step (init native succeeds tables) as = some s) :
    Lts.Always step SlotsOwned (init native succeeds tables) as ↔
      Lts.Along step (fun s a => s.sparesSlots a) (init native succeeds tables) as := by
  constructor
  · intro ho
    refine Lts.along_of_always (P := fun s => SlotsOwned s ∧ Sound s) ?_ hr
      fun bs hp t ht => ⟨ho bs hp t ht, run_sound ht⟩
    intro s a t hs hp ht
    by_contra hn
    cases a with
    | keyFails c bytes =>
      exact not_slotsOwned_keyFails hp.2 hs (by simpa [sparesSlots] using hn) ht.1
    | _ => simp [sparesSlots] at hn
  · intro hc bs hp t ht
    refine slotsOwned_of_owned (Lts.invariant (I := fun s => Sound s ∧ s.registry.Owned) ?_
      ⟨init_sound native succeeds tables, Registry.start_owned⟩ (hc.initial hp) ht).2
    exact fun s a t h ha hs => ⟨h.1.step hs, h.1.owned h.2 ha hs⟩

/-- A client logs in and gets slot 0; another connects and closes before it has sent its key. -/
theorem not_slots_owned :
    ¬ Lts.Always step SlotsOwned (init .little (fun _ => true) .empty)
      [.loop, .accept, .keyRead 0 (.replicate 32 1), .loop, .execute, .resume (.start 0), .accept,
        .keyFails 1 []] := by
  intro h
  obtain ⟨g, hg, -⟩ := (h _ (List.prefix_refl _) _ rfl).own _ (List.mem_singleton.mpr rfl)
  exact Option.some_ne_none g (hg.symm.trans rfl)

/-- A client logs in, is granted a slot, and leaves in its message loop. -/
theorem slots_owned_login :
    Lts.Always step SlotsOwned (init .little (fun _ => true) .empty)
      [.loop, .accept, .keyRead 0 (.replicate 32 1), .loop, .execute, .resume (.start 0),
        .readFails 0] :=
  (slots_owned_iff .little (fun _ => true) .empty [.loop, .accept, .keyRead 0 (.replicate 32 1),
    .loop,
    .execute, .resume (.start 0), .readFails 0] _ rfl).mpr (by decide)

/-- Whether `add_client` goes on with the index that `db.add_user` returns. -/
def addUserReturns (s : Server) (c : ConnId) : Bool :=
  match s.start c, s.db.resume (.start c) with
  | .addClient, some (_, some (.userId _)) => true
  | _, _ => false

/-- A connection that `add_client` rejected finds no entry of its key to erase. -/
def leavesEntry (s : Server) (c : ConnId) : Bool :=
  s.answer c ≠ some .empty || (s.clientIndices (s.connection c).publicKey).isNone

/-- `add_client` finds its key still unlisted when it goes on after `db.add_user`, and only
a connection that was granted a slot erases an entry when it ends. -/
def keepsEntries (s : Server) : Action → Bool
  | .keyFails _ bytes => (s.clientIndices (partialKey bytes)).isNone
  | .resume (.start c) =>
    !s.addUserReturns c || (s.clientIndices (s.connection c).publicKey).isNone
  | .greetings c g =>
    match Proto.parseGreetings s.native g with
    | .error _ => s.leavesEntry c
    | .ok _ => true
  | .readFails c => s.leavesEntry c
  | _ => true

theorem separate_close {s : Server} (h : Sound s) {c : ConnId}
    (hc : s.registry.phase c = .running) (hl : s.leavesEntry c) :
    s.registry.Separate (.close c) := by
  obtain ⟨g, hg⟩ := Option.ne_none_iff_exists'.mp (h.wellFormed.answered c hc)
  by_cases he : g = .empty
  · have ha : s.answer c = some .empty := he ▸ hg
    have hk : s.clientIndices (s.connection c).publicKey = none := by
      simpa [leavesEntry, ha] using hl
    exact .inr hk
  · exact .inl ⟨g, hc, hg, he⟩

theorem along_keepsEntries {s s' : Server} {a : Action} (h : Sound s) (ha : s.keepsEntries a)
    (hs : s.step a = some s') :
    Lts.Along Registry.step Registry.Separate s.registry (s.events a) := by
  cases a with
  | keyFails c bytes =>
    refine ⟨?_, fun _ _ => trivial⟩
    have hk : s.clientIndices (partialKey bytes) = none := by simpa [keepsEntries] using ha
    exact hk
  | keyRead c key =>
    simp only [events]
    split
    · exact ⟨trivial, fun _ _ => trivial⟩
    · split
      · refine ⟨trivial, fun r hr => ⟨?_, fun _ _ => trivial⟩⟩
        simp only [Registry.step] at hr
        split at hr
        · rename_i hk
          cases hr
          have hkey : (((s.registry.setKey c key).setPhase c .adding).connection c).publicKey =
              key := by simp [Registry.setKey, Registry.setPhase]
          show _ = none
          rw [hkey]
          exact hk.2
        · cases hr
      · exact ⟨trivial, fun _ _ => trivial⟩
  | greetings c g =>
    cases step_cases hs with
    | badGreetings _ _ e hc hp =>
      have hph : s.registry.phase c = .running := by simp [registry, hc, StartState.phase]
      simp only [events, hp]
      exact ⟨separate_close h hph (by simpa [keepsEntries, hp] using ha), fun _ _ => trivial⟩
    | greetings _ _ size recipient hc hp =>
      simp only [events, hp]
      trivial
  | readFails c =>
    cases step_cases hs with
    | readFails _ hc => exact ⟨separate_close h hc ha, fun _ _ => trivial⟩
  | resume t =>
    cases t with
    | start c =>
      simp only [events]
      split
      · rename_i id hc hd
        refine ⟨?_, fun _ _ => trivial⟩
        have hk : s.clientIndices (s.connection c).publicKey = none := by
          simpa [keepsEntries, addUserReturns, hc, hd] using ha
        exact hk
      · trivial
    | _ => trivial
  | _ => trivial

/-- A key has one session, and every other connection that logged in with it was answered
`client_index::empty()`. -/
structure OneSession (s : Server) : Prop where
  single : ∀ c d g g', s.registry.Granted c g → s.registry.Granted d g' →
    (s.connection c).publicKey = (s.connection d).publicKey → c = d
  others : ∀ c d g, s.registry.Granted c g → s.registry.phase d = .running → d ≠ c →
    (s.connection d).publicKey = (s.connection c).publicKey → s.answer d = some .empty

theorem oneSession_of_single {s : Server} (h : Sound s) (hs : s.registry.Single) :
    OneSession s where
  single := hs.oneSession
  others := by
    intro c d g hc hd hne hk
    obtain ⟨g', hg'⟩ := Option.ne_none_iff_exists'.mp (h.wellFormed.answered d hd)
    by_contra hn
    have hne' : g' ≠ .empty := by
      intro heq
      subst heq
      exact hn hg'
    exact hne (hs.oneSession d c g' g ⟨hd, hg', hne'⟩ hc hk)

/-- At most one session per key, in every state of a run in which `add_client` finds the key
still unlisted whenever it goes on after `db.add_user`, and no connection without a slot of
its own erases an entry. -/
theorem one_session_per_key (native : Proto.Endian) (succeeds : StartStep → Bool)
    (tables : Tables) (as : List Action)
    (hc : Lts.Along step (fun s a => s.keepsEntries a) (init native succeeds tables) as) :
    Lts.Always step OneSession (init native succeeds tables) as := by
  intro bs hp t ht
  obtain ⟨hs, h⟩ := Lts.invariant (I := fun s => Sound s ∧ s.registry.Single)
    (fun s a t h ha hs => ⟨h.1.step hs, h.1.lift (fun _ _ _ _ hi hd hr => hi.step hd hr) h.2
      (along_keepsEntries h.1 ha hs) hs⟩)
    ⟨init_sound native succeeds tables, Registry.start_single⟩ (hc.initial hp) ht
  exact oneSession_of_single hs h

/-- Two logins with one key overlap in `db.add_user`. -/
theorem not_one_session_per_key :
    ¬ Lts.Always step OneSession (init .little (fun _ => true) .empty)
      [.loop, .accept, .keyRead 0 (.replicate 32 1), .accept, .keyRead 1 (.replicate 32 1), .loop,
        .execute, .resume (.start 0), .loop, .execute, .resume (.start 1), .loop, .execute, .loop,
        .execute, .resume (.start 1)] := by
  intro h
  have hs := (h _ (List.prefix_refl _) _ rfl).single 0 1 ⟨0, 1, 1⟩ ⟨1, 1, 1⟩
    ⟨rfl, rfl, by decide⟩ ⟨rfl, rfl, by decide⟩ rfl
  exact absurd hs (by decide)

/-- A second login with the key of a session is rejected; another key gets a slot. -/
theorem one_session_two_keys :
    Lts.Always step OneSession (init .little (fun _ => true) .empty)
      [.loop, .accept, .keyRead 0 (.replicate 32 1), .loop, .execute, .resume (.start 0), .accept,
        .keyRead 1 (.replicate 32 1), .accept, .keyRead 2 (.replicate 32 2), .loop, .execute, .loop,
        .execute, .loop, .execute, .resume (.start 2)] :=
  one_session_per_key .little (fun _ => true) .empty _ (by decide)

end MydakServer.Server
