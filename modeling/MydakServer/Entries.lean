import MydakServer.Inert
import MydakServer.Routing

/-! The entries of the registry: what `get_client_index`, the relay and
`send_delayed_messages` can rely on when they look a client up. -/
namespace MydakServer.Server

/-- Where `add_client` goes on with an index from `db.add_user`, it is the id of the key's row. -/
def addUserExact (s : Server) : Action → Bool
  | .keyRead c key =>
    match s.db.addUser (.start c) key with
    | some (_, some (.userId id)) =>
      (s.clientIndices key).isSome || s.db.tables.idOf key = some id
    | _ => true
  | .resume (.start c) =>
    match s.start c, s.db.resume (.start c) with
    | .addClient, some (_, some (.userId id)) =>
      s.db.tables.idOf (s.connection c).publicKey = some id
    | _, _ => true
  | _ => true

/-- Entries have the id of their key's row, and no `send_delayed_messages` runs for a
connection without an answer. -/
structure Entered (s : Server) : Prop where
  entries : ∀ key e, s.clientIndices key = some e → ⟨e.dbIndex, key⟩ ∈ s.db.tables.users
  begun : ∀ c, s.answer c = none → s.delayed c = .unborn

theorem init_entered (native : Proto.Endian) (succeeds : StartStep → Bool) (tables : Tables) :
    Entered (init native succeeds tables) := by
  constructor <;> simp [init]

theorem Entered.alike {s s' : Server} (h : Entered s) (ha : Alike s s')
    (hu : s.db.tables.users ⊆ s'.db.tables.users) : Entered s' := by
  constructor
  · intro key e he
    rw [ha.clientIndices] at he
    exact hu (h.entries key e he)
  · simpa only [ha.answer, ha.delayed] using h.begun

theorem Entered.setDelayed {s : Server} (h : Entered s) {c : ConnId} (hc : s.answer c ≠ none)
    (state : DelayedState) : Entered (s.setDelayed c state) := by
  refine ⟨h.entries, fun d hd => ?_⟩
  have hdc : d ≠ c := by
    intro heq
    subst heq
    exact hc hd
  simpa [Server.setDelayed, Function.update_of_ne hdc] using h.begun d hd

theorem Entered.answer {s : Server} (h : Entered s) (c : ConnId) (g : ClientIndex)
    (state : DelayedState) : Entered ((s.answered c g).setDelayed c state) := by
  have h' : Entered (s.answered c g) := by
    refine ⟨h.entries, fun d hd => ?_⟩
    have hdc : d ≠ c := by
      intro heq
      subst heq
      simp [answered, setStart] at hd
    exact h.begun d (by simpa [answered, setStart, Function.update_of_ne hdc] using hd)
  exact h'.setDelayed (by simp [answered, setStart]) state

theorem Entered.remove {s : Server} (h : Entered s) (c : ConnId) : Entered (s.endConnection c) := by
  refine ⟨fun key e he => ?_, h.begun⟩
  by_cases hk : key = (s.connection c).publicKey
  · simp [endConnection, removeClient, setStart, hk] at he
  · refine h.entries key e ?_
    simpa [endConnection, removeClient, setStart, Function.update_of_ne hk] using he

theorem addUserExact_grant {s : Server} {a : Action} {c : ConnId} {key : PublicKey} {id : Nat}
    (hx : s.addUserExact a) (hc : s.Logs a c key) (hev : .grant c id ∈ s.events a) :
    ⟨id, key⟩ ∈ s.db.tables.users := by
  rw [← Tables.idOf_eq_some]
  obtain ⟨rfl, -⟩ | ⟨rfl, hc, rfl⟩ := hc
  · simp only [events] at hev
    split at hev
    · simp at hev
    · rename_i hk
      simp only [ne_eq, not_not] at hk
      split at hev
      · rename_i db id' hd
        simp only [List.mem_cons, reduceCtorEq, Registry.Action.grant.injEq, true_and,
          List.not_mem_nil, or_false, false_or] at hev
        simpa [addUserExact, hd, hk, hev] using hx
      · simp at hev
  · simp only [events, hc] at hev
    split at hev
    · rename_i db id' _ hd
      simp only [List.mem_singleton, Registry.Action.grant.injEq, true_and] at hev
      simpa [addUserExact, hc, hd, hev] using hx
    · simp at hev

variable {I : Tables → Prop}

theorem Entered.move {s t : Server} {a : Action} (h : Entered s) (hx : s.addUserExact a)
    (hm : Move I s a t) : Entered t := by
  cases hm with
  | login c key => exact ⟨h.entries, h.begun⟩
  | reject c key state =>
    exact Entered.answer (s := s.setKey c key) ⟨h.entries, h.begun⟩ c _ state
  | grant _ c key g v id state hc hv hev =>
    have hmem := addUserExact_grant hx hc hev
    have h₁ : Entered ((s.setKey c key).emplaced c v { g with dbIndex := id }) := by
      refine ⟨fun key' e he => ?_, h.begun⟩
      by_cases hk : key' = key
      · subst hk
        simp only [emplaced, setKey, Function.update_self, Option.some.injEq] at he
        rw [← he]
        exact hmem
      · refine h.entries key' e ?_
        simpa [emplaced, setKey, Function.update_of_ne hk] using he
    obtain ⟨channel, signal, socket, heq, -⟩ :=
      ((s.setKey c key).emplaced c v { g with dbIndex := id }).socketCoroutine_eq c
    refine Entered.answer ?_ c _ state
    rw [heq]
    exact ⟨h₁.entries, h₁.begun⟩
  | fail c bytes => exact Entered.remove (s := s.setKey c _) ⟨h.entries, h.begun⟩ c
  | close _ c => exact h.remove c
  | relay c bytes lookup size recipient e d =>
    obtain ⟨channel, signal, heq⟩ := (s.push d _).asyncSend_eq d (.start c)
    rw [heq]
    exact ⟨h.entries, h.begun⟩
  | hand c d row rest sent hc =>
    obtain ⟨channel, signal, heq⟩ := (s.push d row.data).asyncSend_eq d (.delayed c)
    have h₁ : Entered ((s.push d row.data).asyncSend d (.delayed c)) := by
      rw [heq]
      exact ⟨h.entries, h.begun⟩
    refine h₁.setDelayed ?_ _
    rw [heq]
    intro hn
    have hdel := hc.delivering
    simp [h.begun c hn, DelayedState.delivering] at hdel
  | stop c state hc => exact h.setDelayed (fun hn => hc (h.begun c hn)) state
  | park c =>
    obtain ⟨channel, signal, socket, heq, -⟩ := s.socketCoroutine_eq c
    rw [heq]
    exact ⟨h.entries, h.begun⟩
  | wrote c socket q channel message front rest =>
    unfold writeMessages
    split
    · obtain ⟨channel', signal, state, heq, -⟩ :=
        (s.popped socket q message rest).socketCoroutine_eq c
      rw [heq]
      exact ⟨h.entries, h.begun⟩
    · exact ⟨h.entries, h.begun⟩
  | _ => exact ⟨h.entries, h.begun⟩

/-- The calls of `add_message_to_queue` that `send_delayed_messages` can make next. -/
def Hands (s : Server) (c : ConnId) : Prop :=
  (s.delayed c = .fetching ∧
    ∃ db row rows, s.db.resume (.delayed c) = some (db, some (.messages (row :: rows)))) ∨
  ∃ current rest sent, s.delayed c = .sending current rest sent

/-- No entry is a placeholder, no lookup in the slot vector is out of range, and a relay
finds the client whose handle it has just got. -/
structure WellEntered (s : Server) : Prop where
  entry : ∀ key e, s.clientIndices key = some e →
    e.index < s.clientsSlotVector.clients.length ∧ e.index ≠ invalidIndex ∧
      s.db.tables.idOf key = some e.dbIndex
  lookup : ∀ key lookup, s.getClientIndex key lookup ≠ none
  relay : ∀ key lookup r message t, s.getClientIndex key lookup = some r →
    r.index ≠ invalidIndex →
    ∃ s', s.addMessageToQueue r.index r.generation message t = some (s', .suspended)
  retry : ∀ c recipient message lookup again,
    s.tryRelay c recipient message lookup again = s.tryRelay c recipient message lookup none
  delayed : ∀ c, s.Hands c →
    (s.connection c).indices.index < s.clientsSlotVector.clients.length

theorem slotAt_lt {α : Type*} {v : SlotVector α} {i : Nat} (h : v.slotAt i ≠ none) :
    i < v.clients.length := by
  by_contra hn
  exact h (SlotVector.slotAt_eq_none.mpr (Nat.le_of_not_lt hn))

/-- The handle that `get_client_index` returns is good for `add_message_to_queue`. -/
theorem addMessageToQueue_of_getClientIndex {s : Server} (hw : s.registry.WellFormed)
    {key : PublicKey} {lookup : Bool} {r : ClientIndex}
    (hr : s.getClientIndex key lookup = some r) (hi : r.index ≠ invalidIndex)
    (message : Message) (t : Task) :
    ∃ s', s.addMessageToQueue r.index r.generation message t = some (s', .suspended) := by
  obtain ⟨-, rfl⟩ | ⟨e, ⟨object, generation⟩, -, hslot, ⟨-, rfl⟩ | ⟨client, ho, rfl, -⟩⟩ :=
    getClientIndex_cases hr
  · exact absurd rfl hi
  · exact absurd rfl hi
  · obtain rfl : object = some client := ho
    obtain ⟨d, rfl⟩ := hw.objects _ _ client hslot rfl
    simp [addMessageToQueue, hslot, Client.new]

theorem getClientIndex_ne_none {s : Server} (hw : s.registry.WellFormed) (key : PublicKey)
    (lookup : Bool) : s.getClientIndex key lookup ≠ none := by
  unfold getClientIndex
  cases hk : s.clientIndices key with
  | none => simp
  | some e =>
    have hslot : s.clientsSlotVector.slotAt e.index ≠ none := hw.entries key e hk
    simpa using hslot

/-- The relay does not jump back. -/
theorem tryRelay_again {s : Server} (hw : s.registry.WellFormed) (c : ConnId)
    (recipient : PublicKey) (message : Message) (lookup : Bool) (again : Option Server) :
    s.tryRelay c recipient message lookup again =
      s.tryRelay c recipient message lookup none := by
  unfold tryRelay
  cases hr : s.getClientIndex recipient lookup with
  | none => rfl
  | some r =>
    simp only [Option.bind_some]
    by_cases hi : r.index = invalidIndex
    · rw [if_pos hi, if_pos hi]
    · obtain ⟨s', hs⟩ := addMessageToQueue_of_getClientIndex hw hr hi message (.start c)
      rw [if_neg hi, if_neg hi, hs]
      rfl

/-- A rejected connection has nothing to hand over: no message is stored for its index. -/
theorem Steady.hands {s : Server} (h : Steady s) (he : Entered s) {c : ConnId} (hc : s.Hands c) :
    (s.connection c).indices.index < s.clientsSlotVector.clients.length := by
  have hans : s.answer c ≠ none := by
    intro hn
    obtain ⟨hc, -⟩ | ⟨current, rest, sent, hc⟩ := hc <;> simp [he.begun c hn] at hc
  obtain ⟨g, hg⟩ := Option.ne_none_iff_exists'.mp hans
  rw [h.sound.indices hg]
  apply slotAt_lt
  apply h.sound.wellFormed.inRange c g hg
  intro hempty
  subst hempty
  obtain ⟨hc, db, row, rows, hd⟩ | ⟨current, rest, sent, hc⟩ := hc
  · have hk := h.linked.fetching c (by simp) hc
    obtain ⟨-, stmt, hasked, hv⟩ := h.linked.answered.resume hd
    rw [hasked, Option.some.injEq] at hk
    subst hk
    obtain ⟨value, hval, hans, -⟩ | ⟨key, e, hstmt, -⟩ := hv
    · cases hval
      obtain ⟨hid, hf⟩ := hans row List.mem_cons_self
      obtain ⟨u, hu, huid⟩ := hf.user
      have hb := (Tables.id_bounds hu).2
      rw [huid, hid, h.sound.indices hg] at hb
      exact absurd hb (Nat.lt_irrefl _)
    · cases hstmt
  · obtain hc' | hc' := h.aside.delayed c hg <;> rw [hc] at hc' <;> cases hc'

theorem wellEntered_of_entered {s : Server} (h : Steady s) (he : Entered s) : WellEntered s where
  entry := by
    intro key e hk
    have hslot := h.sound.wellFormed.entries key e hk
    refine ⟨slotAt_lt hslot, ?_, Tables.idOf_eq_some.mpr (he.entries key e hk)⟩
    intro hi
    exact hslot (hi ▸ SlotVector.slotAt_invalid _)
  lookup := getClientIndex_ne_none h.sound.wellFormed
  relay := fun key lookup r message t hr hi =>
    addMessageToQueue_of_getClientIndex h.sound.wellFormed hr hi message t
  retry := tryRelay_again h.sound.wellFormed
  delayed := fun c hc => h.hands he hc

/-- The registry is well formed in every state of a run in which `db.add_user` returns each
key's row. -/
theorem registry_well_entered (native : Proto.Endian) (succeeds : StartStep → Bool)
    (tables : Tables) (as : List Action)
    (hc : Lts.Along step (fun s a => s.addUserExact a) (init native succeeds tables) as) :
    Lts.Always step WellEntered (init native succeeds tables) as := by
  intro bs hp t hr
  obtain ⟨hs, he⟩ := Lts.invariant (I := fun s => Steady s ∧ Entered s)
    (fun s a t ⟨hs, he⟩ hx hstep => by
      obtain ⟨u, hm, ha⟩ := step_move hs.sound hs.linked hstep
      have hd := (hs.linked.step hs.sound (fun _ _ _ _ _ => trivial) hstep).2
      exact ⟨hs.step hstep, (he.move hx hm).alike ha (by rw [hm.db]; exact hd.evolves.users)⟩)
    ⟨init_steady native succeeds tables, init_entered native succeeds tables⟩
    (hc.initial hp) hr
  exact wellEntered_of_entered hs he

/-- Two keys log in, and one writes to the other. -/
theorem registry_well_entered_session :
    Lts.Always step WellEntered (init .little (fun _ => true) .empty) writtenToSession :=
  registry_well_entered .little (fun _ => true) .empty writtenToSession (by decide +kernel)

end MydakServer.Server
