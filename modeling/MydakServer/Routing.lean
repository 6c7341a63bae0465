import MydakServer.Storage

/-! To whom messages go: the sessions whose queues and sockets they reach, and the users
they are stored for. -/
namespace MydakServer

/-- Every stored message is stored for the user whose key it is addressed to. -/
def Tables.Addressed (t : Tables) : Prop :=
  ∀ row ∈ t.messages, ⟨row.userId, row.data.recipient⟩ ∈ t.users

theorem Tables.Fetched.addressed {t : Tables} {row : Row} (h : Fetched Addressed t row) :
    ⟨row.userId, row.data.recipient⟩ ∈ t.users := by
  obtain ⟨t₀, h₀, hr, he⟩ := h
  exact he.users (h₀ row hr)

/-- `send_delayed_messages` may still hand over messages. -/
def DelayedState.delivering : DelayedState → Bool
  | .fetching | .sending _ _ _ => true
  | _ => false

namespace Server

theorem MayHand.delivering {I : Tables → Prop} {s : Server} {c : ConnId} {row : Row}
    {rest : List Row} {sent : List Nat} (h : MayHand I s c row rest sent) :
    (s.delayed c).delivering := by
  obtain ⟨hc, -⟩ | ⟨current, sent', hc, -⟩ := h <;> simp [hc, DelayedState.delivering]

/-- The connection delivers messages under this index and generation. -/
def delivers (s : Server) (g : ClientIndex) (d : ConnId) : Bool :=
  (s.delayed d).delivering && (s.connection d).indices.index = g.index &&
    (s.connection d).indices.generation = g.generation

/-- No connection is granted the index and the generation of another one whose
`send_delayed_messages` is still running. -/
def freshGrants (s : Server) (a : Action) : Bool :=
  (s.events a).all fun
    | .grant c _ =>
      match s.clientsSlotVector.emplaceBack (.new c) with
      | some (g, _) => (List.range s.accepted).all fun d => !s.delivers g d
      | none => true
    | _ => true

/-- Messages are where their recipient is, or on the way there. -/
structure Routes (s : Server) : Prop where
  unanswered : ∀ c, s.answer c = none →
    s.messages c = [] ∧ s.written c = [] ∧ s.delayed c = .unborn
  queued : ∀ c, ∀ m ∈ s.messages c, m.recipient = (s.connection c).publicKey
  written : ∀ c, ∀ m ∈ s.written c, m.recipient = (s.connection c).publicKey
  writing : ∀ c data m, s.socket c = .writing data m → ∃ e, data = (Client.new e).data ∧
    s.answer e ≠ none ∧ m.recipient = (s.connection e).publicKey
  sending : ∀ c current rest sent, s.delayed c = .sending current rest sent →
    ∀ row ∈ current :: rest, row.data.recipient = (s.connection c).publicKey
  own : ∀ c e, (s.delayed c).delivering →
    s.clientsSlotVector.slotAt (s.connection c).indices.index =
      some ⟨some (.new e), (s.connection c).indices.generation⟩ → e = c
  account : ∀ c g, s.answer c = some g → g.dbIndex = maxUInt64 ∨
    ⟨g.dbIndex, (s.connection c).publicKey⟩ ∈ s.db.tables.users

theorem init_routes (native : Proto.Endian) (succeeds : StartStep → Bool) (tables : Tables) :
    Routes (init native succeeds tables) := by
  constructor <;> simp [init, DelayedState.delivering]

theorem Routes.alike {s s' : Server} (h : Routes s) (ha : Alike s s')
    (hu : s.db.tables.users ⊆ s'.db.tables.users) : Routes s' := by
  constructor
  · simpa only [ha.answer, ha.messages, ha.written, ha.delayed] using h.unanswered
  · simpa only [ha.messages, ha.connection] using h.queued
  · simpa only [ha.written, ha.connection] using h.written
  · simpa only [ha.socket, ha.answer, ha.connection] using h.writing
  · simpa only [ha.delayed, ha.connection] using h.sending
  · simpa only [ha.delayed, ha.connection, ha.clientsSlotVector] using h.own
  · intro c g hg
    rw [ha.answer] at hg
    rw [ha.connection]
    exact (h.account c g hg).imp_right fun hm => hu hm

/-- A key is read for a connection that no message has reached. -/
theorem Routes.setKey {s : Server} (h : Routes s) {c : ConnId} (hc : s.answer c = none)
    (key : PublicKey) : Routes (s.setKey c key) := by
  have hkey : ∀ d, d ≠ c → (s.setKey c key).connection d = s.connection d := by
    intro d hd
    simp [Server.setKey, Function.update_of_ne hd]
  have hindices : ∀ d, ((s.setKey c key).connection d).indices = (s.connection d).indices := by
    intro d
    by_cases hd : d = c
    · subst hd
      simp [Server.setKey]
    · rw [hkey d hd]
  obtain ⟨hm, hw, hdel⟩ := h.unanswered c hc
  constructor
  case unanswered => exact h.unanswered
  case queued =>
    intro d m hd
    by_cases hdc : d = c
    · subst hdc
      rw [show (s.setKey d key).messages d = [] from hm] at hd
      cases hd
    · rw [hkey d hdc]
      exact h.queued d m hd
  case written =>
    intro d m hd
    by_cases hdc : d = c
    · subst hdc
      rw [show (s.setKey d key).written d = [] from hw] at hd
      cases hd
    · rw [hkey d hdc]
      exact h.written d m hd
  case writing =>
    intro d data m hd
    obtain ⟨e, he, hans, hr⟩ := h.writing d data m hd
    have hec : e ≠ c := by
      intro heq
      subst heq
      exact hans hc
    exact ⟨e, he, hans, by rw [hkey e hec, hr]⟩
  case sending =>
    intro d current rest sent hd
    have hdc : d ≠ c := by
      intro heq
      subst heq
      have hd' : s.delayed d = .sending current rest sent := hd
      simp [hdel] at hd'
    rw [hkey d hdc]
    exact h.sending d current rest sent hd
  case own =>
    intro d e hd
    rw [hindices]
    exact h.own d e hd
  case account =>
    intro d g hd
    have hdc : d ≠ c := by
      intro heq
      subst heq
      simp [show s.answer d = some g from hd] at hc
    rw [hkey d hdc]
    exact h.account d g hd

/-- The connection has its answer, and `send_delayed_messages` is spawned. -/
theorem Routes.answer {s : Server} (h : Routes s) {c : ConnId} (hc : s.answer c = none)
    {g : ClientIndex} {state : DelayedState} (hstate : state = .fetching ∨ state = .finished)
    (hown : ∀ e, s.clientsSlotVector.slotAt g.index = some ⟨some (.new e), g.generation⟩ → e = c)
    (hid : g.dbIndex = maxUInt64 ∨ ⟨g.dbIndex, (s.connection c).publicKey⟩ ∈ s.db.tables.users) :
    Routes ((s.answered c g).setDelayed c state) := by
  have hkey : ∀ d, ((s.answered c g).connection d).publicKey = (s.connection d).publicKey := by
    intro d
    by_cases hd : d = c
    · subst hd
      simp [answered, setStart]
    · simp [answered, setStart, Function.update_of_ne hd]
  have hother : ∀ d, d ≠ c → (s.answered c g).answer d = s.answer d ∧
      (s.answered c g).connection d = s.connection d ∧
      ((s.answered c g).setDelayed c state).delayed d = s.delayed d := by
    intro d hd
    simp [answered, setStart, setDelayed, Function.update_of_ne hd]
  have hself : (s.answered c g).answer c = some g ∧ ((s.answered c g).connection c).indices = g ∧
      ((s.answered c g).setDelayed c state).delayed c = state := by
    simp [answered, setStart, setDelayed]
  constructor
  case unanswered =>
    intro d hd
    have hdc : d ≠ c := by
      intro heq
      subst heq
      exact Option.some_ne_none g (hself.1.symm.trans hd)
    obtain ⟨ha, -, hdel⟩ := hother d hdc
    rw [hdel]
    exact h.unanswered d (ha ▸ hd)
  case queued =>
    intro d m hd
    rw [show ((s.answered c g).setDelayed c state).connection = (s.answered c g).connection
      from rfl, hkey]
    exact h.queued d m hd
  case written =>
    intro d m hd
    rw [show ((s.answered c g).setDelayed c state).connection = (s.answered c g).connection
      from rfl, hkey]
    exact h.written d m hd
  case writing =>
    intro d data m hd
    obtain ⟨e, he, hans, hr⟩ := h.writing d data m hd
    have hec : e ≠ c := by
      intro heq
      subst heq
      exact hans hc
    exact ⟨e, he, by rwa [show ((s.answered c g).setDelayed c state).answer e = s.answer e from
      (hother e hec).1], hr.trans (hkey e).symm⟩
  case sending =>
    intro d current rest sent hd
    have hdc : d ≠ c := by
      intro heq
      subst heq
      rw [hself.2.2] at hd
      obtain rfl | rfl := hstate <;> cases hd
    rw [(hother d hdc).2.2] at hd
    intro row hrow
    exact (h.sending d current rest sent hd row hrow).trans (hkey d).symm
  case own =>
    intro d e hd hslot
    by_cases hdc : d = c
    · subst hdc
      rw [show ((s.answered d g).setDelayed d state).connection = (s.answered d g).connection
        from rfl, hself.2.1] at hslot
      exact hown e hslot
    · rw [(hother d hdc).2.2] at hd
      rw [show ((s.answered c g).setDelayed c state).connection d = s.connection d
        from (hother d hdc).2.1] at hslot
      exact h.own d e hd hslot
  case account =>
    intro d g' hd
    rw [show ((s.answered c g).setDelayed c state).connection = (s.answered c g).connection
      from rfl, hkey]
    by_cases hdc : d = c
    · subst hdc
      obtain rfl : g = g' := Option.some.inj (hself.1.symm.trans hd)
      exact hid
    · exact h.account d g' ((hother d hdc).1 ▸ hd)

theorem Routes.remove {s : Server} (h : Routes s) (c : ConnId) : Routes (s.endConnection c) := by
  refine ⟨h.unanswered, h.queued, h.written, h.writing, h.sending, ?_, h.account⟩
  intro d e hd hslot
  simp only [endConnection, removeClient, setStart, SlotVector.slotAt_pop] at hslot
  split at hslot
  · obtain ⟨slot, -, hclear⟩ := Option.map_eq_some_iff.mp hslot
    cases hclear
  · exact h.own d e hd hslot

/-- A message for the key of a session goes into its queue. -/
theorem Routes.send {s : Server} (h : Routes s) {d : ConnId} {t : Task} {m : Message}
    (hd : s.answer d ≠ none) (hm : m.recipient = (s.connection d).publicKey) :
    Routes ((s.push d m).asyncSend d t) := by
  obtain ⟨channel, signal, he⟩ := (s.push d m).asyncSend_eq d t
  rw [he]
  refine ⟨?_, ?_, h.written, h.writing, h.sending, h.own, h.account⟩
  · intro c hc
    have hcd : c ≠ d := by
      intro heq
      subst heq
      exact hd hc
    simpa [push, Function.update_of_ne hcd] using h.unanswered c hc
  · intro c m' hm'
    by_cases hcd : c = d
    · subst hcd
      simp only [push, Function.update_self, List.mem_append, List.mem_singleton] at hm'
      obtain hm' | rfl := hm'
      · exact h.queued c m' hm'
      · exact hm
    · exact h.queued c m' (by simpa [push, Function.update_of_ne hcd] using hm')

theorem Routes.setSocket {s : Server} (h : Routes s) (c : ConnId) {state : SocketState}
    (hstate : ∀ data m, state = .writing data m → ∃ e, data = (Client.new e).data ∧
      s.answer e ≠ none ∧ m.recipient = (s.connection e).publicKey) :
    Routes (s.setSocket c state) := by
  refine ⟨h.unanswered, h.queued, h.written, ?_, h.sending, h.own, h.account⟩
  intro d data m hd
  by_cases hdc : d = c
  · subst hdc
    exact hstate data m (by simpa [Server.setSocket] using hd)
  · exact h.writing d data m (by simpa [Server.setSocket, Function.update_of_ne hdc] using hd)

theorem Routes.socketCoroutine {s : Server} (h : Routes s) (c : ConnId) :
    Routes (s.socketCoroutine c) := by
  obtain ⟨channel, signal, state, he, hstate⟩ := s.socketCoroutine_eq c
  have hs : Routes (s.setSocket c state) := h.setSocket c fun data m hw => by
    obtain ⟨-, rfl⟩ | ⟨-, rfl⟩ := hstate <;> cases hw
  rw [he]
  exact ⟨hs.unanswered, hs.queued, hs.written, hs.writing, hs.sending, hs.own, hs.account⟩

/-- The message at the front of a queue is on the socket of the session the queue belongs to. -/
theorem Routes.writeMessages {s : Server} (h : Routes s) (c e : ConnId) (he : s.answer e ≠ none) :
    Routes (s.writeMessages c (Client.new e).data e) := by
  unfold Server.writeMessages
  split
  · exact h.socketCoroutine c
  · rename_i m rest hm
    refine h.setSocket c fun data m' hw => ?_
    cases hw
    exact ⟨e, rfl, he, h.queued e m (by simp [hm])⟩

theorem freshGrants_delivers {s : Server} {a : Action} {c d : ConnId} {id : Nat}
    {g : ClientIndex} {v : SlotVector Client} (hf : s.freshGrants a)
    (hev : .grant c id ∈ s.events a)
    (hv : s.clientsSlotVector.emplaceBack (.new c) = some (g, v)) (hd : d < s.accepted) :
    s.delivers g d = false := by
  have hg := List.all_eq_true.mp hf _ hev
  simp only [hv] at hg
  simpa using List.all_eq_true.mp hg d (List.mem_range.mpr hd)

/-- The rows a connection has fetched are for its own key. -/
theorem Routes.fetched {s : Server} (h : Routes s) (hs : Sound s) {c : ConnId} {row : Row}
    (hc : s.answer c ≠ none) (hid : row.userId = (s.connection c).indices.dbIndex)
    (hrow : Tables.Fetched Tables.Addressed s.db.tables row) :
    row.data.recipient = (s.connection c).publicKey := by
  obtain ⟨g, hg⟩ := Option.ne_none_iff_exists'.mp hc
  have hu := hrow.addressed
  rw [hid, hs.indices hg] at hu
  obtain hmax | hu' := h.account c g hg
  · have := (Tables.id_bounds hu).2
    simp only [hmax] at this
    omega
  · exact congrArg User.publicKey (Tables.key_of_id hu hu' rfl)

/-- `send_delayed_messages` of a connection that has its answer is in another state. -/
theorem Routes.setDelayed {s : Server} (h : Routes s) {c : ConnId} (hc : s.answer c ≠ none)
    {state : DelayedState}
    (hrows : ∀ current rest sent, state = .sending current rest sent →
      ∀ row ∈ current :: rest, row.data.recipient = (s.connection c).publicKey)
    (hown : state.delivering → ∀ e, s.clientsSlotVector.slotAt (s.connection c).indices.index =
      some ⟨some (.new e), (s.connection c).indices.generation⟩ → e = c) :
    Routes (s.setDelayed c state) := by
  refine ⟨?_, h.queued, h.written, h.writing, ?_, ?_, h.account⟩
  · intro d hd
    have hdc : d ≠ c := by
      intro heq
      subst heq
      exact hc hd
    simpa [Server.setDelayed, Function.update_of_ne hdc] using h.unanswered d hd
  · intro d current rest sent hd
    by_cases hdc : d = c
    · subst hdc
      exact hrows current rest sent (by simpa [Server.setDelayed] using hd)
    · exact h.sending d current rest sent
        (by simpa [Server.setDelayed, Function.update_of_ne hdc] using hd)
  · intro d e hd hslot
    by_cases hdc : d = c
    · subst hdc
      exact hown (by simpa [Server.setDelayed] using hd) e hslot
    · exact h.own d e (by simpa [Server.setDelayed, Function.update_of_ne hdc] using hd) hslot

/-- A fresh grant takes no slot that a connection still delivers to. -/
theorem Routes.emplaced {s : Server} (hs : Sound s) (h : Routes s) {a : Action} {c : ConnId}
    (key : PublicKey) {g : ClientIndex} {v : SlotVector Client} {id : Nat}
    (hf : s.freshGrants a) (hnone : s.answer c = none)
    (hv : s.clientsSlotVector.emplaceBack (.new c) = some (g, v))
    (hev : .grant c id ∈ s.events a) :
    Routes ((s.setKey c key).emplaced c v { g with dbIndex := id }) := by
  have h₁ := h.setKey hnone key
  obtain ⟨-, hslots, -⟩ := SlotVector.emplaceBack_cases hv
  have hidle : ∀ d, s.answer d = none → (s.delayed d).delivering = false := by
    intro d hd
    simp [(h.unanswered d hd).2.2, DelayedState.delivering]
  refine ⟨h₁.unanswered, h₁.queued, h₁.written, h₁.writing, h₁.sending, ?_, h₁.account⟩
  intro d e hd hslot
  have hdel : (s.delayed d).delivering := hd
  have hdc : d ≠ c := by
    intro heq
    subst heq
    exact absurd hdel (by simp [hidle d hnone])
  have hlt : d < s.accepted := by
    by_contra hn
    have hans := hs.answer_none (.inl (hs.numbered d (Nat.le_of_not_lt hn)))
    exact absurd hdel (by simp [hidle d hans])
  have hconn : (s.setKey c key).connection d = s.connection d := by
    simp [Server.setKey, Function.update_of_ne hdc]
  have hslot' : v.slotAt ((s.setKey c key).connection d).indices.index =
    some ⟨some (.new e), ((s.setKey c key).connection d).indices.generation⟩ := hslot
  rw [hconn, hslots] at hslot'
  split at hslot'
  · rename_i hi
    have hfresh := freshGrants_delivers hf hev hv hlt
    simp only [Option.some.injEq, Slot.mk.injEq] at hslot'
    simp [delivers, hdel, hi, hslot'.2] at hfresh
  · exact h.own d e hdel hslot'

theorem Routes.grant {s : Server} (hs : Sound s) (h : Routes s) {a : Action} {c : ConnId}
    {key : PublicKey} {g : ClientIndex} {v : SlotVector Client} {id : Nat} {state : DelayedState}
    (hf : s.freshGrants a) (hnone : s.answer c = none)
    (hv : s.clientsSlotVector.emplaceBack (.new c) = some (g, v))
    (hev : .grant c id ∈ s.events a)
    (hid : id = maxUInt64 ∨ ⟨id, key⟩ ∈ s.db.tables.users)
    (hstate : state = .fetching ∨ state = .finished) :
    Routes (((s.setKey c key).granted c v { g with dbIndex := id }).setDelayed c state) := by
  obtain ⟨-, hslots, -⟩ := SlotVector.emplaceBack_cases hv
  have h₁ := (h.emplaced hs key hf hnone hv hev).socketCoroutine c
  obtain ⟨channel, signal, socket, heq, -⟩ :=
    ((s.setKey c key).emplaced c v { g with dbIndex := id }).socketCoroutine_eq c
  unfold granted
  rw [heq] at h₁ ⊢
  refine h₁.answer hnone hstate ?_ ?_
  · intro e he
    have he' : v.slotAt g.index = some ⟨some (.new e), g.generation⟩ := he
    rw [hslots, if_pos rfl] at he'
    cases he'
    rfl
  · simpa [Server.setKey, Server.emplaced] using hid

/-- A message that was fetched for a session goes into its queue. -/
theorem Routes.hand {s : Server} (hs : Sound s) (h : Routes s) {c d : ConnId} {row : Row}
    {rest : List Row} {sent : List Nat} (hc : MayHand Tables.Addressed s c row rest sent)
    (hd : s.clientsSlotVector.slotAt (s.connection c).indices.index =
      some ⟨some (.new d), (s.connection c).indices.generation⟩) :
    Routes (((s.push d row.data).asyncSend d (.delayed c)).setDelayed c
      (.sending row rest sent)) := by
  have hdel := hc.delivering
  have hans : s.answer c ≠ none := by
    intro hn
    simp [(h.unanswered c hn).2.2, DelayedState.delivering] at hdel
  obtain rfl : d = c := h.own c d hdel hd
  have hrows : ∀ r ∈ row :: rest, r.data.recipient = (s.connection d).publicKey := by
    obtain ⟨-, -, hr⟩ | ⟨current, sent', hc, -⟩ := hc
    · intro r hr'
      obtain ⟨hid, hf⟩ := hr r hr'
      exact h.fetched hs hans hid hf
    · intro r hr'
      exact h.sending d current _ sent' hc r (List.mem_cons_of_mem _ hr')
  have h₁ : Routes ((s.push d row.data).asyncSend d (.delayed d)) :=
    h.send hans (hrows row List.mem_cons_self)
  obtain ⟨channel, signal, heq⟩ := (s.push d row.data).asyncSend_eq d (.delayed d)
  rw [heq] at h₁ ⊢
  refine h₁.setDelayed hans ?_ fun _ e he => h.own d e hdel he
  intro current rest' sent' hst
  cases hst
  exact hrows

/-- The message at the front of a queue has been written. -/
theorem Routes.popped {s : Server} (h : Routes s) {c : ConnId} {message : Message}
    {rest : List Message} (hc : s.answer c ≠ none)
    (hm : message.recipient = (s.connection c).publicKey) (hq : rest ⊆ s.messages c) :
    Routes (s.popped c c message rest) := by
  refine ⟨?_, ?_, ?_, h.writing, h.sending, h.own, h.account⟩
  · intro d hd
    have hdc : d ≠ c := by
      intro heq
      subst heq
      exact hc hd
    simpa [Server.popped, Function.update_of_ne hdc] using h.unanswered d hd
  · intro d m hd
    by_cases hdc : d = c
    · subst hdc
      have hm' : m ∈ rest := by simpa [Server.popped] using hd
      exact h.queued d m (hq hm')
    · exact h.queued d m (by simpa [Server.popped, Function.update_of_ne hdc] using hd)
  · intro d m hd
    by_cases hdc : d = c
    · subst hdc
      simp only [Server.popped, Function.update_self, List.mem_append, List.mem_singleton] at hd
      obtain hd | rfl := hd
      · exact h.written d m hd
      · exact hm
    · exact h.written d m (by simpa [Server.popped, Function.update_of_ne hdc] using hd)

theorem Routes.move {s t : Server} {a : Action} (hs : Sound s) (ho : s.registry.Owned)
    (h : Routes s) (hf : s.freshGrants a) (hm : Move Tables.Addressed s a t) : Routes t := by
  have hread : ∀ c, s.start c = .readKey → s.answer c = none := fun c hc =>
    hs.answer_none (.inr (.inl hc))
  have hheld : ∀ i e generation, s.clientsSlotVector.slotAt i = some ⟨some (.new e), generation⟩ →
      s.answer e ≠ none := by
    intro i e generation hslot
    obtain ⟨g, hg, -⟩ := ho.held i _ e hslot rfl
    have hg' : s.answer e = some g := hg.2.1
    simp [hg']
  cases hm with
  | other => exact h
  | login c key hc =>
    have h' := h.setKey (hread c hc) key
    exact ⟨h'.unanswered, h'.queued, h'.written, h'.writing, h'.sending, h'.own, h'.account⟩
  | reject c key state hc hk hstate =>
    refine (h.setKey (hread c hc) key).answer (hread c hc) hstate ?_ (.inl rfl)
    intro e he
    rw [ClientIndex.empty, SlotVector.slotAt_invalid] at he
    cases he
  | grant _ c key g v id state hc hv hev hid hstate =>
    exact h.grant hs hf (answer_of_logs hs hc) hv hev hid hstate
  | fail c bytes hc => exact (h.setKey (hread c hc) _).remove c
  | close _ c => exact h.remove c
  | relay c bytes lookup size recipient e d generation hc he hd =>
    obtain ⟨c₀, -, hk, hslot⟩ := session_of_entry ho he
    rw [hd, Option.some.injEq, Slot.mk.injEq] at hslot
    obtain rfl := Client.new_inj (Option.some.inj hslot.1)
    exact h.send (hheld _ _ _ hd) hk.symm
  | hand c d row rest sent hc hd => exact h.hand hs hc hd
  | stop c state hc hstate =>
    have hans : s.answer c ≠ none := fun hn => hc (h.unanswered c hn).2.2
    refine h.setDelayed hans ?_ ?_
    · intro current rest sent heq
      subst heq
      obtain heq | ⟨heq, -⟩ := hstate <;> cases heq
    · intro hdel
      obtain rfl | ⟨rfl, -⟩ := hstate <;> cases hdel
  | park c => exact h.socketCoroutine c
  | write c e generation message rest hc hs' he hm =>
    refine h.setSocket c fun data m hw => ?_
    cases hw
    exact ⟨e, rfl, hheld _ _ _ he, h.queued e message (by simp [hm])⟩
  | wrote c socket q channel message front rest hc hq =>
    obtain ⟨e, hdata, hans, hr⟩ := h.writing c _ _ hc
    cases hdata
    have hrest : rest ⊆ s.messages socket := hq ▸ List.subset_cons_self front rest
    exact (h.popped hans hr hrest).writeMessages c socket hans
  | wroteNone c socket q channel message hc hq =>
    obtain ⟨e, hdata, hans, hr⟩ := h.writing c _ _ hc
    cases hdata
    rw [← popped_nil message hq]
    exact (h.popped hans hr (List.nil_subset _)).setSocket c fun _ _ hw => by cases hw
  | tear c socket n q channel message =>
    have h' : Routes (s.addTorn socket (message.data.take n)) :=
      ⟨h.unanswered, h.queued, h.written, h.writing, h.sending, h.own, h.account⟩
    exact h'.setSocket c fun _ _ hw => by cases hw
  | terminate c => exact h.setSocket c fun _ _ hw => by cases hw
  | cancel c t channel =>
    exact ⟨h.unanswered, h.queued, h.written, h.writing, h.sending, h.own, h.account⟩

/-- The `INSERT`s that wait are for users whose messages they are, or will fail. -/
def InsertsAddressed (s : Server) : Prop := ∀ userId data,
  .insertMessage userId data ∈ s.db.pending →
    userId = 0 ∨ userId = maxUInt64 ∨ ⟨userId, data.recipient⟩ ∈ s.db.tables.users

theorem exec_addressed {t t' : Tables} {stmt : Statement} {r : Results}
    (h : t.exec stmt = some (r, t')) (ht : t.Addressed)
    (hs : ∀ userId data, stmt = .insertMessage userId data →
      userId = 0 ∨ userId = maxUInt64 ∨ ⟨userId, data.recipient⟩ ∈ t.users) : t'.Addressed := by
  intro row hrow
  obtain hrow | ⟨-, hstmt⟩ := (Tables.exec_new h).2 row hrow
  · exact Tables.exec_users h (ht row hrow)
  · subst hstmt
    obtain ⟨u, hu, hid⟩ := List.mem_map.mp (Tables.exec_insertMessage h).1
    have hbounds := Tables.id_bounds hu
    rw [hid] at hbounds
    obtain h0 | hmax | hm := hs _ _ rfl
    · omega
    · omega
    · exact Tables.exec_users h hm

theorem getDbIndex_cases (s : Server) (key : PublicKey) (lookup : Bool) :
    s.db.getDbIndex key lookup = 0 ∨ ⟨s.db.getDbIndex key lookup, key⟩ ∈ s.db.tables.users := by
  by_cases hc : s.db.connected = true ∧ lookup = true
  · obtain ⟨hc, rfl⟩ := hc
    rw [getDbIndex_eq hc]
    cases hid : s.db.tables.idOf key with
    | none => exact .inl rfl
    | some id => exact .inr (Tables.idOf_eq_some.mp hid)
  · refine .inl ?_
    simp [Database.getDbIndex, hc]

/-- The index under which a message is stored names the recipient's row, or no row. -/
theorem dbIndex_cases {s : Server} {key : PublicKey} {lookup : Bool} {r : ClientIndex}
    (hr : s.getClientIndex key lookup = some r) (hi : r.index = invalidIndex) :
    r.dbIndex = 0 ∨ r.dbIndex = maxUInt64 ∨ ⟨r.dbIndex, key⟩ ∈ s.db.tables.users := by
  obtain ⟨-, rfl⟩ | ⟨e, slot, -, -, ⟨-, rfl⟩ | ⟨client, -, -, hn⟩⟩ := getClientIndex_cases hr
  · exact (s.getDbIndex_cases key lookup).imp_right .inr
  · exact .inr (.inl rfl)
  · exact absurd hi hn

theorem DbStep.evolves {s s' : Server} {a : Action} (h : DbStep s a s') :
    s.db.tables.Evolves s'.db.tables := by
  obtain ⟨-, -, -, stmt, r, -, hx⟩ | ⟨ht, -⟩ := h
  · exact Tables.exec_evolves hx
  · rw [ht]
    exact .refl _

theorem InsertsAddressed.step {s s' : Server} {a : Action} (h : InsertsAddressed s)
    (hd : DbStep s a s') : InsertsAddressed s' := by
  have hold : ∀ userId data, .insertMessage userId data ∈ s.db.pending →
      userId = 0 ∨ userId = maxUInt64 ∨ ⟨userId, data.recipient⟩ ∈ s'.db.tables.users :=
    fun userId data hm => (h userId data hm).imp_right (·.imp_right fun hu => hd.evolves.users hu)
  intro userId data hm
  obtain ⟨-, -, -, stmt, r, hp, -⟩ | ⟨ht, -, stmts, hsend, hp, -⟩ := id hd
  · exact hold userId data (by simp [hp, hm])
  · rw [hp, List.mem_append] at hm
    obtain hm | hm := hm
    · exact hold userId data hm
    · obtain ⟨c, bytes, lookup, size, recipient, r, -, -, rfl, hr, hi, rfl⟩ := hsend _ hm
      rw [ht]
      exact dbIndex_cases hr hi

/-- The invariants from which it follows that messages are routed. -/
structure Orderly (s : Server) : Prop where
  sound : Sound s
  owned : s.registry.Owned
  linked : Linked Tables.Addressed none s
  routes : Routes s
  inserts : InsertsAddressed s

theorem init_orderly (native : Proto.Endian) (succeeds : StartStep → Bool) {tables : Tables}
    (ht : tables.Addressed) : Orderly (init native succeeds tables) where
  sound := init_sound native succeeds tables
  owned := Registry.start_owned
  linked := init_linked native succeeds ht
  routes := init_routes native succeeds tables
  inserts := by
    intro userId data hm
    simp [init, Database.start_pending] at hm

theorem Orderly.step {s s' : Server} {a : Action} (h : Orderly s) (hspare : s.sparesSlots a)
    (hfresh : s.freshGrants a) (hstep : s.step a = some s') : Orderly s' := by
  obtain ⟨hl, hd⟩ := h.linked.step h.sound
    (fun stmt r t hm hx => exec_addressed hx h.linked.answered.tables fun userId data he =>
      h.inserts userId data (he ▸ hm)) hstep
  obtain ⟨t, hm, ha⟩ := step_move h.sound h.linked hstep
  exact ⟨h.sound.step hstep, h.sound.owned h.owned hspare hstep, hl,
    (h.routes.move h.sound h.owned hfresh hm).alike ha (by rw [hm.db]; exact hd.evolves.users),
    h.inserts.step hd⟩

/-- The handle that `get_client_index` returns for a key leads to a session of that key, and
only messages addressed to its key reach the queue and the socket of a session. -/
structure Routed (s : Server) : Prop where
  handle : ∀ key lookup r slot client, s.getClientIndex key lookup = some r →
    s.clientsSlotVector.slotAt r.index = some slot → slot.object = some client →
    ∃ c g, client = .new c ∧ s.registry.Granted c g ∧ (s.connection c).publicKey = key
  queued : ∀ c, ∀ m ∈ s.messages c, m.recipient = (s.connection c).publicKey
  written : ∀ c, ∀ m ∈ s.written c, m.recipient = (s.connection c).publicKey
  writing : ∀ c data m d, s.socket c = .writing data m → data.socket = some d →
    m.recipient = (s.connection d).publicKey

theorem Orderly.routed {s : Server} (h : Orderly s) : Routed s where
  handle := by
    intro key lookup r slot client hr hslot ho
    obtain ⟨-, rfl⟩ | ⟨e, slot', hk, hs, ⟨-, rfl⟩ | ⟨client', -, rfl, -⟩⟩ := getClientIndex_cases hr
    · rw [SlotVector.slotAt_invalid] at hslot
      cases hslot
    · rw [ClientIndex.empty, SlotVector.slotAt_invalid] at hslot
      cases hslot
    · obtain ⟨c, hg, hkey, hholds⟩ := session_of_entry h.owned hk
      obtain rfl : slot = ⟨some (.new c), e.generation⟩ :=
        Option.some.inj (hslot.symm.trans hholds)
      exact ⟨c, e, (Option.some.inj ho).symm, hg, hkey⟩
  queued := h.routes.queued
  written := h.routes.written
  writing := by
    intro c data m d hw hd
    obtain ⟨e, rfl, -, hr⟩ := h.routes.writing c data m hw
    obtain rfl : e = d := Option.some.inj hd
    exact hr

/-- No message is misrouted in any state of a run in which no unanswered connection ends while
there are slots, and every grant is fresh. -/
theorem messages_routed (native : Proto.Endian) (succeeds : StartStep → Bool) (tables : Tables)
    (as : List Action) (ht : tables.Addressed)
    (hc : Lts.Along step (fun s a => s.sparesSlots a ∧ s.freshGrants a)
      (init native succeeds tables) as) :
    Lts.Always step Routed (init native succeeds tables) as := by
  intro bs hp t hr
  have h : Orderly t := Lts.invariant (fun s a t h hc hs => h.step hc.1 hc.2 hs)
    (init_orderly native succeeds ht) (hc.initial hp) hr
  exact h.routed

/-- Key 1 has slot 0; a connection ends before its key is read, and key 2 gets slot 0. Then key
2 writes to key 1. -/
def slotTakenOver : List Action :=
  [.loop, .accept, .keyRead 0 (.replicate 32 1), .loop, .execute, .resume (.start 0), .accept,
    .keyFails 1 [], .accept, .keyRead 2 (.replicate 32 2), .loop, .execute, .loop, .execute,
    .resume (.start 2), .greetings 2 (greetingsTo 1), .message 2 [7] true]

theorem not_messages_routed :
    ¬ Lts.Always step Routed (init .little (fun _ => true) .empty) slotTakenOver := by
  intro h
  have hrun : (Lts.run step (init .little (fun _ => true) .empty) slotTakenOver).any fun s =>
      (s.messages 2).any (·.recipient ≠ (s.connection 2).publicKey) := by
    decide +kernel
  obtain ⟨s, hs, hbad⟩ := (Option.any_eq_true _ _).mp hrun
  obtain ⟨m, hm, hne⟩ := List.any_eq_true.mp hbad
  exact of_decide_eq_true hne ((h _ (List.prefix_refl _) s hs).queued 2 m hm)

/-- Key 2 writes to key 1 while both are logged in. -/
def writtenToSession : List Action :=
  [.loop, .accept, .keyRead 0 (.replicate 32 1), .loop, .execute, .resume (.start 0), .accept,
    .keyRead 1 (.replicate 32 2), .loop, .execute, .loop, .execute, .resume (.start 1),
    .greetings 1 (greetingsTo 1), .message 1 [7] true, .resume (.socket 0), .written 0]

theorem messages_routed_session :
    Lts.Always step Routed (init .little (fun _ => true) .empty) writtenToSession :=
  messages_routed .little (fun _ => true) .empty writtenToSession (fun row hr => by cases hr)
    (by decide +kernel)

end Server
end MydakServer
