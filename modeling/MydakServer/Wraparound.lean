import MydakServer.Delivery
import MydakServer.Logins

/-! A slot that is granted so often that its generation comes round while the messages of an
earlier login are fetched: the later login with the same generation gets one of them. -/
namespace MydakServer.Server
open RequestQueue Database

def heldRow : Row := ⟨1, 1, ⟨[7], .replicate 32 1, none⟩⟩

/-- One message is stored for the first of two users. -/
def heldTables : Tables where
  users := [⟨1, .replicate 32 1⟩, ⟨2, .replicate 32 2⟩]
  nextUserId := 3
  messages := [heldRow]
  nextMessageId := 2
  uniqueKey := by decide
  uniqueId := by decide
  userIds := by decide
  userIdRange := by decide
  rowIds := by decide
  ascending := by decide
  foreignKey := by decide

/-- The message is fetched for the first login, which was granted the first slot in its first
generation. -/
structure Held (s : Server) : Prop where
  quiet : Quiet heldTables s
  accepted : 0 < s.accepted
  fetching : s.delayed 0 = .fetching
  indices : (s.connection 0).indices = ⟨0, 1, 1⟩
  ready : s.db.Ready (.delayed 0) .getDelayedMessages (.messages heldTables.messages)

theorem LoggedIn.held {s t : Server} {key : PublicKey} {g : ClientIndex} {v : SlotVector Client}
    (h : LoggedIn heldTables s key g v t) (hs : Held s) : Held t where
  quiet := h.quiet
  accepted := by rw [h.accepted]; exact Nat.succ_pos _
  fetching := by rw [h.delayed, Function.update_of_ne (Nat.ne_of_lt hs.accepted), hs.fetching]
  indices := by rw [h.connection, Function.update_of_ne (Nat.ne_of_lt hs.accepted), hs.indices]
  ready := hs.ready.spared h.spares (by simp [Nat.ne_of_lt hs.accepted])

/-- The only slot is free, and the second user can log in. -/
structure Vacant (generation : Nat) (s : Server) : Prop where
  held : Held s
  entry : s.clientIndices (.replicate 32 2) = none
  clients : s.clientsSlotVector.clients = [⟨none, generation⟩]
  emptySlots : s.clientsSlotVector.emptySlots = [0]

/-- The free slot is granted in its next generation. -/
theorem emplaceBack_vacant {v : SlotVector Client} {generation : Nat}
    (hc : v.clients = [⟨none, generation⟩]) (he : v.emptySlots = [0]) (c : ConnId) : ∃ w,
      v.emplaceBack (.new c) = some (⟨0, (generation + 1) % 2 ^ 64, 0⟩, w) ∧
      w.clients = [⟨some (.new c), (generation + 1) % 2 ^ 64⟩] ∧ w.emptySlots = [] := by
  unfold SlotVector.emplaceBack
  split
  · rename_i index rest hm
    obtain ⟨rfl, rfl⟩ := List.cons.inj (hm.symm.trans he)
    simp [SlotVector.setSlot, hc, Slot.setValue]
  · rename_i hm
    simp [hm] at he

/-- The second user logs in. -/
theorem Vacant.logs_in {s : Server} {generation : Nat} (h : Vacant generation s) : ∃ as t v,
    Lts.run step s as = some t ∧
      LoggedIn heldTables s (.replicate 32 2) ⟨0, (generation + 1) % 2 ^ 64, 2⟩ v t ∧
      v.clients = [⟨some (.new s.accepted), (generation + 1) % 2 ^ 64⟩] ∧ v.emptySlots = [] := by
  obtain ⟨v, hv, hclients, hempty⟩ := emplaceBack_vacant h.clients h.emptySlots s.accepted
  have hid : heldTables.idOf (.replicate 32 2) = some 2 := by decide
  obtain ⟨as, t, hrun, ht⟩ := h.held.quiet.logs_in hid h.entry hv
  exact ⟨as, t, v, hrun, ht, hclients, hempty⟩

/-- The second user logs in and leaves. -/
theorem Vacant.next {s : Server} {generation : Nat} (h : Vacant generation s) :
    ∃ as t, Lts.run step s as = some t ∧ Vacant ((generation + 1) % 2 ^ 64) t := by
  obtain ⟨as, t, v, hrun, ht, hclients, hempty⟩ := h.logs_in
  obtain ⟨hstep, hquiet, hentries, hclients', hempty'⟩ := ht.leaves hclients hempty
  refine ⟨as ++ [.readFails s.accepted], _,
    Lts.run_append.mpr ⟨t, hrun, Lts.run_single.mpr hstep⟩, ?_, ?_, hclients', hempty'⟩
  · exact { ht.held h.held with quiet := hquiet }
  · simp [hentries]

theorem emplaceBack_first (c : ConnId) : ∃ v,
    (SlotVector.empty : SlotVector Client).emplaceBack (.new c) = some (⟨0, 1, 0⟩, v) ∧
      v.clients = [⟨some (.new c), 1⟩] ∧ v.emptySlots = [] :=
  ⟨_, rfl, rfl, rfl⟩

/-- The first user logs in and leaves while its message is fetched. -/
theorem init_vacant : ∃ as s,
    Lts.run step (init .little (fun _ => true) heldTables) as = some s ∧ Vacant 1 s := by
  obtain ⟨db, hloop, hquiet⟩ := init_quiet .little heldTables
  obtain ⟨v, hv, hclients, hempty⟩ := emplaceBack_first 0
  have hid : heldTables.idOf (.replicate 32 1) = some 1 := by decide
  obtain ⟨as, t, hrun, ht⟩ := hquiet.logs_in hid rfl hv
  obtain ⟨hstep, hquiet', hentries, hclients', hempty'⟩ := ht.leaves hclients hempty
  refine ⟨[.loop] ++ as ++ [.readFails 0], _, Lts.run_append.mpr ⟨t, Lts.run_append.mpr
    ⟨_, Lts.run_single.mpr hloop, hrun⟩, Lts.run_single.mpr hstep⟩, ⟨hquiet', ?_, ?_, ?_, ?_⟩, ?_,
    hclients', hempty'⟩
  · exact Nat.lt_of_lt_of_eq Nat.one_pos ht.accepted.symm
  · exact (congrFun ht.delayed 0).trans (Function.update_self ..)
  · exact congrArg Connection.indices ((congrFun ht.connection 0).trans (Function.update_self ..))
  · exact ht.ready
  · rw [hentries, Function.update_of_ne (by decide)]
    rfl

/-- The message goes to the login that has the slot in its first generation now. -/
theorem Held.hands {s : Server} (h : Held s) {n : ConnId}
    (hc : s.clientsSlotVector.clients = [⟨some (.new n), 1⟩]) : ∃ row t,
      s.step (.resume (.delayed 0)) = some t ∧
      .pushed row n ∈ handovers 0 s (.resume (.delayed 0)) := by
  obtain ⟨d, hd, -⟩ := h.ready.returns (by simp) h.quiet.resting
  have hslot : s.clientsSlotVector.slotAt 0 = some ⟨some (.new n), 1⟩ := by
    simp [SlotVector.slotAt, hc]
  have hgoes : s.goesOn 0 = some ([heldRow], []) := by
    simp [goesOn, h.fetching, hd, returned, Results.messageRows, heldTables]
  have hown : s.ownClient 0 = some n := by
    simp [ownClient, h.indices, clientAt, hslot, Client.new]
  have hsend : s.sendResult 0 heldRow = some .suspended := by
    simp [sendResult, h.indices, addMessageToQueue, hslot, Client.new]
  obtain ⟨t, ht⟩ : ∃ t, s.step (.resume (.delayed 0)) = some t := by
    simp [step, resume, h.fetching, hd, returned, Results.messageRows, heldTables, sendDelayed,
      h.indices, addMessageToQueue, hslot, Client.new]
  refine ⟨heldRow, t, ht, ?_⟩
  simp [handovers, hgoes, handsOver, hown, hsend]

/-- While the message is fetched, other logins come and go until one of them is granted the same
slot in the same generation. -/
theorem not_stays_with_login : ¬ ∀ as s c,
    Lts.run step (init .little (fun _ => true) heldTables) as = some s →
      StaysWithLogin heldTables c s
        (Lts.log step (handovers c) (init .little (fun _ => true) heldTables) as) := by
  intro h
  obtain ⟨as, s, hrun, hs⟩ := init_vacant
  obtain ⟨bs, t, hrun', ht⟩ := Lts.exists_run (P := fun k s => Vacant ((k + 1) % 2 ^ 64) s)
    (fun k s hk => by
      obtain ⟨as, t, hrun, ht⟩ := hk.next
      rw [Nat.mod_add_mod] at ht
      exact ⟨as, t, hrun, ht⟩) hs (2 ^ 64 - 1)
  obtain ⟨cs, u, v, hrun'', hu, hclients, -⟩ := ht.logs_in
  have hround : ((2 ^ 64 - 1 + 1) % 2 ^ 64 + 1) % 2 ^ 64 = 1 := by decide
  rw [hround] at hclients
  obtain ⟨row, w, hstep, hpushed⟩ := (hu.held ht.held).hands (n := t.accepted)
    (by rw [hu.clientsSlotVector, hclients])
  have hlast : Lts.run step (init .little (fun _ => true) heldTables) (as ++ bs ++ cs) = some u :=
    Lts.run_append.mpr ⟨t, Lts.run_append.mpr ⟨s, hrun, hrun'⟩, hrun''⟩
  have hlogin := (h _ w 0 (Lts.run_append.mpr ⟨u, hlast, Lts.run_single.mpr hstep⟩)).login row
    t.accepted
  rw [Lts.log_append hlast] at hlogin
  have hzero := hlogin (List.mem_append_right _ (List.mem_append_left _ hpushed))
  exact absurd hzero (Nat.ne_of_gt ht.held.accepted)

end MydakServer.Server
