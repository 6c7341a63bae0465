import MydakServer.Moves

/-! What is stored for a recipient without a live slot: the user ids of the `INSERT`s. -/
namespace MydakServer
open Database

/-- The messages whose `INSERT`s have been queued, with the user ids they name. -/
def Database.inserts {ι : Type*} (d : Database ι) : List (Nat × Message) :=
  d.issued.filterMap fun
    | .insertMessage userId data => some (userId, data)
    | _ => none

theorem getDbIndex_eq {ι : Type*} {d : Database ι} (hc : d.connected) (key : PublicKey) :
    d.getDbIndex key true = (d.tables.idOf key).getD 0 := by
  have hr : (Results.ids ((d.tables.users.filter (·.publicKey = key)).map User.id)).firstId =
      d.tables.idOf key := Tables.firstId_selectUser rfl
  simp only [getDbIndex, hc, Bool.and_self, if_true]
  exact congrArg (·.getD 0) hr

namespace Server

/-- The recipient and the message of a frame for which `get_client_index` reports no live
slot. -/
def offlineRelay (s : Server) : Action → Option (PublicKey × Message)
  | .message c bytes lookup =>
    match s.start c with
    | .readMessage size recipient =>
      match s.getClientIndex recipient lookup with
      | some r =>
        if r.index = invalidIndex then
          some (recipient, (s.frame c size recipient bytes).message)
        else none
      | none => none
    | _ => none
  | _ => none

/-- The `SELECT` of a lookup succeeds, on a connection that stands. -/
def selectSucceeds (s : Server) : Action → Bool
  | .message _ _ lookup => s.db.connected && lookup
  | _ => true

/-- The recipient has a row and no entry in `client_indices`. -/
def rowUnlisted (s : Server) (a : Action) : Bool :=
  match s.offlineRelay a with
  | some (key, _) => (s.db.tables.idOf key).isSome && (s.clientIndices key).isNone
  | none => true

/-- A message for a recipient without a live slot is queued for one `INSERT` under the id of
its row, or for none if there is no row. -/
def StoresRight (s : Server) (a : Action) : Prop :=
  ∀ key message s', s.offlineRelay a = some (key, message) → s.step a = some s' →
    s'.db.inserts = s.db.inserts ++ (s.db.tables.idOf key).toList.map (·, message)

/-- Every `INSERT` of a message names a user that exists. -/
def NoForeign (s : Server) : Prop := ∀ p ∈ s.db.inserts, ∃ u ∈ s.db.tables.users, u.id = p.1

theorem offlineRelay_eq_some {s : Server} {a : Action} {key : PublicKey} {message : Message}
    (h : s.offlineRelay a = some (key, message)) : ∃ c bytes lookup size r,
    a = .message c bytes lookup ∧ s.start c = .readMessage size key ∧
      s.getClientIndex key lookup = some r ∧ r.index = invalidIndex ∧
      message = (s.frame c size key bytes).message := by
  unfold offlineRelay at h
  split at h
  · rename_i c bytes lookup
    split at h
    · rename_i size recipient hc
      split at h
      · rename_i r hr
        split at h
        · rename_i hi
          cases h
          exact ⟨c, bytes, lookup, size, r, rfl, hc, hr, hi, rfl⟩
        · cases h
      · cases h
    · cases h
  · cases h

/-- A frame for an offline recipient is queued for an `INSERT` under the index that
`get_client_index` returned with it. -/
theorem offlineRelay_inserts {s s' : Server} {c : ConnId} {bytes : List UInt8} {lookup : Bool}
    {size : Nat} {key : PublicKey} {r : ClientIndex} (hs : Sound s)
    (h : Linked (fun _ => True) none s) (hconn : s.db.connected)
    (hc : s.start c = .readMessage size key) (hr : s.getClientIndex key lookup = some r)
    (hi : r.index = invalidIndex) (hstep : s.step (.message c bytes lookup) = some s') :
    s'.db.inserts = s.db.inserts ++ [(r.dbIndex, (s.frame c size key bytes).message)] := by
  obtain ⟨size', key', hc', ⟨r', hr', -, -, hstored⟩ | ⟨e, d, generation, hk, hslot, -⟩⟩ :=
    message_cases hs h hstep
  · obtain ⟨rfl, rfl⟩ := StartState.readMessage.inj (hc.symm.trans hc')
    obtain rfl : r = r' := Option.some.inj (hr.symm.trans hr')
    simp [inserts, (hstored hconn).2]
  · obtain ⟨rfl, rfl⟩ := StartState.readMessage.inj (hc.symm.trans hc')
    simp only [getClientIndex, hk, hslot, Option.map_some, Option.some.injEq,
      Option.isNone_some, Bool.false_eq_true, if_false] at hr
    subst hr
    have hnone := SlotVector.slotAt_invalid s.clientsSlotVector
    rw [← hi] at hnone
    simp [hslot] at hnone

theorem storesRight_iff {s s' : Server} {a : Action} (hs : Sound s)
    (h : Linked (fun _ => True) none s) (hsel : s.selectSucceeds a)
    (hstep : s.step a = some s') : s.StoresRight a ↔ s.rowUnlisted a := by
  cases hoff : s.offlineRelay a with
  | none => simp [StoresRight, rowUnlisted, hoff]
  | some p =>
    obtain ⟨key, message⟩ := p
    obtain ⟨c, bytes, lookup, size, r, rfl, hc, hr, hi, rfl⟩ := offlineRelay_eq_some hoff
    simp only [selectSucceeds, Bool.and_eq_true] at hsel
    obtain ⟨hconn, rfl⟩ := hsel
    have hins := offlineRelay_inserts hs h hconn hc hr hi hstep
    have hright : s.StoresRight (.message c bytes true) ↔
        (s.db.tables.idOf key).toList = [r.dbIndex] := by
      constructor
      · intro hright
        have := (hright _ _ s' hoff hstep).symm.trans hins
        have := congrArg (List.map Prod.fst) (List.append_cancel_left this)
        simpa [List.map_map] using this
      · intro hid key' message' t hoff' ht
        rw [hoff] at hoff'
        cases hoff'
        cases hstep.symm.trans ht
        rw [hins, hid]
        rfl
    have hunlisted : s.rowUnlisted (.message c bytes true) ↔
        (s.db.tables.idOf key).isSome ∧ s.clientIndices key = none := by
      simp [rowUnlisted, hoff]
    rw [hright, hunlisted]
    obtain ⟨hk, rfl⟩ | ⟨e, slot, hk, -, ⟨-, rfl⟩ | ⟨client, -, -, hn⟩⟩ := getClientIndex_cases hr
    · simp only [getDbIndex_eq hconn, hk, and_true]
      cases s.db.tables.idOf key <;> simp
    · simp only [hk, reduceCtorEq, and_false, iff_false, ClientIndex.empty]
      cases hid : s.db.tables.idOf key with
      | none => simp
      | some id =>
        have hlt : 0 < id ∧ id < maxUInt64 := Tables.id_bounds (Tables.idOf_eq_some.mp hid)
        simp only [Option.toList_some, List.cons.injEq, and_true, invalidIndex]
        omega
    · exact absurd hi hn

theorem noForeign_step {s s' : Server} {a : Action} (hs : Sound s)
    (h : Linked (fun _ => True) none s) (hsel : s.selectSucceeds a) (hrow : s.rowUnlisted a)
    (hn : NoForeign s) (hstep : s.step a = some s') : NoForeign s' := by
  intro p hp
  obtain ⟨stmt, hstmt, hpe⟩ := List.mem_filterMap.mp hp
  obtain ⟨-, ⟨-, -, hi, stmt', r, -, hx⟩ | ⟨ht, -, stmts, hsend, -, hi⟩⟩ :=
    h.step hs (fun _ _ _ _ _ => trivial) hstep
  · rw [hi] at hstmt
    obtain ⟨u, hu, hid⟩ := hn p (List.mem_filterMap.mpr ⟨stmt, hstmt, hpe⟩)
    exact ⟨u, Tables.exec_users hx hu, hid⟩
  · rw [ht]
    rw [hi, List.mem_append] at hstmt
    obtain hstmt | hstmt := hstmt
    · exact hn p (List.mem_filterMap.mpr ⟨stmt, hstmt, hpe⟩)
    · have hmay := hsend stmt hstmt
      cases stmt with
      | insertMessage userId data =>
        simp only [Option.some.injEq] at hpe
        subst hpe
        obtain ⟨c, bytes, lookup, size, key, r, rfl, hc, -, hr, hi, rfl⟩ := hmay
        simp only [selectSucceeds, Bool.and_eq_true] at hsel
        obtain ⟨hconn, rfl⟩ := hsel
        simp only [rowUnlisted, offlineRelay, hc, hr, hi, if_true, Bool.and_eq_true] at hrow
        obtain ⟨hsome, hnone⟩ := hrow
        obtain ⟨id, hid⟩ := Option.isSome_iff_exists.mp hsome
        obtain ⟨-, rfl⟩ | ⟨e, -, hk, -⟩ := getClientIndex_cases hr
        · exact ⟨_, Tables.idOf_eq_some.mp hid, by simp [getDbIndex_eq hconn, hid]⟩
        · simp [hk] at hnone
      | _ => cases hpe

/-- Messages for recipients without a live slot are stored right, and no `INSERT` names a user
that does not exist, exactly when each such recipient has a row and no entry. -/
theorem stored_right_iff (native : Proto.Endian) (succeeds : StartStep → Bool) (tables : Tables)
    (as : List Action) (s : Server)
    (hr : Lts.run step (init native succeeds tables) as = some s)
    (hsel : Lts.Along step (fun s a => s.selectSucceeds a) (init native succeeds tables) as) :
    (Lts.Along step StoresRight (init native succeeds tables) as ∧
        Lts.Always step NoForeign (init native succeeds tables) as) ↔
      Lts.Along step (fun s a => s.rowUnlisted a) (init native succeeds tables) as := by
  have hinit : Sound (init native succeeds tables) ∧
      Linked (fun _ => True) none (init native succeeds tables) :=
    ⟨init_sound native succeeds tables, init_linked native succeeds trivial⟩
  have hkeep : ∀ s a t, Sound s ∧ Linked (fun _ => True) none s → s.step a = some t →
      Sound t ∧ Linked (fun _ => True) none t :=
    fun s a t h hs => ⟨h.1.step hs, (h.2.step h.1 (fun _ _ _ _ _ => trivial) hs).1⟩
  have hiff : Lts.Along step StoresRight (init native succeeds tables) as ↔
      Lts.Along step (fun s a => s.rowUnlisted a) (init native succeeds tables) as :=
    Lts.along_congr hkeep (fun s a t h hsel hs => storesRight_iff h.1 h.2 hsel hs) hinit hsel hr
  rw [hiff]
  refine ⟨And.left, fun hrow => ⟨hrow, ?_⟩⟩
  intro bs hp t ht
  have hboth := (hrow.and hsel).initial hp
  refine (Lts.invariant (I := fun s => (Sound s ∧ Linked (fun _ => True) none s) ∧ NoForeign s)
    (fun s a t h hc hs => ⟨hkeep s a t h.1 hs, noForeign_step h.1.1 h.1.2 hc.2 hc.1 h.2 hs⟩)
    ⟨hinit, ?_⟩ hboth ht).2
  intro p hp
  have hissued : (init native succeeds tables).db.inserts = [] := by
    simp only [inserts, init, start_issued, List.filterMap_nil]
  rw [hissued] at hp
  cases hp

/-- The first bytes of a frame of one byte for the key that repeats `k`. -/
def greetingsTo (k : UInt8) : Vector UInt8 37 :=
  .ofFn fun i : Fin 37 =>
    if i.val = 0 then Proto.greetingsPrefix else if i.val = 1 then 1 else if i.val < 5 then 0 else k

/-- A message for a key nobody has logged in with is queued for an `INSERT` with user id 0. -/
theorem not_stored_right :
    ¬ Lts.Along step StoresRight (init .little (fun _ => true) .empty)
      ([.loop, .accept, .keyRead 0 (.replicate 32 1), .loop, .execute, .resume (.start 0),
        .greetings 0 (greetingsTo 2)] ++ [.message 0 [7] true]) := by
  intro h
  have hright := (h.append rfl).1 _ _ _ rfl rfl
  exact List.cons_ne_nil _ _ hright

/-- Key 1 logs in and leaves; key 2 then logs in and sends it a message. -/
def leftThenWritten : List Action :=
  [.loop, .accept, .keyRead 0 (.replicate 32 1), .loop, .execute, .resume (.start 0),
    .readFails 0, .accept, .keyRead 1 (.replicate 32 2), .loop, .execute, .loop, .execute,
    .resume (.start 1), .greetings 1 (greetingsTo 1), .message 1 [7] true]

theorem stored_right_left :
    Lts.Along step StoresRight (init .little (fun _ => true) .empty) leftThenWritten ∧
      Lts.Always step NoForeign (init .little (fun _ => true) .empty) leftThenWritten := by
  have hsome : (Lts.run step (init .little (fun _ => true) .empty) leftThenWritten).isSome := by
    decide +kernel
  obtain ⟨s, hr⟩ := Option.isSome_iff_exists.mp hsome
  exact (stored_right_iff .little (fun _ => true) .empty leftThenWritten s hr
    (by decide +kernel)).mpr (by decide +kernel)

end Server
end MydakServer
