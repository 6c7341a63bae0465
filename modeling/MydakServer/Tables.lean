import Mathlib.Data.List.Nodup
import MydakServer.Proto

/-! The two tables of the database and what MariaDB does with the statements the server
sends. The keys the schema declares are fields of the tables. -/
namespace MydakServer

/-- `std::uint64_t(-1)`, which is also `client_index::invalid_index`. -/
def maxUInt64 : Nat := 2 ^ 64 - 1

structure User where
  id : Nat
  publicKey : PublicKey
  deriving DecidableEq

structure Row where
  id : Nat
  userId : Nat
  data : Message
  deriving DecidableEq

/-- `mydak_users` and `mydak_messages`, rows in the order of their ids. An `AUTO_INCREMENT`
counter that stands at `n` passes over `skippedUserIds n` or `skippedMessageIds n` ids before it
gives out the next: an `INSERT` that adds no row can use ids up. -/
structure Tables where
  users : List User := []
  nextUserId : Nat := 1
  skippedUserIds : Nat → Nat := fun _ => 0
  messages : List Row := []
  nextMessageId : Nat := 1
  skippedMessageIds : Nat → Nat := fun _ => 0
  uniqueKey : (users.map User.publicKey).Nodup := by exact List.nodup_nil
  uniqueId : (users.map User.id).Nodup := by exact List.nodup_nil
  userIds : ∀ u ∈ users, 0 < u.id ∧ u.id < nextUserId := by simp
  userIdRange : 0 < nextUserId ∧ nextUserId ≤ maxUInt64 := by decide
  rowIds : ∀ r ∈ messages, r.id < nextMessageId := by simp
  ascending : messages.Pairwise (·.id < ·.id) := by exact List.Pairwise.nil
  foreignKey : ∀ r ∈ messages, r.userId ∈ users.map User.id := by simp

inductive Statement where
  | insertUser (key : PublicKey)
  | selectUser (key : PublicKey)
  | insertMessage (userId : Nat) (data : Message)
  | selectMessages (userId : Nat)
  | deleteMessages (ids : List Nat)
  deriving DecidableEq

/-- `mysql::results`, for the statements above. -/
inductive Results where
  | changed (affectedRows lastInsertId : Nat)
  | ids (rows : List Nat)
  | messages (rows : List Row)

namespace Results

def affectedRows : Results → Nat
  | .changed n _ => n
  | _ => 0

def lastInsertId : Results → Nat
  | .changed _ id => id
  | _ => 0

/-- `rows().at(0).at(0).as_uint64()`, which throws where there is no such row. -/
def firstId : Results → Option Nat
  | .ids (id :: _) => some id
  | _ => none

def messageRows : Results → List Row
  | .messages rows => rows
  | _ => []

end Results

namespace Tables

/-- The tables as `database::start` creates them. -/
def empty : Tables := {}

/-- The id of the next new row of `mydak_users`. -/
def freshUserId (t : Tables) : Nat := t.nextUserId + t.skippedUserIds t.nextUserId

/-- The id of the next new row of `mydak_messages`. -/
def freshMessageId (t : Tables) : Nat := t.nextMessageId + t.skippedMessageIds t.nextMessageId

theorem le_freshUserId (t : Tables) : t.nextUserId ≤ t.freshUserId := Nat.le_add_right _ _

theorem le_freshMessageId (t : Tables) : t.nextMessageId ≤ t.freshMessageId :=
  Nat.le_add_right _ _

def addUser (t : Tables) (key : PublicKey) (hk : key ∉ t.users.map User.publicKey)
    (hn : t.freshUserId < maxUInt64) : Tables :=
  { t with
    users := t.users ++ [⟨t.freshUserId, key⟩]
    nextUserId := t.freshUserId + 1
    uniqueKey := by
      rw [List.map_append]
      exact t.uniqueKey.append (List.nodup_singleton _) (by simpa using hk)
    uniqueId := by
      rw [List.map_append]
      refine t.uniqueId.append (List.nodup_singleton _) ?_
      simp only [List.map_cons, List.map_nil, List.disjoint_singleton, List.mem_map, not_exists,
        not_and]
      intro u hu
      exact Nat.ne_of_lt (Nat.lt_of_lt_of_le (t.userIds u hu).2 t.le_freshUserId)
    userIds := by
      intro u hu
      have hle := t.le_freshUserId
      rcases List.mem_append.mp hu with hu | hu
      · have := t.userIds u hu
        omega
      · have := t.userIdRange.1
        rw [List.mem_singleton.mp hu]
        exact ⟨Nat.lt_of_lt_of_le this hle, Nat.lt_succ_self _⟩
    userIdRange := by omega
    foreignKey := by
      intro r hr
      rw [List.map_append]
      exact List.mem_append_left _ (t.foreignKey r hr) }

def addRow (t : Tables) (userId : Nat) (data : Message) (hu : userId ∈ t.users.map User.id) :
    Tables :=
  { t with
    messages := t.messages ++ [⟨t.freshMessageId, userId, data⟩]
    nextMessageId := t.freshMessageId + 1
    rowIds := by
      intro r hr
      rcases List.mem_append.mp hr with hr | hr
      · have := t.rowIds r hr
        have hle := t.le_freshMessageId
        omega
      · rw [List.mem_singleton.mp hr]
        exact Nat.lt_succ_self _
    ascending := by
      rw [List.pairwise_append]
      refine ⟨t.ascending, List.pairwise_singleton _ _, ?_⟩
      intro r hr s hs
      rw [List.mem_singleton.mp hs]
      exact Nat.lt_of_lt_of_le (t.rowIds r hr) t.le_freshMessageId
    foreignKey := by
      intro r hr
      rcases List.mem_append.mp hr with hr | hr
      · exact t.foreignKey r hr
      · rw [List.mem_singleton.mp hr]
        exact hu }

def removeRows (t : Tables) (ids : List Nat) : Tables :=
  { t with
    messages := t.messages.filter (·.id ∉ ids)
    rowIds := fun r hr => t.rowIds r (List.mem_of_mem_filter hr)
    ascending := t.ascending.filter _
    foreignKey := fun r hr => t.foreignKey r (List.mem_of_mem_filter hr) }

/-- Executes a statement, or reports an error: a foreign key that does not hold, or a
table whose `AUTO_INCREMENT` is used up. -/
def exec (t : Tables) : Statement → Option (Results × Tables)
  | .insertUser key =>
    if hk : key ∈ t.users.map User.publicKey then some (.changed 0 0, t)
    else if hn : t.freshUserId < maxUInt64 then
      some (.changed 1 t.freshUserId, t.addUser key hk hn)
    else none
  | .selectUser key => some (.ids ((t.users.filter (·.publicKey = key)).map User.id), t)
  | .insertMessage userId data =>
    if hu : userId ∈ t.users.map User.id then
      if t.freshMessageId < maxUInt64 then
        some (.changed 1 t.freshMessageId, t.addRow userId data hu)
      else none
    else none
  | .selectMessages userId => some (.messages (t.messages.filter (·.userId = userId)), t)
  | .deleteMessages ids =>
    some (.changed (t.messages.countP (·.id ∈ ids)) 0, t.removeRows ids)

/-- The id of the key's row. -/
def idOf (t : Tables) (key : PublicKey) : Option Nat :=
  (t.users.find? (·.publicKey = key)).map User.id

theorem id_of_key {t : Tables} {u v : User} (hu : u ∈ t.users) (hv : v ∈ t.users)
    (h : u.publicKey = v.publicKey) : u = v :=
  List.inj_on_of_nodup_map t.uniqueKey hu hv h

theorem idOf_eq_some {t : Tables} {key : PublicKey} {id : Nat} :
    t.idOf key = some id ↔ ⟨id, key⟩ ∈ t.users := by
  unfold idOf
  constructor
  · intro h
    obtain ⟨u, hu, rfl⟩ := Option.map_eq_some_iff.mp h
    have hk := List.find?_some hu
    simp only [decide_eq_true_eq] at hk
    exact hk ▸ List.mem_of_find?_eq_some hu
  · intro h
    cases hf : t.users.find? (·.publicKey = key) with
    | none =>
      have := List.find?_eq_none.mp hf _ h
      simp at this
    | some u =>
      have hk := List.find?_some hf
      simp only [decide_eq_true_eq] at hk
      have hu := id_of_key (List.mem_of_find?_eq_some hf) h hk
      simp [hu]

theorem id_bounds {t : Tables} {u : User} (h : u ∈ t.users) : 0 < u.id ∧ u.id < maxUInt64 := by
  have h1 := t.userIds u h
  have h2 := t.userIdRange.2
  omega

theorem key_of_id {t : Tables} {u v : User} (hu : u ∈ t.users) (hv : v ∈ t.users)
    (h : u.id = v.id) : u = v :=
  List.inj_on_of_nodup_map t.uniqueId hu hv h

theorem row_of_id {t : Tables} {row row' : Row} (h : row ∈ t.messages) (h' : row' ∈ t.messages)
    (hid : row.id = row'.id) : row = row' := by
  have hn : (t.messages.map Row.id).Nodup := List.pairwise_map.mpr (t.ascending.imp Nat.ne_of_lt)
  exact List.inj_on_of_nodup_map hn h h' hid

/-- Users are only ever added. -/
theorem exec_users {t t' : Tables} {stmt : Statement} {r : Results}
    (h : t.exec stmt = some (r, t')) : t.users ⊆ t'.users := by
  cases stmt with
  | insertUser key =>
    simp only [exec] at h
    split at h
    · cases h
      exact List.Subset.refl _
    · split at h
      · cases h
        exact List.subset_append_left _ _
      · cases h
  | insertMessage userId data =>
    simp only [exec] at h
    split at h
    · split at h
      · cases h
        exact List.Subset.refl _
      · cases h
    · cases h
  | _ =>
    cases h
    exact List.Subset.refl _

/-- What the lookup of a key returns. -/
theorem firstId_selectUser {t t' : Tables} {key : PublicKey} {r : Results}
    (h : t.exec (.selectUser key) = some (r, t')) : r.firstId = t.idOf key := by
  cases h
  unfold idOf
  rw [← List.head?_filter]
  cases t.users.filter (·.publicKey = key) <;> simp [Results.firstId]

/-- What every later state of the tables keeps: the users, and that a row with an id given
out before is a row from before. -/
structure Evolves (t t' : Tables) : Prop where
  users : t.users ⊆ t'.users
  next : t.nextMessageId ≤ t'.nextMessageId
  rows : ∀ row ∈ t'.messages, row.id < t.nextMessageId → row ∈ t.messages

theorem Evolves.refl (t : Tables) : t.Evolves t :=
  ⟨List.Subset.refl _, Nat.le_refl _, fun _ h _ => h⟩

theorem Evolves.trans {t u v : Tables} (h : t.Evolves u) (h' : u.Evolves v) : t.Evolves v where
  users := List.Subset.trans h.users h'.users
  next := Nat.le_trans h.next h'.next
  rows := fun row hr hlt => h.rows row (h'.rows row hr (Nat.lt_of_lt_of_le hlt h.next)) hlt

/-- A row that a statement adds is the one it inserts, under the fresh id. -/
theorem exec_new {t t' : Tables} {stmt : Statement} {r : Results}
    (h : t.exec stmt = some (r, t')) :
    t.nextMessageId ≤ t'.nextMessageId ∧ ∀ row ∈ t'.messages, row ∈ t.messages ∨
      (row.id = t.freshMessageId ∧ stmt = .insertMessage row.userId row.data) := by
  cases stmt with
  | insertUser key =>
    simp only [exec] at h
    split at h
    · cases h
      exact ⟨Nat.le_refl _, fun row hr => .inl hr⟩
    · split at h
      · cases h
        exact ⟨Nat.le_refl _, fun row hr => .inl hr⟩
      · cases h
  | insertMessage userId data =>
    simp only [exec] at h
    split at h
    · split at h
      · cases h
        refine ⟨Nat.le_succ_of_le t.le_freshMessageId, ?_⟩
        intro row hr
        rcases List.mem_append.mp hr with hr | hr
        · exact .inl hr
        · rw [List.mem_singleton.mp hr]
          exact .inr ⟨rfl, rfl⟩
      · cases h
    · cases h
  | deleteMessages ids =>
    cases h
    exact ⟨Nat.le_refl _, fun row hr => .inl (List.mem_of_mem_filter hr)⟩
  | _ =>
    cases h
    exact ⟨Nat.le_refl _, fun row hr => .inl hr⟩

theorem exec_evolves {t t' : Tables} {stmt : Statement} {r : Results}
    (h : t.exec stmt = some (r, t')) : t.Evolves t' where
  users := exec_users h
  next := (exec_new h).1
  rows := by
    intro row hr hlt
    rcases (exec_new h).2 row hr with hr | ⟨hid, -⟩
    · exact hr
    · have := t.le_freshMessageId
      omega

/-- Only a `DELETE` that names its id removes a row. -/
theorem exec_keeps {t t' : Tables} {stmt : Statement} {r : Results}
    (h : t.exec stmt = some (r, t')) {row : Row} (hr : row ∈ t.messages) :
    row ∈ t'.messages ∨ ∃ ids, stmt = .deleteMessages ids ∧ row.id ∈ ids := by
  cases stmt with
  | insertUser key =>
    simp only [exec] at h
    split at h
    · cases h
      exact .inl hr
    · split at h
      · cases h
        exact .inl hr
      · cases h
  | insertMessage userId data =>
    simp only [exec] at h
    split at h
    · split at h
      · cases h
        exact .inl (List.mem_append_left _ hr)
      · cases h
    · cases h
  | deleteMessages ids =>
    cases h
    by_cases hid : row.id ∈ ids
    · exact .inr ⟨ids, rfl, hid⟩
    · exact .inl (List.mem_filter.mpr ⟨hr, by simpa using hid⟩)
  | _ =>
    cases h
    exact .inl hr

theorem exec_insertMessage {t t' : Tables} {userId : Nat} {data : Message} {r : Results}
    (h : t.exec (.insertMessage userId data) = some (r, t')) :
    userId ∈ t.users.map User.id ∧ ⟨t.freshMessageId, userId, data⟩ ∈ t'.messages := by
  simp only [exec] at h
  split at h
  · rename_i hu
    split at h
    · cases h
      exact ⟨hu, by simp [addRow]⟩
    · cases h
  · cases h

/-- A row of an earlier state of the tables in which `I` held. -/
def Fetched (I : Tables → Prop) (t : Tables) (row : Row) : Prop :=
  ∃ t₀, I t₀ ∧ row ∈ t₀.messages ∧ t₀.Evolves t

theorem Fetched.evolves {I : Tables → Prop} {t t' : Tables} {row : Row} (h : Fetched I t row)
    (he : t.Evolves t') : Fetched I t' row := by
  obtain ⟨t₀, h0, hr, h⟩ := h
  exact ⟨t₀, h0, hr, h.trans he⟩

/-- Its id is never given to another row. -/
theorem Fetched.eq {I : Tables → Prop} {t : Tables} {row row' : Row} (h : Fetched I t row)
    (hr : row' ∈ t.messages) (hid : row'.id = row.id) : row' = row := by
  obtain ⟨t₀, -, hm, he⟩ := h
  have hlt : row'.id < t₀.nextMessageId := by
    rw [hid]
    exact t₀.rowIds row hm
  exact row_of_id (he.rows row' hr hlt) hm hid

theorem Fetched.user {I : Tables → Prop} {t : Tables} {row : Row} (h : Fetched I t row) :
    ∃ u ∈ t.users, u.id = row.userId := by
  obtain ⟨t₀, -, hm, he⟩ := h
  obtain ⟨u, hu, hid⟩ := List.mem_map.mp (t₀.foreignKey row hm)
  exact ⟨u, he.users hu, hid⟩

/-- What the results of a statement say in every later state of the tables. -/
def Reports (I : Tables → Prop) (t : Tables) : Statement → Results → Prop
  | .insertUser key, r => 0 < r.affectedRows → ⟨r.lastInsertId, key⟩ ∈ t.users
  | .selectUser key, r => ∀ id, r.firstId = some id → ⟨id, key⟩ ∈ t.users
  | .selectMessages userId, r => ∀ row ∈ r.messageRows, row.userId = userId ∧ Fetched I t row
  | _, _ => True

theorem Reports.evolves {I : Tables → Prop} {t t' : Tables} {stmt : Statement} {r : Results}
    (h : Reports I t stmt r) (he : t.Evolves t') : Reports I t' stmt r := by
  cases stmt with
  | insertUser key => exact fun hr => he.users (h hr)
  | selectUser key => exact fun id hi => he.users (h id hi)
  | selectMessages userId => exact fun row hr => ⟨(h row hr).1, (h row hr).2.evolves he⟩
  | _ => trivial

theorem exec_reports {I : Tables → Prop} {t t' : Tables} {stmt : Statement} {r : Results}
    (hi : I t) (h : t.exec stmt = some (r, t')) : Reports I t' stmt r := by
  have he := exec_evolves h
  cases stmt with
  | insertUser key =>
    simp only [exec] at h
    split at h
    · cases h
      intro hr
      exact absurd hr (Nat.lt_irrefl _)
    · split at h
      · cases h
        intro _
        exact List.mem_append_right _ (List.mem_singleton.mpr rfl)
      · cases h
  | selectUser key =>
    cases h
    intro id hid
    cases hf : (t.users.filter (·.publicKey = key)).map User.id with
    | nil => simp [hf, Results.firstId] at hid
    | cons x xs =>
      simp only [hf, Results.firstId, Option.some.injEq] at hid
      have hm : id ∈ (t.users.filter (·.publicKey = key)).map User.id := by simp [hf, hid]
      obtain ⟨u, hu, rfl⟩ := List.mem_map.mp hm
      simp only [List.mem_filter, decide_eq_true_eq] at hu
      obtain ⟨hu, rfl⟩ := hu
      exact hu
  | selectMessages userId =>
    cases h
    intro row hr
    simp only [Results.messageRows, List.mem_filter, decide_eq_true_eq] at hr
    exact ⟨hr.2, t, hi, hr.1, he⟩
  | _ => trivial

end Tables
end MydakServer
