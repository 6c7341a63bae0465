import MydakServer.Executed

/-! The ids of users: what `add_user` returns for a key, what `get_db_index` finds for it, and the
row of the key. -/
namespace MydakServer
open RequestQueue
variable {ι : Type*}

namespace Tables

theorem Evolves.idOf {t t' : Tables} (h : t.Evolves t') {key : PublicKey} {id : Nat}
    (hid : t.idOf key = some id) : t'.idOf key = some id :=
  idOf_eq_some.mpr (h.users (idOf_eq_some.mp hid))

end Tables

def Statement.isInsertUser : Statement → Bool
  | .insertUser _ => true
  | _ => false

namespace Database

/-- The connection stands, and its tables and results are those of the statements it has executed
since `t`. -/
structure Sound (t : Tables) (d : Database ι) : Prop where
  answered : Answered (fun _ => True) d
  recorded : Recorded t d
  connected : d.connected = true

variable {t : Tables} {d d' : Database ι} {a : Action ι}

/-- The tables only evolve. -/
theorem Sound.evolves (h : Sound t d) (h' : Sound t d') (hp : d.executed <+: d'.executed) :
    d.tables.Evolves d'.tables := by
  obtain ⟨log, hlog⟩ := hp
  have hreplays := h'.recorded.replays
  rw [← hlog, Tables.replays_append] at hreplays
  obtain ⟨u, hu, hv⟩ := hreplays
  rw [h.recorded.replays.unique hu]
  exact hv.evolves

/-- On a connection that stands, a lookup finds the id of a key that has a row. -/
theorem Sound.getDbIndex (h : Sound t d) {key : PublicKey} {id : Nat}
    (hid : d.tables.idOf key = some id) : d.getDbIndex key true = id := by
  have hexec : d.tables.exec (.selectUser key) =
      some (.ids ((d.tables.users.filter (·.publicKey = key)).map User.id), d.tables) := rfl
  have hfirst := Tables.firstId_selectUser hexec
  rw [Database.getDbIndex, h.connected, hexec]
  simp [hfirst, hid]

variable [DecidableEq ι]

/-- The call of `add_user` that returns in the action: its key, and the id. -/
def userIds (d : Database ι) : Action ι → List (PublicKey × Nat)
  | .addUser i key =>
    match d.addUser i key with
    | some (_, some (.userId id)) => [(key, id)]
    | _ => []
  | .resume i =>
    match d.operation i, d.resume i with
    | .addUserInsert key, some (_, some (.userId id)) => [(key, id)]
    | .addUserSelect key, some (_, some (.userId id)) => [(key, id)]
    | _, _ => []
  | _ => []

theorem step_cases (hd : d.step a = some d') :
    d.act a = some d' ∨ a = .lookupReturns ∧ d' = { d with lookup := none } := by
  cases hl : d.lookup with
  | none =>
    simp only [step, hl] at hd
    exact .inl hd
  | some j =>
    cases a with
    | lookupReturns =>
      simp only [step, hl, Option.some.injEq] at hd
      exact .inr ⟨rfl, hd.symm⟩
    | _ => simp [step, hl] at hd

theorem Sound.step (h : Sound t d) (hd : d.step a = some d') :
    Sound t d' ∧ d.executed <+: d'.executed := by
  obtain hact | ⟨-, rfl⟩ := step_cases hd
  · obtain ⟨hrec, hgoes⟩ := h.recorded.act h.answered hact
    exact ⟨⟨h.answered.act hact, hrec, hgoes.connected.trans h.connected⟩, hgoes.executed⟩
  · obtain ⟨hcoherent, htables, hsends, hreports⟩ := h.answered
    obtain ⟨hreplays, hconnects, hdeletes, hselects, hfinds⟩ := h.recorded
    exact ⟨⟨⟨hcoherent, htables, hsends, hreports⟩,
      ⟨hreplays, hconnects, hdeletes, hselects, hfinds⟩, h.connected⟩, List.prefix_refl _⟩

theorem Sound.run {as : List (Action ι)} (h : Sound t d)
    (hr : Lts.run Database.step d as = some d') : Sound t d' ∧ d.executed <+: d'.executed := by
  refine Lts.invariant_all (I := fun e => Sound t e ∧ d.executed <+: e.executed) ?_
    ⟨h, List.prefix_refl _⟩ hr
  rintro e a e' ⟨he, hp⟩ hstep
  obtain ⟨he', hp'⟩ := he.step hstep
  exact ⟨he', hp.trans hp'⟩

/-- The id that a call returns is that of the key's row. -/
theorem Sound.userIds (h : Sound t d) {key : PublicKey} {id : Nat}
    (hm : (key, id) ∈ d.userIds a) : d.tables.idOf key = some id := by
  cases a with
  | addUser i key' =>
    simp only [Database.userIds] at hm
    split at hm
    · rename_i e id' he
      obtain ⟨hc, -⟩ | ⟨q, -, -, -, hv⟩ := request_cases he
      · rw [h.connected] at hc
        cases hc
      · cases hv
    · cases hm
  | resume i =>
    have hasked : ∀ {e : Database ι} {v : Option Value}, d.resume i = some (e, v) →
        ∃ stmt, d.asked i = some stmt ∧ (d.operation i).Sends stmt := by
      intro e v he
      obtain ⟨-, stmt, hi, -⟩ := h.answered.resume he
      exact ⟨stmt, hi, h.answered.sends i stmt hi⟩
    simp only [Database.userIds] at hm
    split at hm
    · rename_i key' e id' hop he
      obtain ⟨rfl, rfl⟩ : key = key' ∧ id = id' := by simpa using hm
      obtain ⟨stmt, hi, hs⟩ := hasked he
      rw [hop] at hs
      obtain rfl : stmt = .insertUser key := hs
      exact h.recorded.addUser_returns h.answered h.connected (.inl hi) he
    · rename_i key' e id' hop he
      obtain ⟨rfl, rfl⟩ : key = key' ∧ id = id' := by simpa using hm
      obtain ⟨stmt, hi, hs⟩ := hasked he
      rw [hop] at hs
      obtain rfl : stmt = .selectUser key := hs
      exact h.recorded.addUser_returns h.answered h.connected (.inr hi) he
    · cases hm
  | _ => cases hm

/-- The statements sent that add a user. -/
def insertions (d : Database ι) : List (ι × Statement) := d.sent.filter (·.2.isInsertUser)

def Action.insertions : Action ι → List (ι × Statement)
  | .addUser i key => [(i, .insertUser key)]
  | _ => []

end Database
end MydakServer
