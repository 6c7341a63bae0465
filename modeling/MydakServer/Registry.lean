import MydakServer.Run
import MydakServer.Server

/-! What connections do to the registry of clients, without the messages they carry:
a login is answered with a slot or rejected, and an end clears a slot and an entry. -/
namespace MydakServer

/-- How far a connection has come: it has not called `add_client`, it is suspended there, it
has been answered, or it has ended. -/
inductive Phase where
  | fresh
  | adding
  | running
  | ended
  deriving DecidableEq

def StartState.phase : StartState → Phase
  | .unborn | .readKey => .fresh
  | .addClient => .adding
  | .ended => .ended
  | _ => .running

structure Registry where
  clientsSlotVector : SlotVector Client := .empty
  clientIndices : PublicKey → Option ClientIndex := fun _ => none
  phase : ConnId → Phase := fun _ => .fresh
  connection : ConnId → Connection := fun _ => {}
  answer : ConnId → Option ClientIndex := fun _ => none
  cleared : List Clear := []

theorem Client.new_inj {c d : ConnId} (h : Client.new c = Client.new d) : c = d := by
  simpa [Client.new] using h

namespace Registry

/-- The registry of a server that has just been started. -/
def start : Registry := {}

inductive Action where
  | login (c : ConnId) (key : PublicKey)
  | reject (c : ConnId) (key : PublicKey)
  | grant (c : ConnId) (dbIndex : Nat)
  | fail (c : ConnId) (key : PublicKey)
  | close (c : ConnId)

def setKey (r : Registry) (c : ConnId) (key : PublicKey) : Registry :=
  { r with connection :=
      Function.update r.connection c { r.connection c with publicKey := key } }

def setPhase (r : Registry) (c : ConnId) (phase : Phase) : Registry :=
  { r with phase := Function.update r.phase c phase }

/-- The connection is entered in both tables. -/
def emplaced (r : Registry) (c : ConnId) (v : SlotVector Client) (indices : ClientIndex) :
    Registry :=
  { r with
    clientsSlotVector := v
    clientIndices := Function.update r.clientIndices (r.connection c).publicKey (some indices) }

/-- The connection has its answer and goes on. -/
def answered (r : Registry) (c : ConnId) (indices : ClientIndex) : Registry :=
  { r.setPhase c .running with
    connection := Function.update r.connection c { r.connection c with indices }
    answer := Function.update r.answer c (some indices) }

theorem answered_setPhase (r : Registry) (c : ConnId) (p : Phase) (g : ClientIndex) :
    (r.setPhase c p).answered c g = r.answered c g := by
  simp [answered, setPhase]

/-- The connection ends. -/
def remove (r : Registry) (c : ConnId) : Registry :=
  let index := (r.connection c).indices.index
  { r.setPhase c .ended with
    clientsSlotVector := r.clientsSlotVector.pop index
    clientIndices := Function.update r.clientIndices (r.connection c).publicKey none
    cleared := r.cleared ++ (r.clientsSlotVector.slotAt index).toList.map (⟨c, index, ·⟩) }

def step (r : Registry) : Action → Option Registry
  | .login c key =>
    if r.phase c = .fresh ∧ r.clientIndices key = none then
      some ((r.setKey c key).setPhase c .adding)
    else none
  | .reject c key =>
    if r.phase c = .fresh ∧ r.clientIndices key ≠ none then
      some ((r.setKey c key).answered c .empty)
    else none
  | .grant c dbIndex =>
    if r.phase c = .adding then
      (r.clientsSlotVector.emplaceBack (.new c)).map fun (indices, clientsSlotVector) =>
        let indices := { indices with dbIndex }
        (r.emplaced c clientsSlotVector indices).answered c indices
    else none
  | .fail c key => if r.phase c = .fresh then some ((r.setKey c key).remove c) else none
  | .close c => if r.phase c = .running then some (r.remove c) else none

/-- The slot the connection was granted, while it is in its message loop. -/
def Granted (r : Registry) (c : ConnId) (g : ClientIndex) : Prop :=
  r.phase c = .running ∧ r.answer c = some g ∧ g ≠ .empty

/-- What holds however connections end. -/
structure WellFormed (r : Registry) : Prop where
  unanswered : ∀ c, r.phase c = .fresh ∨ r.phase c = .adding → r.answer c = none
  answered : ∀ c, r.phase c = .running → r.answer c ≠ none
  indices : ∀ c, (r.connection c).indices = (r.answer c).getD {}
  inRange : ∀ c g, r.answer c = some g → g ≠ .empty → r.clientsSlotVector.slotAt g.index ≠ none
  entries : ∀ key e, r.clientIndices key = some e → r.clientsSlotVector.slotAt e.index ≠ none
  objects : ∀ i slot client, r.clientsSlotVector.slotAt i = some slot →
    slot.object = some client → ∃ c, client = .new c

theorem start_wellFormed : WellFormed start := by
  constructor <;> simp [start, SlotVector.slotAt]

theorem WellFormed.setKey {r : Registry} (h : WellFormed r) (c : ConnId) (key : PublicKey) :
    WellFormed (r.setKey c key) := by
  refine { h with indices := ?_ }
  intro d
  by_cases hd : d = c
  · subst hd
    simpa [Registry.setKey] using h.indices d
  · simpa [Registry.setKey, Function.update_of_ne hd] using h.indices d

theorem WellFormed.adding {r : Registry} (h : WellFormed r) {c : ConnId}
    (hc : r.phase c = .fresh) : WellFormed (r.setPhase c .adding) := by
  refine { h with unanswered := ?_, answered := ?_ }
  · intro d hd
    by_cases hdc : d = c
    · exact h.unanswered d (.inl (hdc ▸ hc))
    · exact h.unanswered d (by simpa [setPhase, Function.update_of_ne hdc] using hd)
  · intro d hd
    have hdc : d ≠ c := by
      intro heq
      subst heq
      simp [setPhase] at hd
    exact h.answered d (by simpa [setPhase, Function.update_of_ne hdc] using hd)

theorem WellFormed.answer {r : Registry} (h : WellFormed r) (c : ConnId) {g : ClientIndex}
    (hg : g ≠ .empty → r.clientsSlotVector.slotAt g.index ≠ none) :
    WellFormed (r.answered c g) := by
  refine { h with unanswered := ?_, answered := ?_, indices := ?_, inRange := ?_ }
  · intro d hd
    have hdc : d ≠ c := by
      intro heq
      subst heq
      simp [Registry.answered, setPhase] at hd
    simpa [Registry.answered, Function.update_of_ne hdc] using
      h.unanswered d (by simpa [Registry.answered, setPhase, Function.update_of_ne hdc] using hd)
  · intro d hd
    by_cases hdc : d = c
    · simp [Registry.answered, hdc]
    · simpa [Registry.answered, Function.update_of_ne hdc] using
        h.answered d (by simpa [Registry.answered, setPhase, Function.update_of_ne hdc] using hd)
  · intro d
    by_cases hdc : d = c
    · subst hdc
      simp [Registry.answered]
    · simpa [Registry.answered, Function.update_of_ne hdc] using h.indices d
  · intro d g' hd
    by_cases hdc : d = c
    · subst hdc
      simp only [Registry.answered, Function.update_self, Option.some.injEq] at hd
      exact hd ▸ hg
    · exact h.inRange d g' (by simpa [Registry.answered, Function.update_of_ne hdc] using hd)

theorem WellFormed.remove {r : Registry} (h : WellFormed r) (c : ConnId) :
    WellFormed (r.remove c) := by
  have hslot : ∀ i, r.clientsSlotVector.slotAt i ≠ none →
      (r.remove c).clientsSlotVector.slotAt i ≠ none := by
    intro i hi
    simp only [Registry.remove, SlotVector.slotAt_pop]
    split <;> simp [hi]
  have hphase : ∀ d p, (r.remove c).phase d = p → p ≠ .ended → r.phase d = p := by
    intro d p hd hp
    have hdc : d ≠ c := by
      intro heq
      subst heq
      exact hp (by simpa [Registry.remove, setPhase] using hd.symm)
    simpa [Registry.remove, setPhase, Function.update_of_ne hdc] using hd
  constructor
  case unanswered =>
    rintro d (hd | hd)
    · exact h.unanswered d (.inl (hphase d _ hd (by simp)))
    · exact h.unanswered d (.inr (hphase d _ hd (by simp)))
  case answered => exact fun d hd => h.answered d (hphase d _ hd (by simp))
  case indices => exact h.indices
  case inRange => exact fun d g hd hg => hslot _ (h.inRange d g hd hg)
  case entries =>
    intro key e he
    by_cases hk : key = (r.connection c).publicKey
    · simp [Registry.remove, hk] at he
    · exact hslot _ (h.entries key e
        (by simpa [Registry.remove, Function.update_of_ne hk] using he))
  case objects =>
    intro i slot client hi ho
    simp only [Registry.remove, SlotVector.slotAt_pop] at hi
    split at hi
    · obtain ⟨slot', -, rfl⟩ := Option.map_eq_some_iff.mp hi
      cases ho
    · exact h.objects i slot client hi ho

theorem WellFormed.emplace {r : Registry} (h : WellFormed r) {c : ConnId} {g : ClientIndex}
    {v : SlotVector Client} (hv : r.clientsSlotVector.emplaceBack (.new c) = some (g, v))
    (dbIndex : Nat) : WellFormed (r.emplaced c v { g with dbIndex }) := by
  obtain ⟨-, hslots, -⟩ := SlotVector.emplaceBack_cases hv
  have hslot : ∀ i, r.clientsSlotVector.slotAt i ≠ none → v.slotAt i ≠ none := by
    intro i hi
    rw [hslots]
    split <;> simp [hi]
  refine { h with inRange := ?_, entries := ?_, objects := ?_ }
  · exact fun d g' hd hg => hslot _ (h.inRange d g' hd hg)
  · intro key e he
    by_cases hk : key = (r.connection c).publicKey
    · subst hk
      simp only [emplaced, Function.update_self, Option.some.injEq] at he
      simp [emplaced, ← he, hslots]
    · exact hslot _ (h.entries key e (by simpa [emplaced, Function.update_of_ne hk] using he))
  · intro i slot client hi ho
    simp only [emplaced, hslots] at hi
    split at hi
    · cases hi
      cases ho
      exact ⟨c, rfl⟩
    · exact h.objects i slot client hi ho

theorem WellFormed.step {r r' : Registry} (h : WellFormed r) {a : Action}
    (hr : r.step a = some r') : WellFormed r' := by
  cases a with
  | login c key =>
    simp only [Registry.step] at hr
    split at hr
    · rename_i hc
      cases hr
      exact (h.setKey c key).adding hc.1
    · cases hr
  | reject c key =>
    simp only [Registry.step] at hr
    split at hr
    · cases hr
      exact (h.setKey c key).answer c fun hg => absurd rfl hg
    · cases hr
  | grant c dbIndex =>
    simp only [Registry.step] at hr
    split at hr
    · obtain ⟨⟨g, v⟩, hv, rfl⟩ := Option.map_eq_some_iff.mp hr
      refine (h.emplace hv dbIndex).answer c ?_
      intro _
      simp [emplaced, (SlotVector.emplaceBack_cases hv).2.1]
    · cases hr
  | fail c key =>
    simp only [Registry.step] at hr
    split at hr
    · cases hr
      exact (h.setKey c key).remove c
    · cases hr
  | close c =>
    simp only [Registry.step] at hr
    split at hr
    · cases hr
      exact h.remove c
    · cases hr

end Registry
end MydakServer
