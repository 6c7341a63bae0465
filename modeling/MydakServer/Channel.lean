import Mathlib.Data.List.Basic

/-! Channels that buffer nothing: an operation either meets a waiting partner at once
or waits, in order of arrival. Senders and receivers never wait at the same time. -/
namespace Rendezvous
variable {ι : Type*}

structure Channel (ι : Type*) where
  senders : List ι := []
  receivers : List ι := []
  exclusive : senders = [] ∨ receivers = [] := by exact .inl rfl

namespace Channel

/-- No operation waits. -/
abbrev idle : Channel ι := {}

/-- One operation waits, to receive. -/
abbrev receiver (i : ι) : Channel ι := { receivers := [i] }

/-- Succeeds exactly when a receiver is waiting, and names it. -/
def trySend (c : Channel ι) : Option (ι × Channel ι) :=
  match c.receivers with
  | [] => none
  | r :: rs => some (r, { receivers := rs })

/-- The channel after a send and the receiver it met, if one was waiting. -/
def asyncSend (c : Channel ι) (i : ι) : Channel ι × Option ι :=
  match c.receivers with
  | [] => ({ senders := c.senders ++ [i], exclusive := .inr rfl }, none)
  | r :: rs => ({ receivers := rs }, some r)

/-- The channel after a receive and the sender it met, if one was waiting. -/
def asyncReceive (c : Channel ι) (i : ι) : Channel ι × Option ι :=
  match c.senders with
  | [] => ({ receivers := c.receivers ++ [i] }, none)
  | s :: ss => ({ senders := ss, exclusive := .inr rfl }, some s)

/-- Takes the first operation still waiting out of a channel that goes away. -/
def cancel (c : Channel ι) : Option (ι × Channel ι) :=
  match c.senders, c.receivers with
  | s :: ss, _ => some (s, { senders := ss, exclusive := .inr rfl })
  | [], r :: rs => some (r, { receivers := rs })
  | [], [] => none

theorem ext_iff' {c d : Channel ι} :
    c = d ↔ c.senders = d.senders ∧ c.receivers = d.receivers := by
  cases c; cases d; simp

theorem asyncSend_wait {c : Channel ι} (h : c.receivers = []) (i : ι) :
    (c.asyncSend i).2 = none ∧ (c.asyncSend i).1.senders = c.senders ++ [i] ∧
      (c.asyncSend i).1.receivers = [] := by
  simp [asyncSend, h]

theorem asyncSend_meet {c : Channel ι} {r : ι} {rs : List ι} (h : c.receivers = r :: rs) (i : ι) :
    (c.asyncSend i).2 = some r ∧ (c.asyncSend i).1.senders = [] ∧
      (c.asyncSend i).1.receivers = rs := by
  simp [asyncSend, h]

theorem asyncReceive_wait {c : Channel ι} (h : c.senders = []) (i : ι) :
    (c.asyncReceive i).2 = none ∧ (c.asyncReceive i).1.senders = [] ∧
      (c.asyncReceive i).1.receivers = c.receivers ++ [i] := by
  simp [asyncReceive, h]

theorem asyncReceive_meet {c : Channel ι} {s : ι} {ss : List ι} (h : c.senders = s :: ss) (i : ι) :
    (c.asyncReceive i).2 = some s ∧ (c.asyncReceive i).1.senders = ss ∧
      (c.asyncReceive i).1.receivers = [] := by
  simp [asyncReceive, h]

/-- The first sender gives up, or the first receiver where nobody waits to send. -/
theorem cancel_cases {c c' : Channel ι} {i : ι} (h : c.cancel = some (i, c')) :
    (c.senders = i :: c'.senders ∧ c'.receivers = []) ∨
      c.senders = [] ∧ c'.senders = [] ∧ c.receivers = i :: c'.receivers := by
  unfold cancel at h
  cases hs : c.senders with
  | cons s ss =>
    simp only [hs, Option.some.injEq, Prod.mk.injEq] at h
    obtain ⟨rfl, rfl⟩ := h
    exact .inl ⟨rfl, rfl⟩
  | nil =>
    cases hr : c.receivers with
    | nil => simp [hs, hr] at h
    | cons r rs =>
      simp only [hs, hr, Option.some.injEq, Prod.mk.injEq] at h
      obtain ⟨rfl, rfl⟩ := h
      exact .inr ⟨rfl, rfl, rfl⟩

theorem cancel_eq_none {c : Channel ι} : c.cancel = none ↔ c = idle := by
  rw [ext_iff']
  unfold cancel
  cases c.senders <;> cases c.receivers <;> simp

theorem cancel_subset {c c' : Channel ι} {i : ι} (h : c.cancel = some (i, c')) :
    c'.senders ⊆ c.senders ∧ c'.receivers ⊆ c.receivers := by
  obtain ⟨hs, hr⟩ | ⟨-, hs, hr⟩ := cancel_cases h
  · rw [hs, hr]
    exact ⟨List.subset_cons_self i _, List.nil_subset _⟩
  · rw [hs, hr]
    exact ⟨List.nil_subset _, List.subset_cons_self i _⟩

end Channel
end Rendezvous
