import Mathlib.Data.List.Basic

/-! A table of rows with ids, and the log of what is put into it and taken out of it: what the
table holds can be read off the log without going through it step by step. -/
namespace Ledger
variable {ρ ν : Type*} [DecidableEq ν]

inductive Entry (ρ ν : Type*) where
  | put (row : ρ)
  | remove (ids : List ν)

def Entry.row : Entry ρ ν → Option ρ
  | .put row => some row
  | .remove _ => none

def Entry.ids : Entry ρ ν → List ν
  | .put _ => []
  | .remove ids => ids

def puts (log : List (Entry ρ ν)) : List ρ := log.filterMap Entry.row

def removed (log : List (Entry ρ ν)) : List ν := log.flatMap Entry.ids

variable {id : ρ → ν}

/-- What the log makes of the rows. -/
def replay (id : ρ → ν) : List ρ → List (Entry ρ ν) → List ρ
  | rows, [] => rows
  | rows, .put row :: log => replay id (rows ++ [row]) log
  | rows, .remove ids :: log => replay id (rows.filter (id · ∉ ids)) log

theorem replay_append (rows : List ρ) (log log' : List (Entry ρ ν)) :
    replay id rows (log ++ log') = replay id (replay id rows log) log' := by
  induction log generalizing rows with
  | nil => rfl
  | cons e log ih =>
    cases e with
    | put row => exact ih _
    | remove ids => exact ih _

/-- No row is put in under an id that has been taken out before. -/
def Fresh (id : ρ → ν) (log : List (Entry ρ ν)) : Prop :=
  log.Pairwise fun e f => ∀ row, f.row = some row → id row ∉ e.ids

omit [DecidableEq ν] in
theorem Fresh.initial {log log' : List (Entry ρ ν)} (h : Fresh id log') (hp : log <+: log') :
    Fresh id log :=
  List.Pairwise.sublist hp.sublist h

omit [DecidableEq ν] in
theorem Fresh.append {log log' : List (Entry ρ ν)} (h : Fresh id log)
    (h' : Fresh id log')
    (hnew : ∀ row ∈ puts log', id row ∉ removed log) : Fresh id (log ++ log') := by
  refine List.pairwise_append.mpr ⟨h, h', fun e he f hf row hrow hid => ?_⟩
  exact hnew row (List.mem_filterMap.mpr ⟨f, hf, hrow⟩) (List.mem_flatMap.mpr ⟨e, he, hid⟩)

/-- The table holds what has ever been put in, in this order, but for what has ever been taken
out. -/
theorem replay_eq {log : List (Entry ρ ν)} (h : Fresh id log) (rows : List ρ) :
    replay id rows log = (rows ++ puts log).filter (id · ∉ removed log) := by
  induction log generalizing rows with
  | nil => simp [replay, puts, removed]
  | cons e log ih =>
    obtain ⟨hhead, htail⟩ := List.pairwise_cons.mp h
    cases e with
    | put row =>
      rw [replay, ih htail]
      simp [puts, removed, Entry.row, Entry.ids]
    | remove ids =>
      have hputs : ∀ row ∈ puts log, id row ∉ ids := by
        intro row hrow
        obtain ⟨f, hf, hfrow⟩ := List.mem_filterMap.mp hrow
        exact hhead f hf row hfrow
      rw [replay, ih htail, List.filter_append, List.filter_filter, List.filter_append]
      have hrows : (rows.filter fun row => id row ∉ removed log ∧ id row ∉ ids) =
          rows.filter (id · ∉ removed (.remove ids :: log)) := by
        refine List.filter_congr fun row _ => ?_
        simp [removed, Entry.ids, and_comm]
      have hnew : (puts log).filter (id · ∉ removed log) =
          (puts (.remove ids :: log)).filter (id · ∉ removed (.remove ids :: log)) := by
        refine List.filter_congr fun row hrow => ?_
        simp [removed, Entry.ids, hputs row hrow]
      rw [← hrows, ← hnew]
      simp

end Ledger
