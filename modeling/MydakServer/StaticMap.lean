import MydakServer.BinarySearch

/-! The map from option names to their indices: an array sorted by name, searched with
`std::lower_bound`. -/
namespace MydakServer

/-- The characters of a string, as unsigned char. -/
abbrev Text := List UInt8

/-- The characters of a literal. -/
def text (s : String) : Text := s.toList.map fun c => c.toNat.toUInt8

/-- The characters of a literal with its terminating NUL. -/
structure StaticString (n : Nat) where
  characters : Vector UInt8 n

namespace StaticString
variable {n : Nat}

def ofLiteral (literal : Text) : StaticString (literal.length + 1) :=
  ⟨⟨(literal ++ [0]).toArray, by simp⟩⟩

/-- `std::string_view{characters, N - 1}`. -/
def view (s : StaticString n) : Text := s.characters.toList.take (n - 1)

theorem view_ofLiteral (literal : Text) : (ofLiteral literal).view = literal := by
  simp [ofLiteral, view, Vector.toList]

end StaticString

/-- What a key is compared with names by: its `operator ==` and `operator >`. -/
class Key (κ : Type*) where
  equals : κ → Text → Bool
  greater : κ → Text → Bool

instance : Key Text where
  equals key name := key = name
  greater key name := name < key

instance (n : Nat) : Key (StaticString n) where
  equals key name := key.view = name
  greater key name := name < key.view

variable {α κ : Type*} [Key κ]

def compare2 (a : Text × α) (b : κ) : Bool := Key.greater b a.1

structure StaticMap (α : Type*) where
  array : List (Text × α)

namespace StaticMap

/-- The pairs, sorted by their first component. -/
def ofPairs (pairs : List (Text × α)) : StaticMap α :=
  ⟨pairs.mergeSort fun a b => !decide (b.1 < a.1)⟩

/-- `std::lower_bound` over the whole array. -/
def lowerBound (m : StaticMap α) (key : κ) : Nat :=
  BinarySearch.lowerBound (compare2 · key) m.array 0 m.array.length

/-- `at`. -/
def lookup (m : StaticMap α) (key : κ) : Option α :=
  match m.array[m.lowerBound key]? with
  | some (name, value) => if Key.equals key name then some value else none
  | none => none

/-- `consteval_at`; where it throws, the call does not compile. -/
def constevalAt {n : Nat} (m : StaticMap α) (key : StaticString n) : Except String α :=
  match m.array[m.lowerBound key]? with
  | some (name, value) =>
    if Key.equals key name then .ok value else .error "Nonexisting key!"
  | none => .error "Nonexisting key!"

end StaticMap

/-- Each name with its place in the list. -/
def indexStaticMap (names : List Text) : StaticMap Nat := .ofPairs names.zipIdx

namespace StaticMap

theorem ofPairs_perm (pairs : List (Text × α)) : (ofPairs pairs).array.Perm pairs :=
  List.mergeSort_perm ..

theorem ofPairs_sorted {pairs : List (Text × α)} (h : (pairs.map Prod.fst).Nodup) :
    (ofPairs pairs).array.Pairwise fun a b => a.1 < b.1 := by
  have hle : (ofPairs pairs).array.Pairwise fun a b => (!decide (b.1 < a.1)) = true := by
    apply List.pairwise_mergeSort
    · intro a b c hab hbc
      simp only [Bool.not_eq_true', decide_eq_false_iff_not, List.not_lt] at *
      exact List.le_trans hab hbc
    · intro a b
      simpa [List.not_lt, or_comm] using List.le_total a.1 b.1
  have hne : (ofPairs pairs).array.Pairwise fun a b => a.1 ≠ b.1 :=
    List.pairwise_map.mp (((ofPairs_perm pairs).map Prod.fst).nodup_iff.mpr h)
  refine (hle.and hne).imp fun {a b} hab => ?_
  obtain ⟨hle, hne⟩ := hab
  simp only [Bool.not_eq_true', decide_eq_false_iff_not, List.not_lt] at hle
  exact Std.lt_of_le_of_ne hle hne

theorem lookup_ofPairs {pairs : List (Text × α)} (h : (pairs.map Prod.fst).Nodup) (key : Text) :
    (ofPairs pairs).lookup key = (pairs.find? fun p => p.1 = key).map Prod.snd := by
  have hfind : (ofPairs pairs).array[(ofPairs pairs).lowerBound key]?.filter (fun p => p.1 = key) =
      pairs.find? fun p => p.1 = key := by
    rw [← BinarySearch.find?_key_perm (f := Prod.fst) h (ofPairs_perm pairs).symm]
    exact BinarySearch.getElem?_lowerBound_sorted (f := Prod.fst) (ofPairs_sorted h) key
  rw [← hfind, lookup]
  cases (ofPairs pairs).array[(ofPairs pairs).lowerBound key]? with
  | none => rfl
  | some p =>
    by_cases hp : p.1 = key
    · simp [Key.equals, Option.filter, hp]
    · simp [Key.equals, Option.filter, hp, Ne.symm hp]

/-- A literal is found where its characters are. -/
theorem constevalAt_ofLiteral (m : StaticMap α) (literal : Text) :
    m.constevalAt (.ofLiteral literal) =
      (m.lookup literal).elim (.error "Nonexisting key!") .ok := by
  have hlower : m.lowerBound (StaticString.ofLiteral literal) = m.lowerBound literal := by
    simp only [lowerBound, compare2, Key.greater, StaticString.view_ofLiteral]
  rw [constevalAt, lookup, hlower]
  cases m.array[m.lowerBound literal]? with
  | none => rfl
  | some p =>
    simp only [Key.equals, StaticString.view_ofLiteral]
    split <;> rfl

end StaticMap

theorem indexStaticMap_lookup {names : List Text} (hn : names.Nodup) {key : Text} {i : Nat} :
    (indexStaticMap names).lookup key = some i ↔ names[i]? = some key := by
  have hkeys : (names.zipIdx.map Prod.fst).Nodup := by simpa using hn
  rw [indexStaticMap, StaticMap.lookup_ofPairs hkeys]
  simp [Option.map_eq_some_iff, BinarySearch.find?_key_eq_some hkeys, List.mem_zipIdx_iff_getElem?]

/-- The lookup of a string in a map of different names is a search from the front, at run time
and at compile time. -/
theorem static_map_lookup (names : List Text) (hn : names.Nodup) (key : Text) :
    (indexStaticMap names).lookup key = names.idxOf? key ∧
    (∀ i, (indexStaticMap names).lookup key = some i ↔ names[i]? = some key) ∧
    ((indexStaticMap names).lookup key = none ↔ key ∉ names) ∧
    (indexStaticMap names).constevalAt (.ofLiteral key) =
      ((indexStaticMap names).lookup key).elim (.error "Nonexisting key!") .ok := by
  have hnone : (indexStaticMap names).lookup key = none ↔ key ∉ names := by
    rw [Option.eq_none_iff_forall_ne_some, List.mem_iff_getElem?, not_exists]
    exact forall_congr' fun i => not_congr (indexStaticMap_lookup hn)
  refine ⟨?_, fun i => indexStaticMap_lookup hn, hnone, StaticMap.constevalAt_ofLiteral _ key⟩
  cases hf : (indexStaticMap names).lookup key with
  | none => exact (List.idxOf?_eq_none_iff.mpr (hnone.mp hf)).symm
  | some i =>
    obtain ⟨hi, hkey⟩ := List.getElem?_eq_some_iff.mp ((indexStaticMap_lookup hn).mp hf)
    refine (List.idxOf?_eq_some_iff.mpr ⟨hi, hkey, fun j hj he => ?_⟩).symm
    exact absurd ((List.getElem_inj hn).mp (he.trans hkey.symm)) (Nat.ne_of_lt hj)

/-- A name that others begin with, and the empty one. -/
theorem static_map_lookup_prefix :
    (indexStaticMap [text "--db-password", text "--db", text "", text "--db-p"]).lookup
      (text "--db") = some 1 :=
  ((static_map_lookup [text "--db-password", text "--db", text "", text "--db-p"] (by decide)
    (text "--db")).2.1 1).mpr (by decide)

end MydakServer
