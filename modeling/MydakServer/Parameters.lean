import Mathlib.Data.List.Induction
import Mathlib.Data.List.TakeWhile
import Mathlib.Data.Nat.Digits.Defs
import MydakServer.Run
import MydakServer.StaticMap

/-! The command line parameters: a value within limits, and the texts that each type of
parameter takes. -/
namespace MydakServer.Args

/-- A string with no NUL before its terminating one. -/
structure CString where
  chars : Text
  noNul : 0 ∉ chars

/-- Why the process exits with code 1. -/
inductive Exit where
  | help
  | message (text : Text)
  deriving DecidableEq

/-- The characters of a `std::string_view` at the time it was made; they lie in this element of
`immortal_strings`, or in static storage. -/
structure StringView where
  chars : Text
  entry : Option Nat := none
  deriving DecidableEq

/-- `std::isdigit` in the C locale. -/
def isDigit (c : UInt8) : Bool := 48 ≤ c && c ≤ 57

def isANumber (text : Text) : Bool := if !text.isEmpty then text.all isDigit else false

/-- `make_address` reports no error for these texts. -/
def isAnIp (makeAddress : Text → Bool) (rawIp : Text) : Bool :=
  if rawIp = text "localhost" then true else makeAddress rawIp

def digit (c : UInt8) : Nat := c.toNat - 48

inductive Errc where
  | invalidArgument
  | resultOutOfRange
  deriving DecidableEq

/-- One more digit, until the value passes the limit. -/
def raiseAndAdd (limit : Nat) (value : Option Nat) (c : UInt8) : Option Nat :=
  value.bind fun n => if 10 * n + digit c ≤ limit then some (10 * n + digit c) else none

/-- `std::from_chars` for an `int8_t`. -/
def fromChars (chars : Text) : Except Errc Int8 :=
  let negative := chars.head? = some 45
  let digits := (if negative then chars.tail else chars).takeWhile isDigit
  if digits.isEmpty then .error .invalidArgument
  else
    match digits.foldl (raiseAndAdd (if negative then 128 else 127)) (some 0) with
    | none => .error .resultOutOfRange
    | some n => .ok (if negative then .ofInt (-n) else .ofNat n)

structure ParameterBase (T Numeric : Type) where
  data : T
  min : Numeric
  max : Numeric
  deriving DecidableEq

/-- What `is_in_limits` compares, and how `to_string_unsafe` writes it. -/
class Limited (T Numeric : Type) where
  atLeast : T → Numeric → Bool
  atMost : T → Numeric → Bool
  valueText : T → Text
  limitText : Numeric → Text

instance : Limited Int8 Int8 where
  atLeast num min := min ≤ num
  atMost num max := num ≤ max
  valueText num := text (toString num.toInt)
  limitText limit := text (toString limit.toInt)

/-- A type that has a size. -/
instance : Limited StringView UInt32 where
  atLeast value min := min.toNat ≤ value.chars.length
  atMost value max := value.chars.length ≤ max.toNat
  valueText value := value.chars
  limitText limit := text (toString limit.toNat)

namespace ParameterBase
variable {T Numeric : Type} [Limited T Numeric]

def limitsToString (p : ParameterBase T Numeric) : Text :=
  text "from " ++ Limited.limitText T p.min ++ text " to " ++ Limited.limitText T p.max

def isInLimits (p : ParameterBase T Numeric) (num : T) : Bool :=
  Limited.atLeast num p.min && Limited.atMost num p.max

def trySetValInternal (p : ParameterBase T Numeric) (value : T) :
    Except Exit (ParameterBase T Numeric) :=
  if p.isInLimits value then .ok { p with data := value }
  else .error (.message (Limited.valueText Numeric value ++ text " is not in bounds: " ++
    p.limitsToString ++ text "!"))

end ParameterBase

/-- `parameter<0>::try_set_val`. -/
def trySetNumber (p : ParameterBase Int8 Int8) (value : StringView) :
    Except Exit (ParameterBase Int8 Int8) :=
  if isANumber value.chars then
    match fromChars value.chars with
    | .error _ => .error (.message (value.chars ++ text " is not a number!"))
    | .ok number => p.trySetValInternal number
  else .error (.message (value.chars ++ text " is not a number!"))

/-- `parameter<1>::try_set_val`. -/
def trySetString (p : ParameterBase StringView UInt32) (value : StringView) :
    Except Exit (ParameterBase StringView UInt32) :=
  p.trySetValInternal value

/-- `parameter<2>::try_set_val`. -/
def trySetIp (makeAddress : Text → Bool) (p : ParameterBase StringView UInt32)
    (value : StringView) : Except Exit (ParameterBase StringView UInt32) :=
  if isAnIp makeAddress value.chars then p.trySetValInternal value
  else .error (.message (value.chars ++ text " is not an ip!"))

/-- `parameter_variants`. -/
inductive Parameter where
  | smallNumber (p : ParameterBase Int8 Int8)
  | string (p : ParameterBase StringView UInt32)
  | ip (p : ParameterBase StringView UInt32)
  deriving DecidableEq

/-- What `get_data` returns. -/
inductive ParameterValue where
  | number (n : Int8)
  | characters (chars : Text)
  deriving DecidableEq

namespace Parameter

/-- The constructor of `parameter<2>`. -/
def ofHostname (hostname : StringView) : Parameter := .ip ⟨hostname, 0, 1024⟩

def trySetVal (makeAddress : Text → Bool) (p : Parameter) (value : StringView) :
    Except Exit Parameter :=
  match p with
  | .smallNumber p => (trySetNumber p value).map .smallNumber
  | .string p => (trySetString p value).map .string
  | .ip p => (trySetIp makeAddress p value).map .ip

def getData : Parameter → ParameterValue
  | .smallNumber p => .number p.data
  | .string p | .ip p => .characters p.data.chars

def inLimits : Parameter → Bool
  | .smallNumber p => p.isInLimits p.data
  | .string p | .ip p => p.isInLimits p.data

/-- The view that the parameter keeps. -/
def view : Parameter → Option StringView
  | .smallNumber _ => none
  | .string p | .ip p => some p.data

/-- The type of the parameter and its limits. -/
def blank : Parameter → Parameter
  | .smallNumber p => .smallNumber { p with data := 0 }
  | .string p => .string { p with data := ⟨[], none⟩ }
  | .ip p => .ip { p with data := ⟨[], none⟩ }

end Parameter

/-- The text is a decimal number, with leading zeros or not. -/
def Denotes (chars : Text) (n : Nat) : Prop :=
  chars ≠ [] ∧ (∀ c ∈ chars, 48 ≤ c ∧ c ≤ 57) ∧ n = Nat.ofDigits 10 (chars.reverse.map digit)

theorem isANumber_iff {chars : Text} : isANumber chars ↔ ∃ n, Denotes chars n := by
  simp only [Denotes, exists_and_left, exists_eq, and_true]
  cases chars <;> simp [isANumber, isDigit]

/-- The value of the digits, unless it passes the limit on the way. -/
theorem foldl_raiseAndAdd (limit : Nat) (chars : Text) :
    chars.foldl (raiseAndAdd limit) (some 0) =
      if Nat.ofDigits 10 (chars.reverse.map digit) ≤ limit then
        some (Nat.ofDigits 10 (chars.reverse.map digit))
      else none := by
  induction chars using List.reverseRecOn with
  | nil => simp
  | append_singleton chars c ih =>
    have hvalue : Nat.ofDigits 10 ((chars ++ [c]).reverse.map digit) =
        10 * Nat.ofDigits 10 (chars.reverse.map digit) + digit c := by
      simp only [List.reverse_append, List.reverse_singleton, List.singleton_append, List.map_cons,
        Nat.ofDigits_cons]
      omega
    rw [List.foldl_append, ih, hvalue]
    by_cases hle : Nat.ofDigits 10 (chars.reverse.map digit) ≤ limit
    · rw [if_pos hle]
      rfl
    · have hgt : ¬ 10 * Nat.ofDigits 10 (chars.reverse.map digit) + digit c ≤ limit := by omega
      rw [if_neg hle, if_neg hgt]
      rfl

theorem fromChars_eq_ok {chars : Text} {n : Nat} (h : Denotes chars n) {number : Int8} :
    fromChars chars = .ok number ↔ n ≤ 127 ∧ number = .ofNat n := by
  obtain ⟨hne, hdigits, rfl⟩ := h
  have hhead : chars.head? ≠ some 45 := by
    intro hc
    have hm := hdigits 45 (List.mem_of_mem_head? hc)
    exact absurd hm.1 (by decide)
  have hall : chars.takeWhile isDigit = chars := by
    apply List.takeWhile_eq_self_iff.mpr
    intro c hc
    simpa [isDigit] using hdigits c hc
  have hempty : chars.isEmpty = false := List.isEmpty_eq_false_iff.mpr hne
  have hfold := foldl_raiseAndAdd 127 chars
  generalize Nat.ofDigits 10 (chars.reverse.map digit) = n at hfold ⊢
  simp only [fromChars, if_neg hhead, hall, hempty, hfold, Bool.false_eq_true, if_false]
  by_cases hle : n ≤ 127
  · rw [if_pos hle]
    simp only [hle, true_and, Except.ok.injEq]
    exact eq_comm
  · rw [if_neg hle]
    simp only [hle, false_and, reduceCtorEq]

theorem trySetValInternal_eq_ok {T Numeric : Type} [Limited T Numeric]
    {p q : ParameterBase T Numeric} {value : T} : p.trySetValInternal value = .ok q ↔
      p.isInLimits value ∧ q = { p with data := value } := by
  unfold ParameterBase.trySetValInternal
  split
  · rename_i h
    simp [h, eq_comm]
  · rename_i h
    simp [h]

theorem isInLimits_number {p : ParameterBase Int8 Int8} {n : Nat} (hn : n ≤ 127) :
    p.isInLimits (.ofNat n) ↔ p.min.toInt ≤ n ∧ n ≤ p.max.toInt := by
  have htoInt : (Int8.ofNat n).toInt = n := Int8.toInt_ofNat_of_lt (by omega)
  simp [ParameterBase.isInLimits, Limited.atLeast, Limited.atMost, Int8.le_iff_toInt_le, htoInt]

theorem trySetNumber_eq_ok {p q : ParameterBase Int8 Int8} {value : StringView} :
    trySetNumber p value = .ok q ↔ ∃ n : Nat, Denotes value.chars n ∧ n ≤ 127 ∧
      (p.min.toInt ≤ n ∧ n ≤ p.max.toInt) ∧ q = { p with data := .ofNat n } := by
  unfold trySetNumber
  split
  · rename_i hnum
    obtain ⟨n, hn⟩ := isANumber_iff.mp hnum
    have huniq : ∀ m, Denotes value.chars m → m = n := fun m hm => hm.2.2.trans hn.2.2.symm
    constructor
    · intro h
      split at h
      · cases h
      · rename_i number hnumber
        obtain ⟨hle, rfl⟩ := (fromChars_eq_ok hn).mp hnumber
        obtain ⟨hlim, hq⟩ := trySetValInternal_eq_ok.mp h
        exact ⟨n, hn, hle, (isInLimits_number hle).mp hlim, hq⟩
    · rintro ⟨m, hm, hle, hlim, hq⟩
      obtain rfl := huniq m hm
      rw [(fromChars_eq_ok hm).mpr ⟨hle, rfl⟩]
      exact trySetValInternal_eq_ok.mpr ⟨(isInLimits_number hle).mpr hlim, hq⟩
  · rename_i hnum
    simp only [reduceCtorEq, false_iff]
    rintro ⟨n, hn, -⟩
    exact hnum (isANumber_iff.mpr ⟨n, hn⟩)

theorem isInLimits_view {p : ParameterBase StringView UInt32} {value : StringView} :
    p.isInLimits value ↔
      p.min.toNat ≤ value.chars.length ∧ value.chars.length ≤ p.max.toNat := by
  simp [ParameterBase.isInLimits, Limited.atLeast, Limited.atMost]

theorem trySetIp_eq_ok {makeAddress : Text → Bool} {p q : ParameterBase StringView UInt32}
    {value : StringView} : trySetIp makeAddress p value = .ok q ↔
      isAnIp makeAddress value.chars ∧ p.isInLimits value ∧ q = { p with data := value } := by
  unfold trySetIp
  split
  · rename_i h
    simp [h, trySetValInternal_eq_ok]
  · rename_i h
    simp [h]

namespace Parameter
variable {makeAddress : Text → Bool} {p q : Parameter}

/-- The parameter takes the text, and is this value then. -/
def Reads (makeAddress : Text → Bool) (p : Parameter) (chars : Text) (x : ParameterValue) : Prop :=
  match p with
  | .smallNumber p => ∃ n : Nat, Denotes chars n ∧ n ≤ 127 ∧
      (p.min.toInt ≤ n ∧ n ≤ p.max.toInt) ∧ x = .number (.ofNat n)
  | .string p => (p.min.toNat ≤ chars.length ∧ chars.length ≤ p.max.toNat) ∧ x = .characters chars
  | .ip p => isAnIp makeAddress chars ∧
      (p.min.toNat ≤ chars.length ∧ chars.length ≤ p.max.toNat) ∧ x = .characters chars

/-- The parameter takes a text exactly when it can be read, keeps its type and its limits, and what
view it keeps is the one it was given. -/
theorem trySetVal_eq_ok {value : StringView} : p.trySetVal makeAddress value = .ok q ↔
    p.Reads makeAddress value.chars q.getData ∧ q.blank = p.blank ∧
      q.view = p.view.map fun _ => value := by
  cases p with
  | smallNumber p =>
    simp only [trySetVal, Except.map_eq_ok, trySetNumber_eq_ok, Reads]
    constructor
    · rintro ⟨r, ⟨n, hn, hle, hlim, rfl⟩, rfl⟩
      exact ⟨⟨n, hn, hle, hlim, rfl⟩, rfl, rfl⟩
    · rintro ⟨⟨n, hn, hle, hlim, hdata⟩, hblank, -⟩
      refine ⟨_, ⟨n, hn, hle, hlim, rfl⟩, ?_⟩
      cases q with
      | smallNumber q =>
        obtain ⟨data, min, max⟩ := q
        simp only [getData, blank, ParameterValue.number.injEq, smallNumber.injEq,
          ParameterBase.mk.injEq, true_and] at hdata hblank
        rw [hdata, hblank.1, hblank.2]
      | _ => simp [blank] at hblank
  | string p =>
    simp only [trySetVal, Except.map_eq_ok, trySetString, trySetValInternal_eq_ok, isInLimits_view,
      Reads]
    constructor
    · rintro ⟨r, ⟨hlim, rfl⟩, rfl⟩
      exact ⟨⟨hlim, rfl⟩, rfl, rfl⟩
    · rintro ⟨⟨hlim, -⟩, hblank, hview⟩
      refine ⟨_, ⟨hlim, rfl⟩, ?_⟩
      cases q with
      | string q =>
        obtain ⟨data, min, max⟩ := q
        simp only [view, blank, string.injEq, ParameterBase.mk.injEq, true_and, Option.map_some,
          Option.some.injEq] at hview hblank
        rw [hview, hblank.1, hblank.2]
      | _ => simp [blank] at hblank
  | ip p =>
    simp only [trySetVal, Except.map_eq_ok, trySetIp_eq_ok, isInLimits_view, Reads]
    constructor
    · rintro ⟨r, ⟨hip, hlim, rfl⟩, rfl⟩
      exact ⟨⟨hip, hlim, rfl⟩, rfl, rfl⟩
    · rintro ⟨⟨hip, hlim, -⟩, hblank, hview⟩
      refine ⟨_, ⟨hip, hlim, rfl⟩, ?_⟩
      cases q with
      | ip q =>
        obtain ⟨data, min, max⟩ := q
        simp only [view, blank, ip.injEq, ParameterBase.mk.injEq, true_and, Option.map_some,
          Option.some.injEq] at hview hblank
        rw [hview, hblank.1, hblank.2]
      | _ => simp [blank] at hblank

theorem inLimits_of_trySetVal {value : StringView} (h : p.trySetVal makeAddress value = .ok q) :
    q.inLimits := by
  cases p with
  | smallNumber p =>
    obtain ⟨r, hr, rfl⟩ := Except.map_eq_ok.mp h
    obtain ⟨n, -, hle, hlim, rfl⟩ := trySetNumber_eq_ok.mp hr
    exact (isInLimits_number hle).mpr hlim
  | string p =>
    obtain ⟨r, hr, rfl⟩ := Except.map_eq_ok.mp h
    obtain ⟨hlim, rfl⟩ := trySetValInternal_eq_ok.mp hr
    exact hlim
  | ip p =>
    obtain ⟨r, hr, rfl⟩ := Except.map_eq_ok.mp h
    obtain ⟨-, hlim, rfl⟩ := trySetIp_eq_ok.mp hr
    exact hlim

/-- A call that returns. -/
def step (makeAddress : Text → Bool) (p : Parameter) (value : StringView) : Option Parameter :=
  (p.trySetVal makeAddress value).toOption

theorem step_eq_some {value : StringView} :
    p.step makeAddress value = some q ↔ p.trySetVal makeAddress value = .ok q := by
  unfold step
  cases p.trySetVal makeAddress value <;> simp [Except.toOption]

theorem inLimits_run {values : List StringView} (hp : p.inLimits)
    (hr : Lts.run (step makeAddress) p values = some q) : q.inLimits ∧ q.blank = p.blank := by
  refine Lts.invariant_all (I := fun r => r.inLimits ∧ r.blank = p.blank) ?_ ⟨hp, rfl⟩ hr
  rintro r value r' ⟨-, hblank⟩ hstep
  have hset := step_eq_some.mp hstep
  exact ⟨inLimits_of_trySetVal hset, (trySetVal_eq_ok.mp hset).2.1.trans hblank⟩

end Parameter

/-- Which texts the parameters store, and that what they hold stays within their limits. -/
theorem try_set_val_exact (makeAddress : Text → Bool) :
    (∀ (v : CString) (entry : Option Nat) (p q : ParameterBase Int8 Int8),
      trySetNumber p ⟨v.chars, entry⟩ = .ok q ↔
        (∃ n : Nat, Denotes v.chars n ∧ n ≤ 127 ∧ (p.min.toInt ≤ n ∧ n ≤ p.max.toInt) ∧
          q.data.toInt = n) ∧ q.min = p.min ∧ q.max = p.max) ∧
    (∀ (v : CString) (entry : Option Nat) (p q : ParameterBase StringView UInt32),
      trySetString p ⟨v.chars, entry⟩ = .ok q ↔
        (p.min.toNat ≤ v.chars.length ∧ v.chars.length ≤ p.max.toNat) ∧
          q = { p with data := ⟨v.chars, entry⟩ }) ∧
    ∀ (p q : Parameter) (values : List StringView), p.inLimits →
      Lts.run (Parameter.step makeAddress) p values = some q → q.inLimits ∧ q.blank = p.blank := by
  refine ⟨?_, ?_, fun p q values hp hr => Parameter.inLimits_run hp hr⟩
  · intro v entry p q
    rw [trySetNumber_eq_ok]
    constructor
    · rintro ⟨n, hn, hle, hlim, rfl⟩
      exact ⟨⟨n, hn, hle, hlim, Int8.toInt_ofNat_of_lt (by omega)⟩, rfl, rfl⟩
    · rintro ⟨⟨n, hn, hle, hlim, hdata⟩, hmin, hmax⟩
      obtain ⟨data, min, max⟩ := q
      have hdata : data = .ofNat n :=
        Int8.toInt_inj.mp (hdata.trans (Int8.toInt_ofNat_of_lt (by omega)).symm)
      exact ⟨n, hn, hle, hlim, by rw [← hdata, ← hmin, ← hmax]⟩
  · intro v entry p q
    rw [trySetString, trySetValInternal_eq_ok, isInLimits_view]

/-- A number with leading zeros, and a text that is as long as it may be. -/
theorem try_set_val_exact_bounds :
    trySetNumber ⟨5, -3, 7⟩ ⟨text "007", none⟩ = .ok ⟨7, -3, 7⟩ ∧
      trySetString ⟨⟨text "username", none⟩, 4, 8⟩ ⟨text "password", some 2⟩ =
        .ok ⟨⟨text "password", some 2⟩, 4, 8⟩ := by
  have hchars : text "007" = [48, 48, 55] := rfl
  have hdenotes : Denotes (text "007") 7 := ⟨by decide, by simp [hchars], by decide⟩
  obtain ⟨hnumber, hstring, -⟩ := try_set_val_exact fun _ => false
  refine ⟨(hnumber ⟨text "007", by decide⟩ none _ _).mpr ?_,
    (hstring ⟨text "password", by decide⟩ (some 2) _ _).mpr (by decide)⟩
  exact ⟨⟨7, hdenotes, by decide, by decide, rfl⟩, rfl, rfl⟩

end MydakServer.Args
