import MydakServer.StaticMap

/-! The conversions between bytes and hexadecimal digits, and what libsodium does for them. -/
namespace MydakServer.Tools

def hexDigit (n : Nat) : UInt8 := if n < 10 then .ofNat (48 + n) else .ofNat (87 + n)

/-- The lower case digits of the bytes, two for each. -/
def hexDigits : List UInt8 → Text
  | [] => []
  | b :: bs => hexDigit (b.toNat / 16) :: hexDigit (b.toNat % 16) :: hexDigits bs

/-- The value of a digit of either case. -/
def hexValue (c : UInt8) : Option Nat :=
  if 48 ≤ c ∧ c ≤ 57 then some (c.toNat - 48)
  else if 97 ≤ c ∧ c ≤ 102 then some (c.toNat - 87)
  else if 65 ≤ c ∧ c ≤ 70 then some (c.toNat - 55)
  else none

/-- The bytes of an even number of digits. -/
def decode : Text → Option (List UInt8)
  | [] => some []
  | [_] => none
  | c :: d :: hex =>
    match hexValue c, hexValue d with
    | some m, some n => (decode hex).map fun bs => .ofNat (16 * m + n) :: bs
    | _, _ => none

/-- An address. -/
abbrev Pointer := Nat

variable {n : Nat}

/-- The buffer with the bytes written over its front. -/
def store (buffer : Vector UInt8 n) (bytes : List UInt8) : Vector UInt8 n :=
  .ofFn fun i => bytes[i.val]?.getD buffer[i]

/-- The two functions of libsodium. Each leaves the buffer with some contents and returns. -/
structure Sodium where
  bin2hex {m n : Nat} (hex : Pointer) (buffer : Vector UInt8 m) (bin : Vector UInt8 n) :
    Vector UInt8 m × Option Pointer
  hex2bin {n : Nat} (buffer : Vector UInt8 n) (hex : Text) : Vector UInt8 n × Int

/-- What the documentation of libsodium says of them. -/
structure Sodium.Documented (sodium : Sodium) : Prop where
  bin2hex {m n : Nat} (hex : Pointer) (buffer : Vector UInt8 m) (bin : Vector UInt8 n)
    (hroom : 2 * n < m) : sodium.bin2hex hex buffer bin =
      (store buffer (hexDigits bin.toList ++ [0]), some hex)
  hex2bin_returns {n : Nat} (buffer : Vector UInt8 n) (hex : Text) :
    (sodium.hex2bin buffer hex).2 = 0 ↔ ∃ bytes, decode hex = some bytes ∧ bytes.length ≤ n
  hex2bin_writes {n : Nat} (buffer : Vector UInt8 n) (hex : Text) (bytes : List UInt8)
    (hbytes : decode hex = some bytes) (hroom : bytes.length ≤ n) :
      (sodium.hex2bin buffer hex).1 = store buffer bytes

/-- `bin2hex` to an array, which lies at `data` and is not initialised. The error is the message of
`exit_func`. -/
def bin2hex (sodium : Sodium) (data : Pointer) (hex : Vector UInt8 (2 * n + 1))
    (bin : Vector UInt8 n) : Except String (Vector UInt8 (2 * n + 1)) :=
  match sodium.bin2hex data hex bin with
  | (_, some _) => .error "Failed to convert binary to hex"
  | (hex, none) => .ok hex

def bin2hexString (sodium : Sodium) (data : Pointer) (hex : Vector UInt8 (2 * n + 1))
    (bin : Vector UInt8 n) : Except String Text :=
  match sodium.bin2hex data hex bin with
  | (_, none) => .error "Failed to convert binary to hex"
  | (hex, some _) => .ok (hex.toList.take (2 * n))

/-- `bin2hex` into the memory at `dest`. -/
def bin2hexInto {size : Nat} (sodium : Sodium) (bin : Vector UInt8 n) (dest : Pointer)
    (memory : Vector UInt8 size) : Except String (Vector UInt8 size) :=
  match sodium.bin2hex dest memory bin with
  | (_, some _) => .error "Failed to convert binary to hex"
  | (memory, none) => .ok memory

/-- `hex2bin` to an array that is not initialised. -/
def hex2bin (sodium : Sodium) (bin : Vector UInt8 n) (hex : Text) :
    Except String (Vector UInt8 n) :=
  match sodium.hex2bin bin hex with
  | (bin, result) => if result ≠ 0 then .error "Failed to convert hex to binary" else .ok bin

theorem hexValue_hexDigit {d : Nat} (hd : d < 16) : hexValue (hexDigit d) = some d := by
  revert d
  decide

theorem hexDigits_length (bytes : List UInt8) : (hexDigits bytes).length = 2 * bytes.length := by
  induction bytes with
  | nil => rfl
  | cons b bs ih =>
    rw [hexDigits, List.length_cons, List.length_cons, ih, List.length_cons]
    omega

theorem decode_hexDigits (bytes : List UInt8) : decode (hexDigits bytes) = some bytes := by
  induction bytes with
  | nil => rfl
  | cons b bs ih =>
    have hb : b.toNat < 256 := b.toNat_lt
    have hhigh : hexValue (hexDigit (b.toNat / 16)) = some (b.toNat / 16) :=
      hexValue_hexDigit (by omega)
    have hlow : hexValue (hexDigit (b.toNat % 16)) = some (b.toNat % 16) :=
      hexValue_hexDigit (by omega)
    have hbyte : UInt8.ofNat (16 * (b.toNat / 16) + b.toNat % 16) = b := by
      rw [Nat.div_add_mod, UInt8.ofNat_toNat]
    rw [hexDigits, decode, hhigh, hlow, ih]
    exact congrArg (fun c => some (c :: bs)) hbyte

theorem decode_length {hex : Text} {bytes : List UInt8} (h : decode hex = some bytes) :
    hex.length = 2 * bytes.length := by
  induction hex using decode.induct generalizing bytes with
  | case1 =>
    obtain rfl : [] = bytes := Option.some.inj h
    rfl
  | case2 c => cases h
  | case3 c d hex m k hm hk ih =>
    rw [decode, hm, hk, Option.map_eq_some_iff] at h
    obtain ⟨bs, hbs, rfl⟩ := h
    rw [List.length_cons, List.length_cons, ih hbs, List.length_cons]
    omega
  | case4 c d hex hno =>
    rw [decode] at h
    split at h
    · rename_i m k hm hk
      exact absurd hk (hno m k hm)
    · cases h

theorem store_take (buffer : Vector UInt8 n) (bytes rest : List UInt8)
    (h : bytes.length ≤ n) :
    (store buffer (bytes ++ rest)).toList.take bytes.length = bytes := by
  refine List.ext_getElem (by simp [Nat.min_eq_left h]) fun i hi hi' => ?_
  simp [store, List.getElem?_append_left hi', List.getElem?_eq_getElem hi']

theorem store_full {buffer : Vector UInt8 n} (bytes : Vector UInt8 n) :
    store buffer bytes.toList = bytes := by
  ext i hi
  simp [store]

/-- An even number of digits. -/
theorem decode_isSome {hex : Text} : (∃ bytes, decode hex = some bytes) ↔
    hex.length % 2 = 0 ∧ ∀ c ∈ hex, (hexValue c).isSome := by
  induction hex using decode.induct with
  | case1 => simp [decode]
  | case2 c => simp [decode]
  | case3 c d hex m k hm hk ih =>
    simp only [decode, hm, hk, Option.map_eq_some_iff, List.length_cons, List.forall_mem_cons,
      Option.isSome_some, true_and]
    rw [show (hex.length + 1 + 1) % 2 = hex.length % 2 by omega, ← ih]
    constructor
    · rintro ⟨-, bs, hbs, -⟩
      exact ⟨bs, hbs⟩
    · rintro ⟨bs, hbs⟩
      exact ⟨_, bs, hbs, rfl⟩
  | case4 c d hex hno =>
    refine iff_of_false ?_ ?_
    · rintro ⟨bytes, h⟩
      rw [decode] at h
      split at h
      · rename_i m k hm hk
        exact hno m k hm hk
      · cases h
    · rintro ⟨-, hall⟩
      obtain ⟨m, hm⟩ := Option.isSome_iff_exists.mp (hall c (by simp))
      obtain ⟨k, hk⟩ := Option.isSome_iff_exists.mp (hall d (by simp))
      exact hno m k hm hk

theorem hexDigits_lower {bytes : List UInt8} {c : UInt8} (hc : c ∈ hexDigits bytes) :
    48 ≤ c.toNat ∧ c.toNat ≤ 57 ∨ 97 ≤ c.toNat ∧ c.toNat ≤ 102 := by
  have hdigit : ∀ d < 16, 48 ≤ (hexDigit d).toNat ∧ (hexDigit d).toNat ≤ 57 ∨
      97 ≤ (hexDigit d).toNat ∧ (hexDigit d).toNat ≤ 102 := by decide
  induction bytes with
  | nil => simp [hexDigits] at hc
  | cons b bs ih =>
    have hb : b.toNat < 256 := b.toNat_lt
    rw [hexDigits, List.mem_cons, List.mem_cons] at hc
    obtain rfl | rfl | hc := hc
    · exact hdigit _ (by omega)
    · exact hdigit _ (by omega)
    · exact ih hc

namespace Sodium.Documented
variable {sodium : Sodium}

theorem bin2hex_eq (h : sodium.Documented) (data : Pointer) (hex : Vector UInt8 (2 * n + 1))
    (bin : Vector UInt8 n) : Tools.bin2hex sodium data hex bin =
      .error "Failed to convert binary to hex" := by
  rw [Tools.bin2hex, h.bin2hex data hex bin (by omega)]

theorem bin2hexInto_eq (h : sodium.Documented) (bin : Vector UInt8 n) (dest : Pointer)
    (memory : Vector UInt8 (2 * n + 1)) : bin2hexInto sodium bin dest memory =
      .error "Failed to convert binary to hex" := by
  rw [bin2hexInto, h.bin2hex dest memory bin (by omega)]

theorem bin2hexString_eq (h : sodium.Documented) (data : Pointer)
    (hex : Vector UInt8 (2 * n + 1)) (bin : Vector UInt8 n) :
    bin2hexString sodium data hex bin = .ok (hexDigits bin.toList) := by
  have hlen : (hexDigits bin.toList).length = 2 * n := by
    rw [hexDigits_length, Vector.length_toList]
  have htake := store_take hex (hexDigits bin.toList) [0] (by omega)
  rw [hlen] at htake
  rw [bin2hexString, h.bin2hex data hex bin (by omega)]
  exact congrArg Except.ok htake

theorem hex2bin_eq_ok (h : sodium.Documented) {bin out : Vector UInt8 n} {hex : Text} :
    Tools.hex2bin sodium bin hex = .ok out ↔
      ∃ bytes, decode hex = some bytes ∧ bytes.length ≤ n ∧ out = store bin bytes := by
  have hr := h.hex2bin_returns bin hex
  have hw := h.hex2bin_writes bin hex
  rw [Tools.hex2bin]
  generalize sodium.hex2bin bin hex = p at hr hw ⊢
  obtain ⟨written, result⟩ := p
  dsimp only at hr hw ⊢
  constructor
  · intro hok
    by_cases hzero : result = 0
    · obtain ⟨bytes, hbytes, hroom⟩ := hr.mp hzero
      rw [if_neg (not_not_intro hzero)] at hok
      exact ⟨bytes, hbytes, hroom, (Except.ok.inj hok).symm.trans (hw bytes hbytes hroom)⟩
    · rw [if_pos hzero] at hok
      cases hok
  · rintro ⟨bytes, hbytes, hroom, rfl⟩
    rw [if_neg (not_not_intro (hr.mpr ⟨bytes, hbytes, hroom⟩))]
    exact congrArg Except.ok (hw bytes hbytes hroom)

end Sodium.Documented

/-- The three encoders return the same digits of the bytes, these can be decoded, and what is
decoded is always a whole array that only depends on the digits. -/
structure Converts (sodium : Sodium) (b : Vector UInt8 n) : Prop where
  array (data : Pointer) (hex : Vector UInt8 (2 * n + 1)) :
    ∃ out, bin2hex sodium data hex b = .ok out ∧ out.toList.take (2 * n) = hexDigits b.toList
  string (data : Pointer) (hex : Vector UInt8 (2 * n + 1)) :
    bin2hexString sodium data hex b = .ok (hexDigits b.toList)
  memory (dest : Pointer) (memory : Vector UInt8 (2 * n + 1)) :
    ∃ out, bin2hexInto sodium b dest memory = .ok out ∧
      out.toList.take (2 * n) = hexDigits b.toList
  decoded (bin : Vector UInt8 n) : hex2bin sodium bin (hexDigits b.toList) = .ok b
  whole (bin out : Vector UInt8 n) (hex : Text) : hex2bin sodium bin hex = .ok out →
    hex.length = 2 * n ∧ ∀ c ∈ hex, (hexValue c).isSome
  determined (bin bin' : Vector UInt8 n) (hex : Text) :
    hex2bin sodium bin hex = hex2bin sodium bin' hex

/-- Two of the encoders always exit; the third and the decoder convert, but the decoder also takes
the digits of fewer bytes and leaves the rest of the array as it was. -/
theorem hex_conversion_exact (sodium : Sodium)
    (h : sodium.Documented) (b : Vector UInt8 n) :
    ¬ Converts sodium b ∧
    (∀ (data : Pointer) (hex : Vector UInt8 (2 * n + 1)),
      bin2hex sodium data hex b = .error "Failed to convert binary to hex" ∧
      bin2hexInto sodium b data hex = .error "Failed to convert binary to hex" ∧
      bin2hexString sodium data hex b = .ok (hexDigits b.toList)) ∧
    (hexDigits b.toList).length = 2 * n ∧
    (∀ c ∈ hexDigits b.toList, 48 ≤ c.toNat ∧ c.toNat ≤ 57 ∨ 97 ≤ c.toNat ∧ c.toNat ≤ 102) ∧
    ∀ bin : Vector UInt8 n, hex2bin sodium bin (hexDigits b.toList) = .ok b ∧
      ∀ hex : Text, ((∃ out, hex2bin sodium bin hex = .ok out) ↔
          hex.length % 2 = 0 ∧ (∀ c ∈ hex, (hexValue c).isSome) ∧ hex.length ≤ 2 * n) ∧
        ∀ bytes, decode hex = some bytes → bytes.length ≤ n →
          hex2bin sodium bin hex = .ok (store bin bytes) := by
  refine ⟨?_, ?_, ?_, fun c hc => hexDigits_lower hc, fun bin => ⟨?_, fun hex => ⟨?_, ?_⟩⟩⟩
  · intro hc
    obtain ⟨out, hout, -⟩ := hc.array 0 (.replicate _ 0)
    rw [h.bin2hex_eq] at hout
    cases hout
  · exact fun data hex => ⟨h.bin2hex_eq data hex b, h.bin2hexInto_eq b data hex,
      h.bin2hexString_eq data hex b⟩
  · rw [hexDigits_length, Vector.length_toList]
  · exact h.hex2bin_eq_ok.mpr ⟨b.toList, decode_hexDigits _, by simp, (store_full b).symm⟩
  · rw [← and_assoc, ← decode_isSome]
    constructor
    · rintro ⟨out, hout⟩
      obtain ⟨bytes, hbytes, hroom, -⟩ := h.hex2bin_eq_ok.mp hout
      exact ⟨⟨bytes, hbytes⟩, by rw [decode_length hbytes]; omega⟩
    · rintro ⟨⟨bytes, hbytes⟩, hroom⟩
      rw [decode_length hbytes] at hroom
      exact ⟨_, h.hex2bin_eq_ok.mpr ⟨bytes, hbytes, by omega, rfl⟩⟩
  · exact fun bytes hbytes hroom => h.hex2bin_eq_ok.mpr ⟨bytes, hbytes, hroom, rfl⟩

/-- The functions, with a pointer for the destination. -/
def reference : Sodium where
  bin2hex hex buffer bin := (store buffer (hexDigits bin.toList ++ [0]), some hex)
  hex2bin {n} buffer hex :=
    match decode hex with
    | some bytes => if bytes.length ≤ n then (store buffer bytes, 0) else (buffer, -1)
    | none => (buffer, -1)

theorem reference_documented : reference.Documented where
  bin2hex hex buffer bin hroom := rfl
  hex2bin_returns {n} buffer hex := by
    cases hd : decode hex with
    | none => simp [reference, hd]
    | some bytes =>
      by_cases hroom : bytes.length ≤ n <;> simp [reference, hd, hroom]
  hex2bin_writes {n} buffer hex bytes hbytes hroom := by
    simp [reference, hbytes, hroom]

/-- A key of which only the first byte is given. -/
theorem hex_conversion_exact_short :
    ¬ Converts reference #v[171, 205] ∧
      hex2bin reference #v[0, 7] (text "Ab") = .ok #v[171, 7] := by
  obtain ⟨hno, -, -, -, hdecode⟩ :=
    hex_conversion_exact reference reference_documented #v[171, 205]
  refine ⟨hno, ((hdecode #v[0, 7]).2 (text "Ab")).2 [171] (by decide) (by decide)⟩

theorem not_converts :
    ¬ ∀ (n : Nat) (b : Vector UInt8 n), Converts reference b := by
  intro h
  obtain ⟨out, hout, -⟩ := (h 1 #v[171]).array 0 (.replicate 3 0)
  rw [reference_documented.bin2hex_eq] at hout
  cases hout

end MydakServer.Tools
