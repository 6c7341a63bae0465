import Mathlib.Algebra.Group.Nat.Defs

/-! The mydak protocol: its constants, the greetings a connection reads, and the frame
it queues for the recipient. -/
namespace MydakServer

/-- `std::array<unsigned char, proto::E2E_KEYS_RAW_L>`. -/
abbrev PublicKey := Vector UInt8 32

namespace Proto

def greetingsPrefix : UInt8 := 0x67
def minMessageSize : Nat := 1
def maxMessageSize : Nat := 1024

/-- The byte order of the host. -/
inductive Endian where
  | little | big
  deriving DecidableEq

def byteAt (n i : Nat) : UInt8 := UInt8.ofNat (n / 256 ^ i)

/-- The object representation of a `uint32_t`. -/
def storeUInt32 : Endian → Nat → Vector UInt8 4
  | .little, n => #v[byteAt n 0, byteAt n 1, byteAt n 2, byteAt n 3]
  | .big, n => #v[byteAt n 3, byteAt n 2, byteAt n 1, byteAt n 0]

/-- The `uint32_t` that `memcpy` makes of four bytes. -/
def loadUInt32 : Endian → Vector UInt8 4 → Nat
  | .little, b => b[0].toNat + 256 * (b[1].toNat + 256 * (b[2].toNat + 256 * b[3].toNat))
  | .big, b => b[3].toNat + 256 * (b[2].toNat + 256 * (b[1].toNat + 256 * b[0].toNat))

/-- `std::byteswap` on a `uint32_t`. -/
def byteswap (n : Nat) : Nat := loadUInt32 .little (storeUInt32 .big n)

/-- Why the message loop of `start` breaks. -/
inductive Break where
  | greetingsSymbol
  | messageSize (size : Nat)
  deriving DecidableEq

/-- The size and the recipient in `[0x67][message size][recipient]`. -/
def parseGreetings (native : Endian) (g : Vector UInt8 37) : Except Break (Nat × PublicKey) :=
  if g[0] ≠ greetingsPrefix then .error .greetingsSymbol
  else
    let loaded := loadUInt32 native #v[g[1], g[2], g[3], g[4]]
    let size := if native = .big then byteswap loaded else loaded
    if size < minMessageSize ∨ maxMessageSize < size then .error (.messageSize size)
    else .ok (size, Vector.ofFn fun i : Fin 32 => g[5 + i.val])

/-- `[message size][public key][message]`, with the sender's key. -/
def queuedMessage (native : Endian) (size : Nat) (sender : PublicKey) (message : List UInt8) :
    List UInt8 :=
  let stored := if native ≠ .little then byteswap size else size
  (storeUInt32 native stored).toList ++ sender.toList ++ message

theorem byteAt_load (b₀ b₁ b₂ b₃ : UInt8) :
    byteAt (b₀.toNat + 256 * (b₁.toNat + 256 * (b₂.toNat + 256 * b₃.toNat))) 0 = b₀ ∧
    byteAt (b₀.toNat + 256 * (b₁.toNat + 256 * (b₂.toNat + 256 * b₃.toNat))) 1 = b₁ ∧
    byteAt (b₀.toNat + 256 * (b₁.toNat + 256 * (b₂.toNat + 256 * b₃.toNat))) 2 = b₂ ∧
    byteAt (b₀.toNat + 256 * (b₁.toNat + 256 * (b₂.toNat + 256 * b₃.toNat))) 3 = b₃ := by
  have h₀ := b₀.toNat_lt
  have h₁ := b₁.toNat_lt
  have h₂ := b₂.toNat_lt
  have h₃ := b₃.toNat_lt
  refine ⟨?_, ?_, ?_, ?_⟩ <;> apply UInt8.toNat_inj.mp <;>
    simp only [byteAt, UInt8.toNat_ofNat'] <;> omega

theorem vector_four (b : Vector UInt8 4) : #v[b[0], b[1], b[2], b[3]] = b := by
  ext i hi
  match i, hi with
  | 0, _ | 1, _ | 2, _ | 3, _ => rfl

theorem storeUInt32_loadUInt32 (e : Endian) (b : Vector UInt8 4) :
    storeUInt32 e (loadUInt32 e b) = b := by
  cases e with
  | little =>
    obtain ⟨h₀, h₁, h₂, h₃⟩ := byteAt_load b[0] b[1] b[2] b[3]
    simp only [storeUInt32, loadUInt32, h₀, h₁, h₂, h₃, vector_four]
  | big =>
    obtain ⟨h₀, h₁, h₂, h₃⟩ := byteAt_load b[3] b[2] b[1] b[0]
    simp only [storeUInt32, loadUInt32, h₀, h₁, h₂, h₃, vector_four]

theorem loadUInt32_storeUInt32 (e : Endian) {n : Nat} (h : n < 2 ^ 32) :
    loadUInt32 e (storeUInt32 e n) = n := by
  cases e <;> simp [loadUInt32, storeUInt32, byteAt, UInt8.toNat_ofNat'] <;> omega

/-- The two byte orders are the reverse of each other. -/
theorem storeUInt32_big (n : Nat) : storeUInt32 .big n = (storeUInt32 .little n).reverse := by
  simp [storeUInt32]

theorem loadUInt32_big (b : Vector UInt8 4) : loadUInt32 .big b = loadUInt32 .little b.reverse := by
  simp [loadUInt32]

theorem byteswap_loadUInt32 (b : Vector UInt8 4) :
    byteswap (loadUInt32 .big b) = loadUInt32 .little b := by
  rw [byteswap, storeUInt32_loadUInt32]

theorem storeUInt32_byteswap (n : Nat) : storeUInt32 .big (byteswap n) = storeUInt32 .little n := by
  rw [byteswap, storeUInt32_big n, ← loadUInt32_big, storeUInt32_loadUInt32]

/-- `[0x67][message size][recipient]`, as a client sends it. -/
def greetingsOf (size : Nat) (recipient : PublicKey) : Vector UInt8 37 :=
  ⟨(greetingsPrefix :: ((storeUInt32 .little size).toList ++ recipient.toList)).toArray, by simp⟩

theorem eq_greetingsOf {g : Vector UInt8 37} {size : Nat} {recipient : PublicKey} :
    g = greetingsOf size recipient ↔ g[0] = greetingsPrefix ∧
      #v[g[1], g[2], g[3], g[4]] = storeUInt32 .little size ∧
      (Vector.ofFn fun i : Fin 32 => g[5 + i.val]) = recipient := by
  constructor
  · intro h
    subst h
    refine ⟨rfl, ?_, ?_⟩
    · simp [greetingsOf, vector_four]
    · ext i hi
      simp [greetingsOf, List.getElem_cons]
  · rintro ⟨h₀, hsize, hr⟩
    subst hr
    simp only [greetingsOf, ← hsize, ← h₀]
    ext i hi
    by_cases h₅ : i < 5
    · obtain rfl | rfl | rfl | rfl | rfl : i = 0 ∨ i = 1 ∨ i = 2 ∨ i = 3 ∨ i = 4 := by omega
      all_goals simp
    · obtain ⟨k, rfl⟩ : ∃ k, i = 5 + k := ⟨i - 5, by omega⟩
      simp [List.getElem_cons]

/-- The size in little endian is read on either host. -/
theorem load_native (native : Endian) (b : Vector UInt8 4) :
    (if native = .big then byteswap (loadUInt32 native b) else loadUInt32 native b) =
      loadUInt32 .little b := by
  cases native with
  | little => rfl
  | big => exact byteswap_loadUInt32 b

theorem store_native (native : Endian) (n : Nat) :
    storeUInt32 native (if native ≠ .little then byteswap n else n) = storeUInt32 .little n := by
  cases native with
  | little => rfl
  | big => exact storeUInt32_byteswap n

theorem parseGreetings_eq_ok {native : Endian} {g : Vector UInt8 37} {size : Nat}
    {recipient : PublicKey} : parseGreetings native g = .ok (size, recipient) ↔
      g = greetingsOf size recipient ∧ minMessageSize ≤ size ∧ size ≤ maxMessageSize := by
  rw [eq_greetingsOf]
  unfold parseGreetings
  simp only [load_native]
  constructor
  · intro h
    split at h
    · cases h
    · rename_i h₀
      split at h
      · cases h
      · rename_i hsize
        cases h
        refine ⟨⟨by simpa using h₀, ?_, rfl⟩, by omega, by omega⟩
        rw [storeUInt32_loadUInt32]
  · rintro ⟨⟨h₀, hstore, hr⟩, hmin, hmax⟩
    have hlt : size < 2 ^ 32 := by
      simp only [maxMessageSize] at hmax
      omega
    have hload : loadUInt32 .little #v[g[1], g[2], g[3], g[4]] = size := by
      rw [hstore, loadUInt32_storeUInt32 _ hlt]
    rw [if_neg (by simp [h₀]), hload, if_neg (by omega), hr]

end Proto

/-- A `std::vector<char>` on its way to a recipient. The recipient and the tag, the number
of the frame it was read from, are bookkeeping: no function of the server reads them. A
message stored by an earlier run of the server has no tag. -/
structure Message where
  data : List UInt8
  recipient : PublicKey
  tag : Option Nat
  deriving DecidableEq

end MydakServer
