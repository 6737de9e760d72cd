/-
# `Ssa.Number.Word` — integers of a fixed width

An integer of a width is kept as its unsigned reading, a number from zero to below the number of
words of that width.
Every operation takes any integers and brings its result back into that range; the signed reading
is recovered where an operation asks for it.
-/

namespace Ssa.Word

/-- How many words of a width there are. -/
def count (w : Nat) : Nat := Nat.pow 2 w

/-- The greatest unsigned number of a width: all digits set. -/
def mask (w : Nat) : Int := count w - 1

/-- The unsigned reading of an integer at a width. -/
def wrap (w : Nat) (v : Int) : Int := v % count w

/-- The signed reading of an integer at a width of one digit or more. -/
def toSigned (w : Nat) (v : Int) : Int :=
  let u := wrap w v
  if count (w - 1) ≤ u then u - count w else u

/-- The least number that the signed reading can give. -/
def signedMin (w : Nat) : Int := -count (w - 1)

/-- The numbers that the signed reading can give. -/
def fitsSigned (w : Nat) (v : Int) : Bool :=
  decide (signedMin w ≤ v) && decide (v < count (w - 1))

/-! ## Digits

Two integers are combined digit by digit over their unsigned readings, so the result is again an
unsigned reading. -/

/-- Combine the digits of two integers at a width. -/
def digitwise (f : Nat → Nat → Nat) (w : Nat) (a b : Int) : Int :=
  f (wrap w a).toNat (wrap w b).toNat

/-- Digits set in both. -/
def and (w : Nat) (a b : Int) : Int := digitwise (· &&& ·) w a b

/-- Digits set in one or both. -/
def or (w : Nat) (a b : Int) : Int := digitwise (· ||| ·) w a b

/-- Digits set in one and not in both. -/
def xor (w : Nat) (a b : Int) : Int := digitwise (· ^^^ ·) w a b

/-- How many digits are set. -/
def popCount (w : Nat) (a : Int) : Int :=
  ((List.range w).filter (fun i => (wrap w a).toNat.testBit i)).length

/-- The octets of an integer, least significant first. -/
def octets : (count : Nat) → Nat → List Nat
  | 0, _ => []
  | count + 1, n => n % 256 :: octets count (n / 256)

/-- The octets of an integer in the opposite order. -/
def swapOctets (w : Nat) (a : Int) : Int :=
  ((octets (w / 8) (wrap w a).toNat).foldl (fun n o => n * 256 + o) 0 : Nat)

/-! ## Shifts -/

/-- An amount by which a word can be shifted: less than the width. -/
def shiftAmount (b : Int) (w : Int) : Option Int :=
  if b < w then some b else none

/-! ## Ranges -/

theorem count_pos (w : Nat) : 0 < count w :=
  Nat.pow_pos (by decide)

theorem wrap_nonneg (w : Nat) (v : Int) : 0 ≤ wrap w v :=
  Int.emod_nonneg _ (by have := count_pos w; omega)

theorem wrap_lt (w : Nat) (v : Int) : wrap w v < count w :=
  Int.emod_lt_of_pos _ (by have := count_pos w; omega)

/-- A number already in range is its own unsigned reading. -/
theorem wrap_of_range {w : Nat} {v : Int} (h : 0 ≤ v) (h' : v < count w) : wrap w v = v :=
  Int.emod_eq_of_lt h h'

@[simp] theorem wrap_wrap (w : Nat) (v : Int) : wrap w (wrap w v) = wrap w v :=
  wrap_of_range (wrap_nonneg w v) (wrap_lt w v)

/-- Where one of the two readings is zero, so is the other. -/
theorem toSigned_eq_zero_iff (w : Nat) (v : Int) : toSigned w v = 0 ↔ wrap w v = 0 := by
  have hhalf := count_pos (w - 1)
  have hlow := wrap_nonneg w v
  have hhigh := wrap_lt w v
  unfold toSigned
  dsimp only
  split <;> omega

end Ssa.Word
