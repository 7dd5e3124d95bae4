import Mathlib.Data.Nat.Bitwise
import Mathlib.Data.Int.Basic
import Mathlib.Algebra.Ring.Nat

/-!
# C integers

The integer types of an LP64 machine with two's complement (x86-64 gcc). A value of any
integer type is an `Int`; what a type does is its *conversion*, which brings an exact
result back into the type's range. The unsigned conversions are total in C. Signed
arithmetic that leaves its range has no meaning there, so the checked `addInt` returns
`none`; a conversion to a signed type wraps (the documented choice of gcc).
-/

namespace CInt

/-- `INT_MAX` of a 32-bit `int`. -/
def INT_MAX : Int := 2147483647

/-- Conversion to `char`, signed and 8 bits wide. -/
def toChar (x : Int) : Int := (x + 128) % 256 - 128
/-- Conversion to `unsigned char`. -/
def toUChar (x : Int) : Int := x % 256
/-- Conversion to `unsigned short`. -/
def toUShort (x : Int) : Int := x % 65536
/-- Conversion to `int`. -/
def toInt (x : Int) : Int := (x + 2147483648) % 4294967296 - 2147483648
/-- Conversion to `unsigned int`. -/
def toUInt (x : Int) : Int := x % 4294967296
/-- Conversion to `size_t`. -/
def toSize (x : Int) : Int := x % 18446744073709551616

/-- In the range of `int`. -/
def InInt (x : Int) : Prop := -2147483648 ≤ x ∧ x ≤ 2147483647

instance : DecidablePred InInt := fun x => inferInstanceAs (Decidable (_ ≤ x ∧ x ≤ _))

/-- Signed `int` addition; `none` is overflow, which C leaves undefined. -/
def addInt (a b : Int) : Option Int := if InInt (a + b) then some (a + b) else none

theorem inInt_toInt (x : Int) : InInt (toInt x) := by
  unfold InInt toInt; omega

/-! ## Conversions that change nothing -/

theorem toInt_id {x : Int} (h : InInt x) : toInt x = x := by
  unfold InInt at h; unfold toInt; omega

theorem toUInt_id {x : Int} (h0 : 0 ≤ x) (h : x < 4294967296) : toUInt x = x := by
  unfold toUInt; omega

theorem toUShort_id {x : Int} (h0 : 0 ≤ x) (h : x < 65536) : toUShort x = x := by
  unfold toUShort; omega

theorem toSize_id {x : Int} (h0 : 0 ≤ x) (h : x < 18446744073709551616) : toSize x = x := by
  unfold toSize; omega

theorem addInt_eq_some {a b c : Int} : addInt a b = some c ↔ c = a + b ∧ InInt (a + b) := by
  unfold addInt; split <;> simp_all [eq_comm]

/-! ## Alignment by a mask

`((x) + a - 1) & ~(a - 1)` with an unsigned `a`: the usual way to round up to a multiple of
a power of two. -/

/-- `((x) + a - 1) & ~(a - 1)` in `unsigned int`. -/
def alignU (a : Nat) (x : Int) : Int :=
  (((toUInt (x + a - 1)).toNat &&& (4294967295 - (a - 1)) : Nat) : Int)

/-- Masking off the low `k` of `w` bits is rounding down to a multiple of `2 ^ k`. -/
theorem and_highMask {w k x : Nat} (hk : k ≤ w) (hx : x < 2 ^ w) :
    x &&& (2 ^ w - 2 ^ k) = x / 2 ^ k * 2 ^ k := by
  have hmask : 2 ^ w - 2 ^ k = (2 ^ (w - k) - 1) * 2 ^ k := by
    rw [Nat.sub_mul, ← Nat.pow_add, Nat.sub_add_cancel hk, Nat.one_mul]
  apply Nat.eq_of_testBit_eq
  intro i
  rw [hmask, Nat.testBit_and, Nat.testBit_mul_two_pow, Nat.testBit_mul_two_pow,
    Nat.testBit_two_pow_sub_one, Nat.testBit_div_two_pow]
  by_cases hi : k ≤ i
  · have hik : i - k + k = i := by omega
    simp only [hi, decide_true, Bool.true_and, hik]
    by_cases hiw : i < w
    · simp [show i - k < w - k by omega]
    · have hbit : x.testBit i = false :=
        Nat.testBit_lt_two_pow (Nat.lt_of_lt_of_le hx (Nat.pow_le_pow_right (by omega) (by omega)))
      simp [hbit]
  · simp [hi]

/-- Alignment to 4 is rounding up modulo `2 ^ 32`. -/
theorem alignU_four_mod (x : Int) : alignU 4 x = toUInt (x + 3) / 4 * 4 := by
  have hlt : (toUInt (x + (4 : Nat) - 1)).toNat < 2 ^ 32 := by unfold toUInt; omega
  have hmask := and_highMask (show 2 ≤ 32 by omega) hlt
  unfold alignU
  rw [show (4294967295 - (4 - 1) : Nat) = 2 ^ 32 - 2 ^ 2 from rfl, hmask]
  unfold toUInt; omega

/-- So it rounds up exactly as long as the sum stays in `unsigned int`. -/
theorem alignU_four {x : Int} (h0 : 0 ≤ x) (h : x + 3 < 4294967296) :
    alignU 4 x = (x + 3) / 4 * 4 := by
  rw [alignU_four_mod, toUInt_id (by omega) h]

end CInt
