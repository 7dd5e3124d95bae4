import CHell.Lib.CInt
import Mathlib.Tactic.Linarith
import Mathlib.Tactic.Ring

/-!
# The recursions of `recursion.c` and `recursion_v2.c`

| here | there |
| --- | --- |
| `sum`         | `sum` (`recursion.c:10-15`) |
| `recursionV2` | `recursion_v2` (`recursion_v2.c:3-10`) |

Both add on the way back. `none` is a sum that no `int` can hold: where that comes about is known exactly (`sum_eq`,
`recursionV2_eq`). The stack is as deep as it has to be.
-/

namespace CHell.Functions

open CInt

/-- `a + 1` is at most 100. -/
def sum (a : Int) : Option Int :=
  if a < 100 then do
    let s ← sum (a + 1)
    addInt a s
  else some 0
termination_by (100 - a).toNat

def recursionV2 (x y : Int) : Option Int :=
  if x = 1 then some y
  else if x > 1 then do
    let r ← recursionV2 (x - 1) y
    addInt y r
  else some 0
termination_by x.toNat

/-! ## The sum from `a` to 99 -/

def gauss (a : Int) : Int := (a + 99) * (100 - a) / 2

theorem gauss_succ (a : Int) : gauss a = a + gauss (a + 1) := by
  have hstep : (a + 99) * (100 - a) = (a + 1 + 99) * (100 - (a + 1)) + a * 2 := by ring
  rw [gauss, hstep, Int.add_mul_ediv_right _ _ (by decide), gauss, Int.add_comm]

/-- A square that is too large for the sum to be an `int`, or not. -/
theorem inInt_gauss_iff {a : Int} (h : a < 100) : InInt (gauss a) ↔ -65535 ≤ a := by
  have hsquare : (a + 99) * (100 - a) = 9900 + a - a * a := by ring
  unfold InInt gauss
  rw [hsquare]
  constructor
  · rintro ⟨hlow, -⟩
    by_contra hlt
    have hlarge : 65536 * 65536 ≤ a * a := by nlinarith
    omega
  · intro hle
    have hsmall : a * a ≤ 65535 * 65535 := by nlinarith
    have hpos : 0 ≤ a * a := by nlinarith
    omega

/-- **What `sum` computes, and for what it is too much.** -/
theorem sum_eq (a : Int) :
    sum a = if 100 ≤ a then some 0 else if -65535 ≤ a then some (gauss a) else none := by
  induction hn : (100 - a).toNat generalizing a with
  | zero =>
    rw [sum, if_neg (by omega), if_pos (by omega)]
  | succ n ih =>
    have hlt : a < 100 := by omega
    have hrest := ih (a + 1) (by omega)
    rw [sum, if_pos hlt, if_neg (by omega : ¬ 100 ≤ a), hrest]
    by_cases hend : 100 ≤ a + 1
    · obtain rfl : a = 99 := by omega
      rfl
    · rw [if_neg hend]
      by_cases hfits : -65535 ≤ a
      · have hadd : addInt a (gauss (a + 1)) = some (gauss a) := by
          rw [addInt_eq_some, ← gauss_succ]
          exact ⟨rfl, (inInt_gauss_iff hlt).2 hfits⟩
        rw [if_pos (by omega), if_pos hfits, Option.bind_eq_bind, Option.bind_some, hadd]
      · rw [if_neg hfits]
        by_cases hnext : -65535 ≤ a + 1
        · have hadd : addInt a (gauss (a + 1)) = none := by
            rw [addInt, ← gauss_succ, if_neg ((inInt_gauss_iff hlt).not.2 hfits)]
          rw [if_pos hnext, Option.bind_eq_bind, Option.bind_some, hadd]
        · rw [if_neg hnext]
          rfl

/-! ## The product -/

theorem inInt_of_le_mul {x y : Int} (hx : 1 < x) (h : InInt (x * y)) : InInt ((x - 1) * y) := by
  obtain ⟨hlow, hhigh⟩ := h
  have hsplit : (x - 1) * y = x * y - y := by ring
  rcases Int.le_total 0 y with hy | hy
  · have hpos : 0 ≤ (x - 1) * y := Int.mul_nonneg (by omega) hy
    constructor <;> omega
  · have hneg : (x - 1) * y ≤ 0 := Int.mul_nonpos_of_nonneg_of_nonpos (by omega) hy
    constructor <;> omega

/-- **`recursion_v2` multiplies**, if `x` is positive, and exactly as far as the product is an `int`; otherwise it
is 0. -/
theorem recursionV2_eq (x : Int) {y : Int} (hy : InInt y) :
    recursionV2 x y = if x < 1 then some 0 else if InInt (x * y) then some (x * y) else none := by
  induction hn : x.toNat generalizing x with
  | zero =>
    rw [recursionV2, if_neg (by omega), if_neg (by omega), if_pos (by omega)]
  | succ n ih =>
    rw [if_neg (by omega : ¬ x < 1)]
    by_cases hone : x = 1
    · rw [recursionV2, if_pos hone, hone, Int.one_mul, if_pos hy]
    · have hgt : x > 1 := by omega
      have hrest := ih (x - 1) (by omega)
      have hsplit : y + (x - 1) * y = x * y := by ring
      rw [recursionV2, if_neg hone, if_pos hgt, hrest, if_neg (by omega)]
      by_cases hfits : InInt (x * y)
      · have hadd : addInt y ((x - 1) * y) = some (x * y) := addInt_eq_some.2 ⟨hsplit.symm, hsplit ▸ hfits⟩
        rw [if_pos (inInt_of_le_mul hgt hfits), if_pos hfits, Option.bind_eq_bind, Option.bind_some, hadd]
      · rw [if_neg hfits]
        by_cases hprev : InInt ((x - 1) * y)
        · rw [if_pos hprev, Option.bind_eq_bind, Option.bind_some, addInt, hsplit, if_neg hfits]
        · rw [if_neg hprev]
          rfl

/-- What `main` prints. -/
theorem recursionV2_eq_main :
    recursionV2 3 5 = if (3 : Int) < 1 then some 0 else if InInt (3 * 5) then some (3 * 5) else none :=
  recursionV2_eq 3 (by decide)

end CHell.Functions
