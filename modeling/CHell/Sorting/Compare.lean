import CHell.Lib.CInt
import CHell.Lib.Comparator
import Mathlib.Order.Basic

/-!
# The comparator of `fcn_ptr_v2.c`

| here | there |
| --- | --- |
| `compare` | `compare` (:4), with a subtraction that wraps |
| `main`    | `main` (:8): what is printed, with `qsort` a parameter |

The difference of two `int`s has the sign of their order as long as it is an `int` itself. `compare_sorts_iff` says
for which arrays that is enough, and that it is needed.
-/

namespace CHell.Sorting

open CInt Comparator

/-- A value of type `int`. -/
abbrev Value := {x : Int // InInt x}

def int (x : Int) : Value := ⟨toInt x, inInt_toInt x⟩

def compare (a b : Value) : Int := toInt (a.1 - b.1)

def iarray : List Value := [1, 2, 3, 4, 5, 6, 7, 8, 9].map int

def main (qsort : ComparisonSort Value) : List Value := qsort.sort compare iarray

/-- No two elements are further apart than `INT_MAX`. -/
def Fits (xs : List Value) : Prop := ∀ a ∈ xs, ∀ b ∈ xs, a.1 - b.1 ≤ INT_MAX

instance (xs : List Value) : Decidable (Fits xs) := inferInstanceAs (Decidable (∀ a ∈ xs, ∀ b ∈ xs, _))

/-- Two `int`s that are not equal are less than `2 ^ 32` apart. -/
theorem compare_eq_zero (a b : Value) : compare a b = 0 ↔ a = b := by
  have ha : InInt a.1 := a.2
  have hb : InInt b.1 := b.2
  unfold InInt at ha hb
  unfold compare toInt
  rw [Subtype.ext_iff]
  omega

theorem compare_of_fits {a b : Value} (hab : a.1 - b.1 ≤ INT_MAX) (hba : b.1 - a.1 ≤ INT_MAX) :
    compare a b = a.1 - b.1 := by
  unfold INT_MAX at hab hba
  exact toInt_id ⟨by omega, hab⟩

/-- A difference beyond `INT_MAX` comes out negative. -/
theorem compare_neg {a b : Value} (hab : INT_MAX < a.1 - b.1) : compare a b < 0 := by
  have ha : InInt a.1 := a.2
  have hb : InInt b.1 := b.2
  unfold InInt at ha hb
  unfold INT_MAX at hab
  unfold compare toInt
  omega

theorem signsRight_iff (xs : List Value) : SignsRight compare (elems xs) ↔ Fits xs := by
  constructor
  · intro h a ha b hb
    by_contra hfar
    have hneg := compare_neg (Int.not_le.1 hfar)
    have hlt : a.1 < b.1 := ((h a ha b hb).1).1 hneg
    unfold INT_MAX at hfar
    omega
  · intro h a ha b hb
    have hsub := compare_of_fits (h a ha b hb) (h b hb a ha)
    have hzero := compare_eq_zero a b
    rw [hsub] at hzero ⊢
    refine ⟨?_, hzero, ?_⟩
    · rw [← Subtype.coe_lt_coe]
      omega
    · rw [← Subtype.coe_lt_coe]
      omega

/-- **Which arrays are sorted by `compare`**, whatever the sort: those whose elements are at most `INT_MAX` apart. On
these, and only on these, its signs are right. -/
theorem compare_sorts_iff (xs : List Value) :
    ((∀ qsort : ComparisonSort Value, Ascending (qsort.sort compare xs)) ↔ Fits xs) ∧
      (SignsRight compare (elems xs) ∧ ConsistentOn compare (elems xs) ↔ Fits xs) := by
  have hsorts : (∀ qsort : ComparisonSort Value, Ascending (qsort.sort compare xs)) ↔ SignsRight compare (elems xs) :=
    ascending_iff fun a _ b _ => compare_eq_zero a b
  refine ⟨hsorts.trans (signsRight_iff xs), ?_⟩
  rw [← signsRight_iff xs]
  exact ⟨fun h => h.1, fun h => ⟨h, h.consistentOn⟩⟩

-- what `main` sorts
example : Fits iarray := by decide

/-- **Values far apart**: `INT_MAX` is taken to be less than -1, so that merge sort leaves them so; 0 and `INT_MIN`
are each taken to be less than the other; and of -2000000000, 0 and 2000000000 the last comes before the first. -/
theorem compare_misorders :
    (¬ ∀ (xs : List Value) (qsort : ComparisonSort Value), Ascending (qsort.sort compare xs)) ∧
    (¬ ∀ a b : Value, compare a b < 0 ↔ a < b) ∧ (¬ ∀ a b : Value, compare a b < 0 ↔ 0 < compare b a) ∧
    (¬ ∀ a b c : Value, compare a b < 0 → compare b c < 0 → compare a c < 0) := by
  refine ⟨?_, ?_, ?_, ?_⟩
  · intro hclaim
    have hasc := hclaim [int 2147483647, int (-1)] .mergeSort
    have hleft : ComparisonSort.mergeSort.sort compare [int 2147483647, int (-1)] = [int 2147483647, int (-1)] :=
      List.mergeSort_of_pairwise (by decide)
    rw [hleft] at hasc
    revert hasc
    unfold Ascending
    decide
  · intro hclaim
    exact absurd ((hclaim (int 2147483647) (int (-1))).1 (by decide)) (by decide)
  · intro hclaim
    exact absurd ((hclaim (int 0) (int (-2147483648))).1 (by decide)) (by decide)
  · intro hclaim
    exact absurd (hclaim (int (-2000000000)) (int 0) (int 2000000000) (by decide) (by decide)) (by decide)

end CHell.Sorting
