import Mathlib.Order.Defs.LinearOrder
import Mathlib.Data.Set.Basic
import Mathlib.Data.List.Basic

/-!
# Sorting by a comparator

A comparator says how two elements are ordered by the sign of what it returns. `ConsistentOn cmp s`: on `s`
the signs are those of a total preorder. A `ComparisonSort` sees its elements through the comparator only, and
sorts by every comparator that is consistent; what it does with others is its own business.

* `ComparisonSort.sorts`: being consistent on the elements of the array is enough.
* `ascending_iff`: a comparator that returns 0 on equal elements only makes every comparison sort put an array in
  ascending order if and only if its signs are right on the elements of the array. Where they are wrong,
  merge sort does not, or a sort that leaves alone or reverses what is not consistent.
-/

namespace Comparator

variable {α : Type*}

structure ConsistentOn (cmp : α → α → Int) (s : Set α) : Prop where
  antisymm : ∀ a ∈ s, ∀ b ∈ s, cmp a b < 0 ↔ 0 < cmp b a
  trans : ∀ a ∈ s, ∀ b ∈ s, ∀ c ∈ s, cmp a b ≤ 0 → cmp b c ≤ 0 → cmp a c ≤ 0

abbrev Consistent (cmp : α → α → Int) : Prop := ConsistentOn cmp Set.univ

/-- The elements of an array. -/
def elems (xs : List α) : Set α := {x | x ∈ xs}

/-- In the order the comparator says. -/
def SortedBy (cmp : α → α → Int) (xs : List α) : Prop := xs.Pairwise fun a b => cmp a b ≤ 0

structure ComparisonSort (α : Type*) where
  sort : (α → α → Int) → List α → List α
  /-- The comparator is asked about elements of the array only. -/
  congr : ∀ {cmp cmp' : α → α → Int} {xs : List α}, (∀ a ∈ xs, ∀ b ∈ xs, cmp a b = cmp' a b) →
    sort cmp xs = sort cmp' xs
  perm : ∀ {cmp : α → α → Int} (xs : List α), Consistent cmp → (sort cmp xs).Perm xs
  sorted : ∀ {cmp : α → α → Int} (xs : List α), Consistent cmp → SortedBy cmp (sort cmp xs)

variable {cmp cmp' : α → α → Int} {s t : Set α} {xs : List α}

theorem ConsistentOn.total (h : ConsistentOn cmp s) {a b : α} (ha : a ∈ s) (hb : b ∈ s) :
    cmp a b ≤ 0 ∨ cmp b a ≤ 0 := by
  have hanti := h.antisymm b hb a ha
  omega

theorem ConsistentOn.mono (h : ConsistentOn cmp s) (hts : t ⊆ s) : ConsistentOn cmp t :=
  ⟨fun a ha b hb => h.antisymm a (hts ha) b (hts hb),
    fun a ha b hb c hc => h.trans a (hts ha) b (hts hb) c (hts hc)⟩

/-! ## From the elements of an array to all -/

open Classical in
/-- The elements outside `s` come last, all alike. -/
noncomputable def extend (cmp : α → α → Int) (s : Set α) (a b : α) : Int :=
  if a ∈ s then if b ∈ s then cmp a b else -1
  else if b ∈ s then 1 else 0

theorem extend_of_mem {a b : α} (ha : a ∈ s) (hb : b ∈ s) : extend cmp s a b = cmp a b := by
  rw [extend, if_pos ha, if_pos hb]

theorem ConsistentOn.extend (h : ConsistentOn cmp s) : Consistent (extend cmp s) := by
  constructor
  · intro a _ b _
    unfold Comparator.extend
    by_cases ha : a ∈ s <;> by_cases hb : b ∈ s <;> simp [ha, hb, h.antisymm]
  · intro a _ b _ c _
    unfold Comparator.extend
    by_cases ha : a ∈ s <;> by_cases hb : b ∈ s <;> by_cases hc : c ∈ s <;> simp [ha, hb, hc]
    exact h.trans a ha b hb c hc

namespace ComparisonSort

/-- A sort does not notice that the comparator is consistent on the array only. -/
theorem sort_extend (S : ComparisonSort α) (cmp : α → α → Int) (xs : List α) :
    S.sort cmp xs = S.sort (extend cmp (elems xs)) xs :=
  S.congr fun _ ha _ hb => (extend_of_mem (s := elems xs) ha hb).symm

/-- **A comparison sort sorts any array on whose elements the comparator is consistent.** -/
theorem sorts (S : ComparisonSort α) (h : ConsistentOn cmp (elems xs)) :
    (S.sort cmp xs).Perm xs ∧ SortedBy cmp (S.sort cmp xs) := by
  have hperm : (S.sort cmp xs).Perm xs := by
    rw [S.sort_extend]
    exact S.perm xs h.extend
  refine ⟨hperm, ?_⟩
  have hsorted : SortedBy (extend cmp (elems xs)) (S.sort cmp xs) := by
    rw [S.sort_extend]
    exact S.sorted xs h.extend
  refine hsorted.imp_of_mem ?_
  intro a b ha hb hle
  rwa [extend_of_mem (s := elems xs) (hperm.mem_iff.1 ha) (hperm.mem_iff.1 hb)] at hle

/-! ## Sorts there are -/

/-- Whether `a` may stay in front of `b`. -/
def le (cmp : α → α → Int) (a b : α) : Bool := decide (cmp a b ≤ 0)

theorem mergeSort_congr (h : ∀ a ∈ xs, ∀ b ∈ xs, cmp a b = cmp' a b) :
    xs.mergeSort (le cmp) = xs.mergeSort (le cmp') := by
  have hle : ∀ a ∈ xs, ∀ b ∈ xs, le cmp a b = le cmp' (id a) (id b) := by
    intro a ha b hb
    rw [id, id, le, le, h a ha b hb]
  simpa using List.map_mergeSort hle

theorem mergeSort_sorted (h : Consistent cmp) (xs : List α) : SortedBy cmp (xs.mergeSort (le cmp)) := by
  have htrans : ∀ a b c, le cmp a b → le cmp b c → le cmp a c := by
    intro a b c hab hbc
    rw [le, decide_eq_true_eq] at hab hbc ⊢
    exact h.trans a trivial b trivial c trivial hab hbc
  have htotal : ∀ a b, le cmp a b || le cmp b a := by
    intro a b
    rw [Bool.or_eq_true, le, le, decide_eq_true_eq, decide_eq_true_eq]
    exact h.total trivial trivial
  exact (List.pairwise_mergeSort htrans htotal xs).imp fun hle => of_decide_eq_true hle

def mergeSort : ComparisonSort α where
  sort cmp xs := xs.mergeSort (le cmp)
  congr := mergeSort_congr
  perm xs _ := List.mergeSort_perm xs _
  sorted xs h := mergeSort_sorted h xs

theorem consistentOn_congr (h : ∀ a ∈ xs, ∀ b ∈ xs, cmp a b = cmp' a b) (hcmp : ConsistentOn cmp (elems xs)) :
    ConsistentOn cmp' (elems xs) := by
  constructor
  · intro a ha b hb
    rw [← h a ha b hb, ← h b hb a ha]
    exact hcmp.antisymm a ha b hb
  · intro a ha b hb c hc
    rw [← h a ha b hb, ← h b hb c hc, ← h a ha c hc]
    exact hcmp.trans a ha b hb c hc

open Classical in
/-- Merge sort behind a check of all pairs and triples; `f` says what becomes of an array that fails it. -/
noncomputable def checked (f : List α → List α) : ComparisonSort α where
  sort cmp xs := if ConsistentOn cmp (elems xs) then mergeSort.sort cmp xs else f xs
  congr {cmp cmp' xs} h := by
    have hiff : ConsistentOn cmp (elems xs) ↔ ConsistentOn cmp' (elems xs) :=
      ⟨consistentOn_congr h, consistentOn_congr fun a ha b hb => (h a ha b hb).symm⟩
    simp only [hiff, mergeSort.congr h]
  perm xs h := by
    rw [if_pos (h.mono (Set.subset_univ _))]
    exact mergeSort.perm xs h
  sorted xs h := by
    rw [if_pos (h.mono (Set.subset_univ _))]
    exact mergeSort.sorted xs h

theorem checked_of_not {f : List α → List α} (h : ¬ ConsistentOn cmp (elems xs)) : (checked f).sort cmp xs = f xs :=
  if_neg h

end ComparisonSort

/-! ## Comparators for an order -/

section Order

variable [LinearOrder α]

/-- The comparator tells the three cases apart. -/
def SignsRight (cmp : α → α → Int) (s : Set α) : Prop :=
  ∀ a ∈ s, ∀ b ∈ s, (cmp a b < 0 ↔ a < b) ∧ (cmp a b = 0 ↔ a = b) ∧ (0 < cmp a b ↔ b < a)

def Ascending (xs : List α) : Prop := xs.Pairwise (· ≤ ·)

theorem SignsRight.le_iff (h : SignsRight cmp s) {a b : α} (ha : a ∈ s) (hb : b ∈ s) : cmp a b ≤ 0 ↔ a ≤ b := by
  have hgt := (h a ha b hb).2.2
  rw [← Int.not_lt, hgt, not_lt]

theorem SignsRight.consistentOn (h : SignsRight cmp s) : ConsistentOn cmp s := by
  constructor
  · intro a ha b hb
    rw [(h a ha b hb).1, (h b hb a ha).2.2]
  · intro a ha b hb c hc
    rw [h.le_iff ha hb, h.le_iff hb hc, h.le_iff ha hc]
    exact le_trans

theorem SignsRight.ascending (h : SignsRight cmp (elems xs)) (S : ComparisonSort α) : Ascending (S.sort cmp xs) := by
  obtain ⟨hperm, hsorted⟩ := S.sorts h.consistentOn
  refine hsorted.imp_of_mem ?_
  intro a b ha hb hle
  exact (h.le_iff (hperm.mem_iff.1 ha) (hperm.mem_iff.1 hb)).1 hle

/-- An array that is in order both ways holds one element only. -/
theorem eq_of_ascending_reverse (h : Ascending xs) (hrev : Ascending xs.reverse) {a b : α} (ha : a ∈ xs) (hb : b ∈ xs) :
    a = b := by
  have hall := h.forall_of_forall_of_flip (fun _ _ => le_rfl) (List.pairwise_reverse.1 hrev)
  exact le_antisymm (hall ha hb) (hall hb ha)

/-- If an array is in both orders, they do not contradict each other. -/
theorem le_of_ascending_sortedBy (h : Ascending xs) (hcmp : SortedBy cmp xs) {a b : α} (ha : a ∈ xs) (hb : b ∈ xs)
    (hlt : a < b) : cmp a b ≤ 0 := by
  -- in front of `a` there is nothing greater
  have hfront : xs.Pairwise fun a b => b < a → cmp b a ≤ 0 := h.imp fun hle hgt => absurd hle (not_le.2 hgt)
  have hbehind : xs.Pairwise fun a b => a < b → cmp a b ≤ 0 := by
    refine hcmp.imp ?_
    intro a b hle _
    exact hle
  exact hbehind.forall_of_forall_of_flip (fun c _ hc => absurd hc (lt_irrefl c)) hfront ha hb hlt

/-- **Which comparators put an array in ascending order**, whatever the sort. -/
theorem ascending_iff (heq : ∀ a ∈ xs, ∀ b ∈ xs, cmp a b = 0 ↔ a = b) :
    (∀ S : ComparisonSort α, Ascending (S.sort cmp xs)) ↔ SignsRight cmp (elems xs) := by
  constructor
  · intro hall
    have hcons : ConsistentOn cmp (elems xs) := by
      by_contra hbad
      have hid := hall (.checked id)
      have hrev := hall (.checked List.reverse)
      rw [ComparisonSort.checked_of_not hbad] at hid hrev
      have hzero : ∀ a ∈ xs, ∀ b ∈ xs, cmp a b = 0 := fun a ha b hb =>
        (heq a ha b hb).2 (eq_of_ascending_reverse hid hrev ha hb)
      refine hbad ⟨?_, ?_⟩
      · intro a ha b hb
        rw [hzero a ha b hb, hzero b hb a ha]
      · intro a ha b hb c hc _ _
        rw [hzero a ha c hc]
    obtain ⟨hperm, hsorted⟩ := ComparisonSort.mergeSort.sorts hcons
    have hneg : ∀ a ∈ xs, ∀ b ∈ xs, a < b → cmp a b < 0 := by
      intro a ha b hb hlt
      have hle := le_of_ascending_sortedBy (hall .mergeSort) hsorted (hperm.mem_iff.2 ha) (hperm.mem_iff.2 hb) hlt
      have hne : cmp a b ≠ 0 := fun h0 => ne_of_lt hlt ((heq a ha b hb).1 h0)
      omega
    intro a ha b hb
    rcases lt_trichotomy a b with hlt | rfl | hgt
    · have hab := hneg a ha b hb hlt
      exact ⟨iff_of_true hab hlt, iff_of_false (by omega) (ne_of_lt hlt), iff_of_false (by omega) (lt_asymm hlt)⟩
    · have haa := (heq a ha a hb).2 rfl
      simp [haa]
    · have hba := (hcons.antisymm b hb a ha).1 (hneg b hb a ha hgt)
      exact ⟨iff_of_false (by omega) (lt_asymm hgt), iff_of_false (by omega) (ne_of_gt hgt), iff_of_true hba hgt⟩
  · exact fun h => h.ascending

end Order

end Comparator
