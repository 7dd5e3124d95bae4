import CHell.Lib.Memory
import CHell.Lib.Loop

/-!
# Padded records in memory

Formats that put records one after the other, each starting at a multiple of `a` bytes from the
first: `Laid a enc m off xs` says that memory `m` holds the encodings `enc x` of the records `xs`
from offset `off` on, and `place` lists the offsets. What the gap between two records holds is
left open, and so is how a record says how long it is.

* `laid_append`, `Laid.frame`: extending a row of records, and what leaves a row alone.
* `exists_laid`, `Laid.prefix_of_full`: the longest row in a memory, whatever it holds.
* `Laid.walk`: a loop that consumes one record a round consumes the row.
-/

namespace Records

open Memory

/-- The next multiple of `a`. -/
def roundUp (a n : Nat) : Nat := (n + a - 1) / a * a

theorem le_roundUp {a : Nat} (ha : 0 < a) (n : Nat) : n ≤ roundUp a n := by
  have hmod := Nat.mod_lt (n + a - 1) ha
  have hdiv := Nat.div_add_mod (n + a - 1) a
  unfold roundUp
  rw [Nat.mul_comm]
  omega

section

variable {α : Type*} (a : Nat) (enc : α → List UInt8)

/-- Bytes a row of records takes, gaps included. -/
def span (xs : List α) : Nat := (xs.map fun x => roundUp a (enc x).length).sum

@[simp] theorem span_nil : span a enc [] = 0 := rfl

@[simp] theorem span_cons (x : α) (xs : List α) :
    span a enc (x :: xs) = roundUp a (enc x).length + span a enc xs := by simp [span]

@[simp] theorem span_append (xs ys : List α) : span a enc (xs ++ ys) = span a enc xs + span a enc ys := by
  simp [span]

/-- The records of a row with the offsets they start at. -/
def place : Nat → List α → List (Nat × α)
  | _, [] => []
  | off, x :: xs => (off, x) :: place (off + roundUp a (enc x).length) xs

/-- Each record lies at its offset. -/
def Laid (m : Mem) : Nat → List α → Prop
  | _, [] => True
  | off, x :: xs => slice m off (enc x).length = some (enc x) ∧ Laid m (off + roundUp a (enc x).length) xs

end

variable {α : Type*} {a off : Nat} {enc : α → List UInt8} {m m' : Mem} {xs ys : List α}

theorem mem_of_mem_place {p : Nat × α} (h : p ∈ place a enc off xs) : p.2 ∈ xs := by
  induction xs generalizing off with
  | nil => cases h
  | cons x xs ih =>
    rcases List.mem_cons.1 h with rfl | h
    · exact List.mem_cons_self
    · exact List.mem_cons_of_mem x (ih h)

theorem exists_mem_place (off : Nat) {x : α} (h : x ∈ xs) : ∃ o, (o, x) ∈ place a enc off xs := by
  induction xs generalizing off with
  | nil => cases h
  | cons y xs ih =>
    rcases List.mem_cons.1 h with rfl | h
    · exact ⟨off, List.mem_cons_self⟩
    · obtain ⟨o, ho⟩ := ih (off + roundUp a (enc y).length) h
      exact ⟨o, List.mem_cons_of_mem _ ho⟩

/-- Where the records of a row can start. -/
theorem aligned_of_mem_place {p : Nat × α} (h : p ∈ place a enc off xs) : ∃ k, p.1 = off + k * a := by
  induction xs generalizing off with
  | nil => cases h
  | cons x xs ih =>
    rcases List.mem_cons.1 h with rfl | h
    · exact ⟨0, by simp⟩
    · obtain ⟨k, hk⟩ := ih h
      refine ⟨((enc x).length + a - 1) / a + k, ?_⟩
      rw [hk, roundUp, Nat.add_mul, Nat.add_assoc]

/-- Where they can end. -/
theorem end_le_of_mem_place (ha : 0 < a) {p : Nat × α} (h : p ∈ place a enc off xs) :
    p.1 + (enc p.2).length ≤ off + span a enc xs := by
  induction xs generalizing off with
  | nil => cases h
  | cons x xs ih =>
    rw [span_cons]
    have hle := le_roundUp ha (enc x).length
    rcases List.mem_cons.1 h with rfl | h
    · simp only
      omega
    · have hend := ih h
      omega

theorem laid_append :
    Laid a enc m off (xs ++ ys) ↔ Laid a enc m off xs ∧ Laid a enc m (off + span a enc xs) ys := by
  induction xs generalizing off with
  | nil => simp [Laid]
  | cons x xs ih => simp only [List.cons_append, Laid, ih, span_cons, Nat.add_assoc, and_assoc]

theorem Laid.slice_of_mem (h : Laid a enc m off xs) {p : Nat × α} (hp : p ∈ place a enc off xs) :
    slice m p.1 (enc p.2).length = some (enc p.2) := by
  induction xs generalizing off with
  | nil => cases hp
  | cons x xs ih =>
    rcases List.mem_cons.1 hp with rfl | hp
    · exact h.1
    · exact ih h.2 hp

/-- The frame: a row stays where nothing between its ends changes. -/
theorem Laid.frame (ha : 0 < a) (h : Laid a enc m off xs)
    (hm : ∀ o n, off ≤ o → o + n ≤ off + span a enc xs → slice m' o n = slice m o n) :
    Laid a enc m' off xs := by
  induction xs generalizing off with
  | nil => trivial
  | cons x xs ih =>
    have hle := le_roundUp ha (enc x).length
    rw [span_cons] at hm
    refine ⟨(hm off _ (Nat.le_refl off) (by omega)).trans h.1, ih h.2 ?_⟩
    intro o n ho hn
    exact hm o n (by omega) (by omega)

/-! ## The longest row

`P o x` says which records count at which offset. -/

section

variable {P : Nat → α → Prop}

/-- Whatever memory holds, it holds a row that nothing follows. -/
theorem exists_laid (ha : 0 < a) (hpos : ∀ o x, P o x → 0 < (enc x).length) (off : Nat) :
    ∃ xs, Laid a enc m off xs ∧ (∀ p ∈ place a enc off xs, P p.1 p.2) ∧
      ∀ x, slice m (off + span a enc xs) (enc x).length = some (enc x) → ¬ P (off + span a enc xs) x := by
  induction hk : m.length - off using Nat.strongRecOn generalizing off with
  | _ k ih =>
    by_cases hrec : ∃ x, slice m off (enc x).length = some (enc x) ∧ P off x
    · obtain ⟨x, hx, hP⟩ := hrec
      have hend := (slice_eq_some.1 hx).1
      have hlen := hpos off x hP
      have hle := le_roundUp ha (enc x).length
      obtain ⟨xs, hlaid, hall, hstop⟩ := ih _ (by omega) (off + roundUp a (enc x).length) rfl
      refine ⟨x :: xs, ⟨hx, hlaid⟩, List.forall_mem_cons.2 ⟨hP, hall⟩, ?_⟩
      rwa [span_cons, ← Nat.add_assoc]
    · exact ⟨[], trivial, by simp [place], fun x hx hP => hrec ⟨x, hx, hP⟩⟩

/-- If an offset has at most one record, every other row is a front part of that one. -/
theorem Laid.prefix_of_full
    (huniq : ∀ o x y, slice m o (enc x).length = some (enc x) → P o x →
      slice m o (enc y).length = some (enc y) → P o y → x = y)
    (hx : Laid a enc m off xs) (hxP : ∀ p ∈ place a enc off xs, P p.1 p.2)
    (hend : ∀ x, slice m (off + span a enc xs) (enc x).length = some (enc x) → ¬ P (off + span a enc xs) x)
    (hy : Laid a enc m off ys) (hyP : ∀ p ∈ place a enc off ys, P p.1 p.2) : ys <+: xs := by
  induction ys generalizing off xs with
  | nil => exact List.nil_prefix
  | cons y ys ih =>
    obtain ⟨hyP0, hyP⟩ := List.forall_mem_cons.1 hyP
    cases xs with
    | nil => exact absurd hyP0 (hend y hy.1)
    | cons x xs =>
      obtain ⟨hxP0, hxP⟩ := List.forall_mem_cons.1 hxP
      obtain rfl := huniq off x y hx.1 hxP0 hy.1 hyP0
      rw [span_cons, ← Nat.add_assoc] at hend
      exact List.prefix_cons_inj x |>.2 (ih hx.2 hxP hend hy.2 hyP)

end

/-! ## Walking over a row -/

/-- **The walk rule.** If each round, at a record of the row, goes on behind that record with
`f` applied to the accumulator, the loop gets behind the whole row with `f` folded over it. -/
theorem Laid.walk {σ ρ β : Type*} {body : σ → σ ⊕ ρ} (state : Nat → β → σ) (f : β → Nat × α → β) (acc : β)
    (h : Laid a enc m off xs)
    (hbody : ∀ p ∈ place a enc off xs, ∀ acc, slice m p.1 (enc p.2).length = some (enc p.2) →
      body (state p.1 acc) = .inl (state (p.1 + roundUp a (enc p.2).length) (f acc p)))
    {v : ρ}
    (hr : Loop.Returns body (state (off + span a enc xs) ((place a enc off xs).foldl f acc)) v) :
    Loop.Returns body (state off acc) v := by
  induction xs generalizing off acc with
  | nil => exact hr
  | cons x xs ih =>
    rw [span_cons, ← Nat.add_assoc] at hr
    obtain ⟨hhead, htail⟩ := List.forall_mem_cons.1 hbody
    exact Loop.Returns.of_next (hhead acc h.1) (ih _ h.2 htail hr)

end Records
