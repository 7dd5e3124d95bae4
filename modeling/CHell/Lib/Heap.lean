import Mathlib.Data.List.Basic

/-!
# A heap of records

The heap knows of every address whether it was handed out and whether it has been freed since. Access
is *partial*: reading, writing or freeing a cell that is not in use is `none`, so a program that is
defined never touches a freed cell. What `malloc` answers is an `Allocator`: any cell not in use, with
any content.

For each operation there is one lemma about its own cell and one, the frame, about all others.
-/

namespace Heap

variable {β : Type*}

/-- A cell that was handed out. -/
inductive Cell (β : Type*)
  | live (b : β)
  | freed
deriving DecidableEq

/-- The cells handed out so far; an address is a place in the list. -/
abbrev Store (β : Type*) := List (Cell β)

/-- `none` is NULL. -/
abbrev Ptr := Option Nat

/-- Read the record at `p`. -/
def get (h : Store β) (p : Ptr) : Option β :=
  match p with
  | none => none
  | some a =>
    match h[a]? with
    | some (.live b) => some b
    | _ => none

/-- Overwrite the record at `p`. -/
def put (h : Store β) (p : Ptr) (b : β) : Option (Store β) :=
  match p with
  | none => none
  | some a =>
    match h[a]? with
    | some (.live _) => some (h.set a (.live b))
    | _ => none

/-- Write a field of the record at `p`. -/
def modify (h : Store β) (p : Ptr) (f : β → β) : Option (Store β) :=
  (get h p).bind fun b => put h p (f b)

/-- `free`; on NULL it does nothing. -/
def free (h : Store β) (p : Ptr) : Option (Store β) :=
  match p with
  | none => some h
  | some a =>
    match h[a]? with
    | some (.live _) => some (h.set a .freed)
    | _ => none

/-- The answers of `malloc`, when it does not fail: an address not in use (new, or freed before), and
what the cell holds. -/
structure Allocator (β : Type*) where
  addr : Store β → Nat
  content : Store β → β
  le : ∀ h, addr h ≤ h.length
  not_live : ∀ h b, h[addr h]? ≠ some (.live b)

/-- The heap after `malloc`. -/
def alloc (m : Allocator β) (h : Store β) : Store β :=
  h.take (m.addr h) ++ .live (m.content h) :: h.drop (m.addr h + 1)

/-! ## Reading after an operation -/

theorem get_eq_some {h : Store β} {p : Ptr} {b : β} :
    get h p = some b ↔ ∃ a, p = some a ∧ h[a]? = some (.live b) := by
  cases p with
  | none => simp [get]
  | some a =>
    simp only [get, Option.some.injEq, exists_eq_left']
    split
    · rename_i c hc
      simp [hc]
    · rename_i hc
      simp only [reduceCtorEq, false_iff]
      exact hc b

theorem get_some_iff {h : Store β} {a : Nat} {b : β} : get h (some a) = some b ↔ h[a]? = some (.live b) := by
  simp [get_eq_some]

@[simp] theorem get_null (h : Store β) : get h none = none := rfl

theorem get_congr {h h' : Store β} {a : Nat} (he : h'[a]? = h[a]?) : get h' (some a) = get h (some a) := by
  simp only [get, he]

theorem put_of_get {h : Store β} {a : Nat} {b : β} (hb : get h (some a) = some b) (b' : β) :
    put h (some a) b' = some (h.set a (.live b')) := by
  rw [get_some_iff] at hb
  simp only [put, hb]

theorem modify_of_get {h : Store β} {a : Nat} {b : β} (hb : get h (some a) = some b) (f : β → β) :
    modify h (some a) f = some (h.set a (.live (f b))) := by
  rw [modify, hb, Option.bind_some, put_of_get hb]

theorem free_of_get {h : Store β} {a : Nat} {b : β} (hb : get h (some a) = some b) :
    free h (some a) = some (h.set a .freed) := by
  rw [get_some_iff] at hb
  simp only [free, hb]

theorem lt_of_get {h : Store β} {a : Nat} {b : β} (hb : get h (some a) = some b) : a < h.length :=
  (List.getElem?_eq_some_iff.1 (get_some_iff.1 hb)).1

theorem get_set_self {h : Store β} {a : Nat} {b : β} (hb : get h (some a) = some b) (b' : β) :
    get (h.set a (.live b')) (some a) = some b' := by
  rw [get_some_iff]
  exact List.getElem?_set_self (lt_of_get hb)

theorem get_set_ne {h : Store β} {a a' : Nat} (c : Cell β) (hne : a' ≠ a) :
    get (h.set a c) (some a') = get h (some a') :=
  get_congr (List.getElem?_set_ne (Ne.symm hne))

/-- A freed cell is not read. -/
theorem get_set_freed (h : Store β) (a : Nat) : get (h.set a .freed) (some a) = none := by
  by_contra hne
  obtain ⟨b, hb⟩ := Option.ne_none_iff_exists'.1 hne
  rw [get_some_iff, List.getElem?_set, if_pos rfl] at hb
  split at hb <;> cases hb

theorem get_alloc_self (m : Allocator β) (h : Store β) : get (alloc m h) (some (m.addr h)) = some (m.content h) := by
  have hle := m.le h
  rw [get_some_iff, alloc, List.getElem?_append_right (by rw [List.length_take]; omega), List.length_take,
    Nat.min_eq_left hle, Nat.sub_self, List.getElem?_cons_zero]

theorem get_alloc_ne (m : Allocator β) {h : Store β} {a : Nat} (hne : a ≠ m.addr h) :
    get (alloc m h) (some a) = get h (some a) := by
  have hle := m.le h
  apply get_congr
  rw [alloc, List.getElem?_append, List.length_take, Nat.min_eq_left hle]
  split
  · rw [List.getElem?_take_of_lt (by omega)]
  · rw [List.getElem?_cons, if_neg (by omega), List.getElem?_drop]
    congr 1
    omega

/-- What is in use is not handed out. -/
theorem ne_addr_of_get {m : Allocator β} {h : Store β} {a : Nat} {b : β} (hb : get h (some a) = some b) :
    a ≠ m.addr h := by
  rintro rfl
  exact m.not_live h b (get_some_iff.1 hb)

/-- The allocator that never hands out a cell again. -/
def bump (b : β) : Allocator β where
  addr h := h.length
  content _ := b
  le _ := Nat.le_refl _
  not_live h b := by simp

end Heap
