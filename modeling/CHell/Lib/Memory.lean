import Mathlib.Data.List.Basic
import Mathlib.Algebra.Ring.Nat

/-!
# Byte objects

An object of the C program (a struct, an array, a heap block) is the list of its bytes.
Access is *partial*: a load or a store that is not wholly inside the object returns `none`.
Multi-byte integers are little-endian.

The lemmas are of two kinds: what a store leaves at the place it wrote, and what it leaves
everywhere else (`slice_store_of_disjoint`, the frame). `Text` is what a `char *` to a NUL-terminated
object stands for.
-/

namespace Memory

/-- The bytes of one object. -/
abbrev Mem := List UInt8

/-- The `n` bytes at offset `off`. -/
def slice (m : Mem) (off n : Nat) : Option (List UInt8) :=
  if off + n ≤ m.length then some ((m.drop off).take n) else none

/-- Overwrite the bytes at offset `off` with `bs`. -/
def store (m : Mem) (off : Nat) (bs : List UInt8) : Option Mem :=
  if off + bs.length ≤ m.length then some (m.take off ++ bs ++ m.drop (off + bs.length)) else none

/-- Little-endian value of a byte string. -/
def ofLE : List UInt8 → Nat
  | [] => 0
  | b :: bs => b.toNat + 256 * ofLE bs

/-- The low `n` bytes of `v`, least significant first. -/
def toLE : Nat → Nat → List UInt8
  | 0, _ => []
  | n + 1, v => UInt8.ofNat v :: toLE n (v / 256)

/-- Load an unsigned integer of `n` bytes. -/
def load (m : Mem) (off n : Nat) : Option Nat := (slice m off n).map ofLE

/-- `memcpy` of the first `n` bytes of `src` to offset `off` of `m`. -/
def memcpy (m : Mem) (off : Nat) (src : List UInt8) (n : Nat) : Option Mem := do
  let bs ← slice src 0 n
  store m off bs

/-- The text at the start of the object, up to its NUL. -/
def cString (m : Mem) : Option (List UInt8) := if 0 ∈ m then some (m.takeWhile (· ≠ 0)) else none

/-- The bytes in front of a NUL. -/
abbrev Text := {bytes : List UInt8 // 0 ∉ bytes}

/-- `strcmp`, of texts with a NUL behind them: the difference of the first two bytes that are not equal. -/
def strcmp : List UInt8 → List UInt8 → Int
  | [], [] => 0
  | [], b :: _ => 0 - b.toNat
  | a :: _, [] => a.toNat - 0
  | a :: as, b :: bs => if a = b then strcmp as bs else a.toNat - b.toNat

/-! ## Little-endian integers -/

@[simp] theorem length_toLE (n v : Nat) : (toLE n v).length = n := by
  induction n generalizing v with
  | zero => rfl
  | succ n ih => simp [toLE, ih]

theorem ofLE_toLE (n v : Nat) : ofLE (toLE n v) = v % 256 ^ n := by
  induction n generalizing v with
  | zero => simp [toLE, ofLE, Nat.mod_one]
  | succ n ih =>
    have hdiv : v % (256 * 256 ^ n) = v % 256 + 256 * (v / 256 % 256 ^ n) := Nat.mod_mul
    have hlow : (UInt8.ofNat v).toNat = v % 256 := UInt8.toNat_ofNat'
    rw [toLE, ofLE, ih, hlow, Nat.pow_succ, Nat.mul_comm (256 ^ n) 256, hdiv]

theorem ofLE_lt (bs : List UInt8) : ofLE bs < 256 ^ bs.length := by
  induction bs with
  | nil => simp [ofLE]
  | cons b bs ih =>
    have hb : b.toNat < 256 := b.toNat_lt
    simp only [ofLE, List.length_cons, Nat.pow_succ]
    omega

theorem toLE_ofLE (bs : List UInt8) : toLE bs.length (ofLE bs) = bs := by
  induction bs with
  | nil => rfl
  | cons b bs ih =>
    have hb : b.toNat < 256 := b.toNat_lt
    have hlow : UInt8.ofNat (b.toNat + 256 * ofLE bs) = b := by
      apply UInt8.toNat.inj
      rw [UInt8.toNat_ofNat']
      omega
    have hhigh : (b.toNat + 256 * ofLE bs) / 256 = ofLE bs := by omega
    rw [List.length_cons, toLE, ofLE, hlow, hhigh, ih]

/-! ## Slices -/

theorem slice_eq_some {m : Mem} {off n : Nat} {bs : List UInt8} :
    slice m off n = some bs ↔ off + n ≤ m.length ∧ bs = (m.drop off).take n := by
  unfold slice; split
  · simp_all [eq_comm]
  · simp only [reduceCtorEq, false_iff, not_and]; omega

theorem length_of_slice {m : Mem} {off n : Nat} {bs : List UInt8} (h : slice m off n = some bs) :
    bs.length = n := by
  obtain ⟨hle, rfl⟩ := slice_eq_some.1 h
  rw [List.length_take, List.length_drop]; omega

theorem slice_isSome (m : Mem) {off n : Nat} (h : off + n ≤ m.length) :
    ∃ bs, slice m off n = some bs := ⟨_, slice_eq_some.2 ⟨h, rfl⟩⟩

theorem slice_eq_none {m : Mem} {off n : Nat} : slice m off n = none ↔ m.length < off + n := by
  unfold slice; split <;> simp <;> omega

/-- Two slices that meet are one. -/
theorem slice_append {m : Mem} {off n k : Nat} {as bs : List UInt8} (ha : slice m off n = some as)
    (hb : slice m (off + n) k = some bs) : slice m off (n + k) = some (as ++ bs) := by
  obtain ⟨-, rfl⟩ := slice_eq_some.1 ha
  obtain ⟨hle, rfl⟩ := slice_eq_some.1 hb
  refine slice_eq_some.2 ⟨by omega, ?_⟩
  rw [List.take_add, List.drop_drop]

/-- A slice of a slice. -/
theorem slice_slice {m : Mem} {off n o k : Nat} {bs : List UInt8} (h : slice m off n = some bs)
    (hk : o + k ≤ n) : slice m (off + o) k = slice bs o k := by
  have hlen := length_of_slice h
  obtain ⟨hle, rfl⟩ := slice_eq_some.1 h
  have hleft := slice_eq_some.2 ⟨(by omega : off + o + k ≤ m.length), rfl⟩
  have hright := slice_eq_some.2 ⟨(by omega : o + k ≤ ((m.drop off).take n).length), rfl⟩
  rw [hleft, hright, List.drop_take, List.take_take, List.drop_drop, Nat.min_eq_left (by omega)]

theorem load_slice {m : Mem} {off n o k : Nat} {bs : List UInt8} (h : slice m off n = some bs)
    (hk : o + k ≤ n) : load m (off + o) k = load bs o k := by
  rw [load, load, slice_slice h hk]

/-- The front of an object, as an object of its own. -/
theorem slice_take {m : Mem} {off n k : Nat} (h : off + n ≤ k) (hk : k ≤ m.length) :
    slice (m.take k) off n = slice m off n := by
  have hleft := slice_eq_some.2 ⟨(by rw [List.length_take]; omega : off + n ≤ (m.take k).length), rfl⟩
  have hright := slice_eq_some.2 ⟨(by omega : off + n ≤ m.length), rfl⟩
  rw [hleft, hright, List.drop_take, List.take_take, Nat.min_eq_left (by omega)]

theorem slice_front (as bs : List UInt8) : slice (as ++ bs) 0 as.length = some as :=
  slice_eq_some.2 ⟨by simp, by simp⟩

theorem load_isSome (m : Mem) (off n : Nat) (h : off + n ≤ m.length) : ∃ v, load m off n = some v := by
  obtain ⟨bs, hbs⟩ := slice_isSome m h
  exact ⟨ofLE bs, by rw [load, hbs]; rfl⟩

theorem load_eq_some {m : Mem} {off n v : Nat} :
    load m off n = some v ↔ ∃ bs, slice m off n = some bs ∧ ofLE bs = v := by
  simp [load, Option.map_eq_some_iff]

theorem load_lt {m : Mem} {off n v : Nat} (h : load m off n = some v) : v < 256 ^ n := by
  obtain ⟨bs, hbs, rfl⟩ := load_eq_some.1 h
  have := ofLE_lt bs
  rwa [length_of_slice hbs] at this

/-! ## Stores -/

theorem store_eq_some {m m' : Mem} {off : Nat} {bs : List UInt8} :
    store m off bs = some m' ↔
      off + bs.length ≤ m.length ∧ m' = m.take off ++ bs ++ m.drop (off + bs.length) := by
  unfold store; split
  · simp_all [eq_comm]
  · simp only [reduceCtorEq, false_iff, not_and]; omega

theorem store_isSome (m : Mem) (off : Nat) (bs : List UInt8) (h : off + bs.length ≤ m.length) :
    ∃ m', store m off bs = some m' := ⟨_, store_eq_some.2 ⟨h, rfl⟩⟩

theorem length_store {m m' : Mem} {off : Nat} {bs : List UInt8} (h : store m off bs = some m') :
    m'.length = m.length := by
  obtain ⟨hle, rfl⟩ := store_eq_some.1 h
  simp only [List.length_append, List.length_take, List.length_drop]
  omega

/-- A store is read back where it was written. -/
theorem slice_store_self {m m' : Mem} {off : Nat} {bs : List UInt8} (h : store m off bs = some m') :
    slice m' off bs.length = some bs := by
  have hlen := length_store h
  obtain ⟨hle, rfl⟩ := store_eq_some.1 h
  refine slice_eq_some.2 ⟨by omega, ?_⟩
  have htake : (m.take off).length = off := by rw [List.length_take]; omega
  rw [List.append_assoc, List.drop_append_of_le_length (by omega), List.drop_of_length_le (by omega),
    List.nil_append, List.take_append_of_le_length (by omega), List.take_of_length_le (by omega)]

/-- The frame: a store changes no byte outside the ones it writes. -/
theorem slice_store_of_disjoint {m m' : Mem} {off o n : Nat} {bs : List UInt8}
    (h : store m off bs = some m') (hd : o + n ≤ off ∨ off + bs.length ≤ o) :
    slice m' o n = slice m o n := by
  have hlen := length_store h
  obtain ⟨hle, rfl⟩ := store_eq_some.1 h
  have htake : (m.take off).length = off := by rw [List.length_take]; omega
  unfold slice
  rw [hlen]
  split
  · congr 1
    rcases hd with hd | hd
    · rw [List.append_assoc, List.drop_append_of_le_length (by omega),
        List.take_append_of_le_length (by rw [List.length_drop]; omega), List.drop_take,
        List.take_take, Nat.min_eq_left (by omega)]
    · rw [List.drop_append, List.drop_of_length_le (by simp; omega), List.nil_append,
        List.drop_drop]
      congr 2
      simp only [List.length_append, htake]
      omega
  · rfl

theorem load_store_self {m m' : Mem} {off : Nat} {bs : List UInt8} (h : store m off bs = some m') :
    load m' off bs.length = some (ofLE bs) := by
  rw [load, slice_store_self h]; rfl

theorem load_store_of_disjoint {m m' : Mem} {off o n : Nat} {bs : List UInt8}
    (h : store m off bs = some m') (hd : o + n ≤ off ∨ off + bs.length ≤ o) :
    load m' o n = load m o n := by
  rw [load, load, slice_store_of_disjoint h hd]

/-- Storing an integer that fits its width and loading it again. -/
theorem load_store_toLE {m m' : Mem} {off n v : Nat} (h : store m off (toLE n v) = some m')
    (hv : v < 256 ^ n) : load m' off n = some v := by
  have := load_store_self h
  rwa [length_toLE, ofLE_toLE, Nat.mod_eq_of_lt hv] at this

/-- Storing an integer inside the object: what is there afterwards, and what is not touched. -/
theorem store_toLE (m : Mem) (off : Nat) {n v : Nat} (h : off + n ≤ m.length) (hv : v < 256 ^ n) :
    ∃ m', store m off (toLE n v) = some m' ∧ m'.length = m.length ∧ load m' off n = some v ∧
      ∀ o k, o + k ≤ off ∨ off + n ≤ o → load m' o k = load m o k := by
  obtain ⟨m', hm⟩ := store_isSome m off (toLE n v) (by rw [length_toLE]; exact h)
  refine ⟨m', hm, length_store hm, load_store_toLE hm hv, ?_⟩
  intro o k hd
  exact load_store_of_disjoint hm (by rw [length_toLE]; exact hd)

theorem store_append (as bs : List UInt8) {cs : List UInt8} (h : cs.length ≤ bs.length) :
    store (as ++ bs) as.length cs = some (as ++ cs ++ bs.drop cs.length) := by
  refine store_eq_some.2 ⟨by simpa using h, ?_⟩
  rw [List.take_left, List.drop_length_add_append]

theorem cString_append {as : List UInt8} (has : 0 ∉ as) (bs : List UInt8) : cString (as ++ 0 :: bs) = some as := by
  have hpos : ∀ a ∈ as, decide (a ≠ 0) = true := by
    intro a ha
    rw [decide_eq_true_eq]
    rintro rfl
    exact has ha
  rw [cString, if_pos (by simp), List.takeWhile_append_of_pos hpos]
  simp

/-! ## `memcpy` -/

/-- Only the first `n` bytes of the source matter. -/
theorem memcpy_take (m : Mem) (off : Nat) {src : List UInt8} {n : Nat} (h : n ≤ src.length) :
    memcpy m off src n = store m off (src.take n) := by
  unfold memcpy
  rw [slice_eq_some.2 ⟨by omega, rfl⟩]
  rfl

/-- Copying a whole object is one store. -/
theorem memcpy_all (m : Mem) (off : Nat) (src : List UInt8) :
    memcpy m off src src.length = store m off src := by
  unfold memcpy
  rw [slice_eq_some.2 ⟨by omega, rfl⟩]
  simp

/-- Copying more bytes than the source has is an access outside it. -/
theorem memcpy_eq_none {m : Mem} {off n : Nat} {src : List UInt8} (h : src.length < n) :
    memcpy m off src n = none := by
  unfold memcpy
  rw [slice_eq_none.2 (by omega)]
  rfl

/-! ## Texts -/

theorem toNat_ne_zero {b : UInt8} (h : b ≠ 0) : b.toNat ≠ 0 := fun h0 => h (UInt8.toNat_inj.1 h0)

theorem strcmp_eq_zero_iff : ∀ {as bs : List UInt8}, 0 ∉ as → 0 ∉ bs → (strcmp as bs = 0 ↔ as = bs)
  | [], [], _, _ => by simp [strcmp]
  | [], b :: bs, _, hb => by
    have hne := toNat_ne_zero (Ne.symm (List.ne_of_not_mem_cons hb))
    simp only [strcmp, List.nil_eq, reduceCtorEq, iff_false]
    omega
  | a :: as, [], ha, _ => by
    have hne := toNat_ne_zero (Ne.symm (List.ne_of_not_mem_cons ha))
    simp only [strcmp, reduceCtorEq, iff_false]
    omega
  | a :: as, b :: bs, ha, hb => by
    have ih := strcmp_eq_zero_iff (List.not_mem_of_not_mem_cons ha) (List.not_mem_of_not_mem_cons hb)
    rw [strcmp]
    by_cases hab : a = b
    · rw [if_pos hab, ih, hab, List.cons.injEq]
      simp
    · have hne : a.toNat ≠ b.toNat := fun h => hab (UInt8.toNat_inj.1 h)
      rw [if_neg hab, List.cons.injEq]
      simp only [hab, false_and, iff_false]
      omega

/-- `strcmp` tells whether two texts are equal. -/
theorem strcmp_eq_zero (a b : Text) : strcmp a.1 b.1 = 0 ↔ a = b := by
  rw [strcmp_eq_zero_iff a.2 b.2, Subtype.ext_iff]

end Memory
