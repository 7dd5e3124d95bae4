import CHell.Netlink.RouteAdd

/-!
# The attributes of a route message

One side of the format: `Carries maxlen m xs` says that the message `m`, in a buffer of `maxlen`
bytes, carries the attributes `xs` behind its headers, up to its `nlmsg_len`. `rtattrAdd_spec` is
all a call of `rtattr_add` can do: refuse and change nothing, or put one attribute at the end.
-/

namespace CHell.Netlink

open CInt Memory Records

/-- A route attribute: a type and a payload. -/
structure Attr where
  type : Nat
  data : List UInt8
deriving DecidableEq

/-- Its bytes in a message. -/
def Attr.bytes (x : Attr) : List UInt8 := toLE 2 (4 + x.data.length) ++ toLE 2 x.type ++ x.data

/-- The type and the length fit their 16-bit fields. -/
structure Attr.Fits (x : Attr) : Prop where
  type_lt : x.type < 65536
  length_lt : 4 + x.data.length < 65536

section

variable {x : Attr}

theorem Attr.length_bytes (x : Attr) : x.bytes.length = 4 + x.data.length := by
  simp [Attr.bytes]; omega

theorem Attr.Fits.load_len (h : x.Fits) : load x.bytes 0 2 = some (4 + x.data.length) := by
  have hfront : slice x.bytes 0 2 = some (toLE 2 (4 + x.data.length)) :=
    slice_eq_some.2 ⟨by rw [x.length_bytes]; omega, by simp [Attr.bytes]⟩
  rw [load, hfront, Option.map_some, ofLE_toLE]
  exact congrArg some (Nat.mod_eq_of_lt h.length_lt)

theorem Attr.Fits.load_type (h : x.Fits) : load x.bytes 2 2 = some x.type := by
  have hmid : slice x.bytes 2 2 = some (toLE 2 x.type) :=
    slice_eq_some.2 ⟨by rw [x.length_bytes]; omega, by simp [Attr.bytes]⟩
  rw [load, hmid, Option.map_some, ofLE_toLE]
  exact congrArg some (Nat.mod_eq_of_lt h.type_lt)

theorem Attr.slice_data (x : Attr) : slice x.bytes 4 x.data.length = some x.data := by
  refine slice_eq_some.2 ⟨by rw [x.length_bytes], ?_⟩
  rw [Attr.bytes, List.drop_append_of_le_length (by simp), List.drop_of_length_le (by simp),
    List.nil_append, List.take_length]

end

/-- What is read at an attribute in a message is what the attribute holds. -/
theorem Attr.Fits.read {x : Attr} (h : x.Fits) {m : Mem} {off : Nat}
    (hs : slice m off x.bytes.length = some x.bytes) :
    rtaLen m off = some (4 + x.data.length) ∧ rtaType m off = some x.type ∧
      slice m (RTA_DATA off) x.data.length = some x.data := by
  have hlen := x.length_bytes
  refine ⟨?_, ?_, ?_⟩
  · exact (load_slice (o := 0) hs (by omega)).trans h.load_len
  · exact (load_slice (o := 2) hs (by omega)).trans h.load_type
  · exact (slice_slice (o := 4) hs (by omega)).trans x.slice_data

/-! ## One call of `rtattr_add` -/

section

variable {n : Mem} {maxlen L type : Nat} {data : List UInt8}

/-- `len` of `rtattr_add`, as the bound test uses it. -/
theorem rta_align_toInt {alen : Nat} (h : (alen : Int) ≤ INT_MAX) :
    RTA_ALIGN (toInt (RTA_LENGTH alen)) = roundUp 4 (4 + alen) := by
  unfold INT_MAX at h
  unfold RTA_ALIGN RTA_LENGTH roundUp
  rw [alignU_four_mod]
  unfold toInt toSize toUInt
  omega

theorem bound_test {alen : Nat} (h : (alen : Int) ≤ INT_MAX) (hmax : maxlen < 65536) (hL : L ≤ maxlen)
    (h4 : L % 4 = 0) :
    toUInt (NLMSG_ALIGN L + RTA_ALIGN (toInt (RTA_LENGTH alen))) > toUInt maxlen ↔
      maxlen < L + roundUp 4 (4 + alen) := by
  have hlt := roundUp_four_lt (4 + alen)
  rw [rta_align_toInt h, nlmsg_align_eq (by omega), roundUp_four_of_mod h4]
  unfold INT_MAX at h
  unfold toUInt
  omega

/-- `rta_len`, through `size_t`, `int` and `unsigned short`. -/
theorem rtaLen_field {alen : Nat} (h : 4 + alen < 65536) :
    (toUShort (toInt (RTA_LENGTH alen))).toNat = 4 + alen := by
  rw [rta_length_eq (by unfold INT_MAX; omega), toInt_id ⟨by omega, by omega⟩,
    toUShort_id (by omega) (by omega), Int.toNat_natCast]

theorem rtaType_field (h : type < 65536) : (toUShort type).toNat = type := by
  rw [toUShort_id (by omega) (by omega), Int.toNat_natCast]

theorem nlmsgTail_eq (h : L < 65536) (h4 : L % 4 = 0) : NLMSG_TAIL L = L := by
  rw [NLMSG_TAIL, nlmsg_align_eq (by omega), roundUp_four_of_mod h4, Int.toNat_natCast]

/-- The new `nlmsg_len`. -/
theorem nlmsgLen_field {alen : Nat} (hL : L < 65536) (h4 : L % 4 = 0) (h : 4 + alen < 65536) :
    (NLMSG_ALIGN (L + RTA_ALIGN (toInt (RTA_LENGTH alen)))).toNat = L + roundUp 4 (4 + alen) := by
  have hmod := roundUp_four_mod (4 + alen)
  have hlt := roundUp_four_lt (4 + alen)
  rw [rta_align_toInt (by unfold INT_MAX; omega), ← Int.natCast_add, nlmsg_align_eq (by omega),
    roundUp_four_of_mod (by omega), Int.toNat_natCast]

/-- An empty payload is not copied, which changes as little as copying it. -/
theorem copyPayload_eq {rta : Nat} (hrta : rta + 4 ≤ n.length) (hdata : data.length < 65536) :
    copyPayload n rta data data.length = store n (rta + 4) data := by
  have hsize : (toSize data.length).toNat = data.length := by
    rw [toSize_id (by omega) (by omega), Int.toNat_natCast]
  rw [copyPayload, hsize, memcpy_all, RTA_DATA]
  split
  · rfl
  · rename_i he
    have hnil : data = [] := List.eq_nil_of_length_eq_zero (by omega)
    rw [hnil]
    exact (store_eq_some.2 ⟨hrta, by simp⟩).symm

/-- A call that does not fit is refused; the message is left alone. -/
theorem rtattrAdd_refused (hmax : maxlen < 65536) (hmsg : nlmsgLen n 0 = some L) (hL : L ≤ maxlen) (h4 : L % 4 = 0)
    (hdata : (data.length : Int) ≤ INT_MAX) (hfull : maxlen < L + roundUp 4 (4 + data.length)) :
    rtattrAdd n maxlen type data data.length = some (n, -1) := by
  have htest := (bound_test hdata hmax hL h4).2 hfull
  unfold rtattrAdd
  rw [hmsg, Option.bind_eq_bind, Option.bind_some, if_pos htest]

/-- What a call of `rtattr_add` that fits leaves behind. -/
structure Added (n : Mem) (L type : Nat) (data : List UInt8) (n' : Mem) : Prop where
  length : n'.length = n.length
  msg : nlmsgLen n' 0 = some (L + roundUp 4 (4 + data.length))
  bytes : slice n' L (4 + data.length) = some (toLE 2 (4 + data.length) ++ toLE 2 type ++ data)
  frame : ∀ o k, 4 ≤ o → o + k ≤ L → slice n' o k = slice n o k

/-- **A call that fits** puts one attribute at the end. -/
theorem rtattrAdd_added (hmax : maxlen < 65536) (hlen : n.length = maxlen) (hmsg : nlmsgLen n 0 = some L)
    (h4 : L % 4 = 0) (hpos : 4 ≤ L) (htype : type < 65536)
    (hfit : L + roundUp 4 (4 + data.length) ≤ maxlen) :
    ∃ n', rtattrAdd n maxlen type data data.length = some (n', 0) ∧ Added n L type data n' := by
  have hup := le_roundUp_four (4 + data.length)
  obtain ⟨n1, h1⟩ := store_isSome n (L + 2) (toLE 2 type)
    (by rw [length_toLE]; omega)
  have hl1 := length_store h1
  obtain ⟨n2, h2⟩ := store_isSome n1 L (toLE 2 (4 + data.length))
    (by rw [length_toLE]; omega)
  have hl2 := length_store h2
  obtain ⟨n3, h3⟩ := store_isSome n2 (L + 4) data (by omega)
  have hl3 := length_store h3
  obtain ⟨n4, h4'⟩ := store_isSome n3 0 (toLE 4 (L + roundUp 4 (4 + data.length)))
    (by rw [length_toLE]; omega)
  have hframe : ∀ o k, 4 ≤ o → o + k ≤ L → slice n4 o k = slice n o k := by
    intro o k ho hk
    rw [slice_store_of_disjoint h4' (by rw [length_toLE]; omega), slice_store_of_disjoint h3 (by omega),
      slice_store_of_disjoint h2 (by omega), slice_store_of_disjoint h1 (by omega)]
  have hmsg3 : nlmsgLen n3 0 = some L := by
    unfold nlmsgLen at *
    rw [load_store_of_disjoint h3 (by omega), load_store_of_disjoint h2 (by omega),
      load_store_of_disjoint h1 (by omega), hmsg]
  have hbytes : slice n4 L (4 + data.length) =
      some (toLE 2 (4 + data.length) ++ toLE 2 type ++ data) := by
    have hlen' : slice n4 L 2 = some (toLE 2 (4 + data.length)) := by
      rw [slice_store_of_disjoint h4' (by rw [length_toLE]; omega), slice_store_of_disjoint h3 (by omega)]
      simpa using slice_store_self h2
    have htype' : slice n4 (L + 2) 2 = some (toLE 2 type) := by
      rw [slice_store_of_disjoint h4' (by rw [length_toLE]; omega), slice_store_of_disjoint h3 (by omega),
        slice_store_of_disjoint h2 (by rw [length_toLE]; omega)]
      simpa using slice_store_self h1
    have hdata' : slice n4 (L + 4) data.length = some data := by
      rw [slice_store_of_disjoint h4' (by rw [length_toLE]; omega)]
      exact slice_store_self h3
    exact slice_append (slice_append hlen' htype') hdata'
  refine ⟨n4, ?_, by rw [length_store h4']; omega, load_store_toLE h4' (by omega), hbytes, hframe⟩
  have hcopy : copyPayload n2 L data data.length = some n3 :=
    (copyPayload_eq (by omega) (by omega)).trans h3
  have hdata : (data.length : Int) ≤ INT_MAX := by unfold INT_MAX; omega
  have htest := (bound_test hdata hmax (by omega : L ≤ maxlen) h4).not.2 (by omega)
  have hL : L < 65536 := by omega
  have halen : 4 + data.length < 65536 := by omega
  unfold rtattrAdd
  rw [hmsg, Option.bind_eq_bind, Option.bind_some, if_neg htest, nlmsgTail_eq hL h4]
  refine Option.bind_eq_some_iff.2 ⟨n1, (rtaType_field htype).symm ▸ h1, ?_⟩
  refine Option.bind_eq_some_iff.2 ⟨n2, (rtaLen_field halen).symm ▸ h2, ?_⟩
  refine Option.bind_eq_some_iff.2 ⟨n3, hcopy, ?_⟩
  refine Option.bind_eq_some_iff.2 ⟨L, hmsg3, ?_⟩
  exact Option.bind_eq_some_iff.2 ⟨n4, (nlmsgLen_field hL h4 halen).symm ▸ h4', rfl⟩

/-- Refusing is the only way to return -1, and it changes nothing. -/
theorem rtattrAdd_unchanged {n n' : Mem} {maxlen type alen : Int} {data : List UInt8}
    (h : rtattrAdd n maxlen type data alen = some (n', -1)) : n' = n := by
  obtain ⟨L, -, h⟩ := Option.bind_eq_some_iff.1 h
  dsimp only at h
  split at h
  · exact (Prod.mk.inj (Option.some.inj h)).1.symm
  · obtain ⟨n1, -, h⟩ := Option.bind_eq_some_iff.1 h
    obtain ⟨n2, -, h⟩ := Option.bind_eq_some_iff.1 h
    obtain ⟨n3, -, h⟩ := Option.bind_eq_some_iff.1 h
    obtain ⟨L', -, h⟩ := Option.bind_eq_some_iff.1 h
    obtain ⟨n4, -, h⟩ := Option.bind_eq_some_iff.1 h
    have hret := (Prod.mk.inj (Option.some.inj h)).2
    omega

end

/-! ## Messages -/

/-- Where the attributes start: `NLMSG_LENGTH(sizeof(struct rtmsg))`. -/
def ATTRS : Nat := 28

/-- The message `m` carries the attributes `xs`, and nothing else, behind its headers. -/
structure Carries (maxlen : Nat) (m : Mem) (xs : List Attr) : Prop where
  length : m.length = maxlen
  msg : nlmsgLen m 0 = some (ATTRS + span 4 Attr.bytes xs)
  le : ATTRS + span 4 Attr.bytes xs ≤ maxlen
  laid : Laid 4 Attr.bytes m ATTRS xs
  fits : ∀ x ∈ xs, x.Fits

theorem span_bytes_mod (xs : List Attr) : span 4 Attr.bytes xs % 4 = 0 := by
  induction xs with
  | nil => rfl
  | cons x xs ih =>
    have hmod := roundUp_four_mod x.bytes.length
    rw [span_cons]
    omega

/-- **One call** on a message that carries `xs`: it is refused and changes nothing, because the
attribute does not fit, or the message carries one more attribute, at its old end, behind the
same headers. -/
theorem rtattrAdd_spec {maxlen : Nat} {m : Mem} {xs : List Attr} (hmax : maxlen < 65536)
    (h : Carries maxlen m xs) {x : Attr} (htype : x.type < 65536) (hdata : (x.data.length : Int) ≤ INT_MAX) :
    (maxlen < ATTRS + span 4 Attr.bytes (xs ++ [x]) ∧
      rtattrAdd m maxlen x.type x.data x.data.length = some (m, -1)) ∨
    (ATTRS + span 4 Attr.bytes (xs ++ [x]) ≤ maxlen ∧ ∃ m',
      rtattrAdd m maxlen x.type x.data x.data.length = some (m', 0) ∧ Carries maxlen m' (xs ++ [x]) ∧
      ∀ o k, 4 ≤ o → o + k ≤ ATTRS → load m' o k = load m o k) := by
  have hmod := span_bytes_mod xs
  have hspan : span 4 Attr.bytes (xs ++ [x]) = span 4 Attr.bytes xs + roundUp 4 (4 + x.data.length) := by
    simp [x.length_bytes]
  have h4 : (ATTRS + span 4 Attr.bytes xs) % 4 = 0 := by unfold ATTRS; omega
  rw [hspan, ← Nat.add_assoc]
  by_cases hfit : ATTRS + span 4 Attr.bytes xs + roundUp 4 (4 + x.data.length) ≤ maxlen
  · right
    have hup := le_roundUp_four (4 + x.data.length)
    obtain ⟨m', hadd, hm'⟩ := rtattrAdd_added hmax h.length h.msg h4 (by unfold ATTRS; omega) htype hfit
    refine ⟨hfit, m', hadd, ⟨by rw [hm'.length, h.length], ?_, ?_, ?_, ?_⟩, ?_⟩
    · rw [hspan, ← Nat.add_assoc]; exact hm'.msg
    · rw [hspan, ← Nat.add_assoc]; exact hfit
    · refine laid_append.2 ⟨h.laid.frame (by omega) ?_, ?_, trivial⟩
      · intro o n ho hn
        exact hm'.frame o n (by unfold ATTRS at ho; omega) hn
      · rw [x.length_bytes]; exact hm'.bytes
    · intro y hy
      rcases List.mem_append.1 hy with hy | hy
      · exact h.fits y hy
      · cases List.mem_singleton.1 hy
        exact ⟨htype, by omega⟩
    · intro o k ho hk
      rw [load, load, hm'.frame o k ho (by omega)]
  · left
    refine ⟨by omega, rtattrAdd_refused hmax h.msg h.le h4 hdata (by omega)⟩

/-- A call that fits is not refused. -/
theorem rtattrAdd_accepts {maxlen : Nat} {m : Mem} {xs : List Attr} (hmax : maxlen < 65536)
    (h : Carries maxlen m xs) {x : Attr} (htype : x.type < 65536)
    (hfit : ATTRS + span 4 Attr.bytes (xs ++ [x]) ≤ maxlen) :
    ∃ m', rtattrAdd m maxlen x.type x.data x.data.length = some (m', 0) ∧ Carries maxlen m' (xs ++ [x]) ∧
      ∀ o k, 4 ≤ o → o + k ≤ ATTRS → load m' o k = load m o k := by
  have hdata : (x.data.length : Int) ≤ INT_MAX := by
    have hup := le_roundUp_four (4 + x.data.length)
    simp only [span_append, span_cons, span_nil, x.length_bytes] at hfit
    unfold INT_MAX
    omega
  rcases rtattrAdd_spec hmax h htype hdata with ⟨hfull, -⟩ | ⟨-, hadd⟩
  · omega
  · exact hadd

/-- The attributes are still there in the first `nlmsg_len` bytes alone. -/
theorem Carries.laid_take {maxlen : Nat} {m : Mem} {xs : List Attr} (h : Carries maxlen m xs) :
    Laid 4 Attr.bytes (m.take (ATTRS + span 4 Attr.bytes xs)) ATTRS xs := by
  have hle := h.le
  have hlen := h.length
  exact h.laid.frame (by omega) fun o n _ hn => slice_take hn (by omega)

end CHell.Netlink
