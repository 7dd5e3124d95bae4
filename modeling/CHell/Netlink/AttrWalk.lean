import CHell.Netlink.RouteAttr
import CHell.Netlink.RoutePrint
import Mathlib.Data.List.Induction

/-!
# The walk over attributes

What `parse_rtattr` finds in memory of any content: `Attributes m rta len xs` says that `xs` is the
longest row of well-formed attributes in the `len` bytes from `rta` on, and the table holds the
last one of each type (`parse_rtattr_table`). The walk reads nothing but the headers of these
attributes and of what follows them.
-/

namespace CHell.Netlink

open CInt Memory Records

variable {m : Mem} {max len : Int} {xs : List Attr} {rta o : Nat}

/-- The attribute lies within the `len` bytes from `rta` on. -/
def Attr.Within (rta : Nat) (len : Int) (o : Nat) (x : Attr) : Prop :=
  x.Fits ∧ ((o + x.bytes.length : Nat) : Int) ≤ rta + len

/-- A row of well-formed attributes: each has an `rta_len` of at least 4 and of at most what is left, and
the next one starts at the next multiple of 4. -/
structure Chain (m : Mem) (rta : Nat) (len : Int) (xs : List Attr) : Prop where
  laid : Laid 4 Attr.bytes m rta xs
  within : ∀ p ∈ place 4 Attr.bytes rta xs, p.2.Within rta len p.1

/-- The longest one. -/
structure Attributes (m : Mem) (rta : Nat) (len : Int) (xs : List Attr) : Prop extends Chain m rta len xs where
  longest : ∀ ys, Chain m rta len ys → ys <+: xs

/-! ## One attribute -/

theorem Attr.ext_bytes {x y : Attr} (hx : x.Fits) (hy : y.Fits) (hsx : slice m o x.bytes.length = some x.bytes)
    (hsy : slice m o y.bytes.length = some y.bytes) : x = y := by
  obtain ⟨hlx, htx, hdx⟩ := hx.read hsx
  obtain ⟨hly, hty, hdy⟩ := hy.read hsy
  have hlen : x.data.length = y.data.length := by
    have := Option.some.inj (hlx.symm.trans hly)
    omega
  rw [hlen] at hdx
  cases x
  cases y
  simp_all

/-- At any offset, `RTA_OK` tells whether there is an attribute. -/
theorem rta_ok_cases {left : Int} (hleft : (o : Int) + left ≤ m.length) :
    RTA_OK m o left = some false ∨
      ∃ x : Attr, slice m o x.bytes.length = some x.bytes ∧ x.Fits ∧ (x.bytes.length : Int) ≤ left := by
  by_cases hread : 4 ≤ left
  · obtain ⟨l, hl⟩ := load_isSome m o 2 (by omega)
    by_cases hok : 4 ≤ l ∧ (l : Int) ≤ left
    · obtain ⟨len, hlen, rfl⟩ := load_eq_some.1 hl
      obtain ⟨type, htype⟩ := slice_isSome m (show o + 2 + 2 ≤ m.length by omega)
      obtain ⟨data, hdata⟩ := slice_isSome m (show o + 4 + (ofLE len - 4) ≤ m.length by omega)
      have hlt := load_lt hl
      have hlendata := length_of_slice hdata
      have htypelt := ofLE_lt type
      rw [length_of_slice htype] at htypelt
      have hbytes : (⟨ofLE type, data⟩ : Attr).bytes = len ++ type ++ data := by
        have h1 := toLE_ofLE len
        have h2 := toLE_ofLE type
        rw [length_of_slice hlen] at h1
        rw [length_of_slice htype] at h2
        rw [Attr.bytes, hlendata, h2, show 4 + (ofLE len - 4) = ofLE len by omega, h1]
      refine Or.inr ⟨⟨ofLE type, data⟩, ?_, ⟨htypelt, by simp only [hlendata]; omega⟩, ?_⟩
      · rw [Attr.length_bytes, hbytes, hlendata]
        have hheader := slice_append hlen htype
        exact slice_append hheader hdata
      · rw [Attr.length_bytes, hlendata]
        omega
    · refine Or.inl ?_
      unfold RTA_OK rtaLen
      rw [if_pos hread, hl]
      simp only [Option.map_some, Option.some.injEq, Bool.and_eq_false_iff, decide_eq_false_iff_not]
      omega
  · exact Or.inl (by rw [RTA_OK, if_neg hread])

/-! ## The rows -/

/-- Every memory has its attributes. -/
theorem exists_attributes (m : Mem) (rta : Nat) (len : Int) : ∃ xs, Attributes m rta len xs ∧
    ∀ x : Attr, slice m (rta + span 4 Attr.bytes xs) x.bytes.length = some x.bytes →
      ¬ x.Within rta len (rta + span 4 Attr.bytes xs) := by
  have hpos : ∀ o x, Attr.Within rta len o x → 0 < x.bytes.length := by
    intro o x _
    rw [x.length_bytes]
    omega
  obtain ⟨xs, hlaid, hwithin, hend⟩ := exists_laid (m := m) (a := 4) (by omega) hpos rta
  refine ⟨xs, ⟨⟨hlaid, hwithin⟩, ?_⟩, hend⟩
  intro ys hys
  exact hlaid.prefix_of_full (fun o x y hx hxw hy hyw => Attr.ext_bytes hxw.1 hyw.1 hx hy) hwithin hend hys.laid
    hys.within

theorem Attributes.unique {ys : List Attr} (hx : Attributes m rta len xs) (hy : Attributes m rta len ys) : xs = ys :=
  (hy.longest xs hx.toChain).eq_of_length_le (hx.longest ys hy.toChain).length_le

/-- Where no header fits there is no attribute. -/
theorem Chain.eq_nil (h : Chain m rta len xs) (hlen : len < 4) : xs = [] := by
  cases xs with
  | nil => rfl
  | cons x xs =>
    have hend := (h.within _ List.mem_cons_self).2
    have hbytes := x.length_bytes
    simp only at hend
    omega

theorem attributes_nil (m : Mem) (rta : Nat) (hlen : len < 4) : Attributes m rta len [] := by
  obtain ⟨xs, hxs, -⟩ := exists_attributes m rta len
  obtain rfl := hxs.toChain.eq_nil hlen
  exact hxs

/-- Attributes that fill the bytes are the longest row in them. -/
theorem attributes_of_laid (hfits : ∀ x ∈ xs, x.Fits) (hlaid : Laid 4 Attr.bytes m rta xs) :
    Attributes m rta (span 4 Attr.bytes xs) xs := by
  have hwithin : ∀ p ∈ place 4 Attr.bytes rta xs, p.2.Within rta (span 4 Attr.bytes xs) p.1 := by
    intro p hp
    have hend := end_le_of_mem_place (by omega) hp
    exact ⟨hfits p.2 (mem_of_mem_place hp), by omega⟩
  refine ⟨⟨hlaid, hwithin⟩, ?_⟩
  intro ys hys
  refine hlaid.prefix_of_full (P := Attr.Within rta (span 4 Attr.bytes xs)) ?_ hwithin ?_ hys.laid hys.within
  · intro o x y hx hxw hy hyw
    exact Attr.ext_bytes hxw.1 hyw.1 hx hy
  · intro x _ hx
    have hend := hx.2
    have hlen := x.length_bytes
    omega

/-- Behind the longest row there is nothing that `RTA_OK` accepts. -/
theorem Attributes.rest (h : Attributes m rta len xs) (hlen : (rta : Int) + len ≤ m.length) :
    RTA_OK m (rta + span 4 Attr.bytes xs) ((rta : Int) + len - (rta + span 4 Attr.bytes xs : Nat)) = some false := by
  obtain ⟨ys, hys, hend⟩ := exists_attributes m rta len
  obtain rfl := h.unique hys
  have hleft : ((rta + span 4 Attr.bytes xs : Nat) : Int) +
      ((rta : Int) + len - (rta + span 4 Attr.bytes xs : Nat)) ≤ m.length := by omega
  rcases rta_ok_cases hleft with hrest | ⟨x, hx, hfits, hle⟩
  · exact hrest
  · exact absurd ⟨hfits, by push_cast at hle ⊢; omega⟩ (hend x hx)

/-! ## The walk -/

/-- The table after an attribute at an offset. -/
def enter (max : Int) (tb : Nat → Option Nat) (p : Nat × Attr) : Nat → Option Nat :=
  if (p.2.type : Int) ≤ max then Function.update tb p.2.type (some p.1) else tb

/-- The state of the loop at offset `rta`, with `stop` where the attributes end. -/
def walkAt (stop rta : Nat) (tb : Nat → Option Nat) : AttrWalk :=
  { rta, len := (stop : Int) - rta, tb }

theorem rta_ok_attr {x : Attr} (hx : x.Fits) {stop : Nat} (hs : slice m o x.bytes.length = some x.bytes)
    (hle : o + x.bytes.length ≤ stop) : RTA_OK m o ((stop : Int) - o) = some true := by
  have hlen := x.length_bytes
  unfold RTA_OK
  rw [if_pos (by omega), (hx.read hs).1, Option.map_some, Option.some.injEq, Bool.and_eq_true, decide_eq_true_eq,
    decide_eq_true_eq]
  omega

/-- One round of the loop, at an attribute. -/
theorem parseBody_attr {x : Attr} (hx : x.Fits) {stop : Nat} {tb : Nat → Option Nat}
    (hstop : (stop : Int) - o ≤ INT_MAX) (hs : slice m o x.bytes.length = some x.bytes)
    (hle : o + x.bytes.length ≤ stop) :
    parseBody m max (walkAt stop o tb) =
      .inl (walkAt stop (o + roundUp 4 x.bytes.length) (enter max tb (o, x))) := by
  have hlen := x.length_bytes
  obtain ⟨hl, ht, -⟩ := hx.read hs
  have halign : RTA_ALIGN (4 + x.data.length : Nat) = roundUp 4 x.bytes.length := by
    rw [rta_align_eq (by have := hx.length_lt; omega), hlen]
  have hlt := roundUp_four_lt x.bytes.length
  have hshort : shorten ((stop : Int) - o) (roundUp 4 x.bytes.length) =
      (stop : Int) - (o + roundUp 4 x.bytes.length : Nat) := by
    rw [shorten_eq (by omega) (by omega) (by omega)]
    omega
  unfold parseBody walkAt
  simp only [rta_ok_attr hx hs hle, ht, hl, halign, hshort, Int.toNat_natCast]
  rfl

theorem parseReads_attr {x : Attr} (hx : x.Fits) {stop : Nat} {tb : Nat → Option Nat}
    (hs : slice m o x.bytes.length = some x.bytes) (hle : o + x.bytes.length ≤ stop) :
    parseReads m (walkAt stop o tb) = [(o, 2), (o + 2, 2)] := by
  have hlen := x.length_bytes
  unfold parseReads walkAt
  rw [if_pos (by simp only; omega), if_pos (rta_ok_attr hx hs hle)]

/-- Where `RTA_OK` fails the loop is left. -/
theorem parseBody_rest {s : AttrWalk} (h : RTA_OK m s.rta s.len = some false) :
    parseBody m max s = .inr (some s.tb) := by
  unfold parseBody
  simp only [h]

theorem parseReads_rest {s : AttrWalk} (h : RTA_OK m s.rta s.len = some false) :
    parseReads m s = if 4 ≤ s.len then [(s.rta, 2)] else [] := by
  unfold parseReads
  rw [h]
  rfl

/-- The headers of a row, as the walk reads them. -/
def headerReads (ps : List (Nat × Attr)) : List (Nat × Nat) := ps.flatMap fun p => [(p.1, 2), (p.1 + 2, 2)]

theorem foldl_headerReads (ps : List (Nat × Attr)) (tb : Nat → Option Nat) (reads : List (Nat × Nat)) :
    ps.foldl (fun s p => (enter max s.1 p, s.2 ++ [(p.1, 2), (p.1 + 2, 2)])) (tb, reads) =
      (ps.foldl (enter max) tb, reads ++ headerReads ps) := by
  induction ps generalizing tb reads with
  | nil => simp [headerReads]
  | cons p ps ih =>
    rw [List.foldl_cons, ih]
    simp [headerReads]

/-- The test that ends the walk: `RTA_OK` fails on what is left. -/
theorem parseBody_exit {s : AttrWalk} (h : RTA_OK m s.rta s.len = some false) (reads : List (Nat × Nat)) :
    Loop.Returns (Loop.logged (parseBody m max) (parseReads m)) (s, reads)
      (some s.tb, reads ++ if 4 ≤ s.len then [(s.rta, 2)] else []) := by
  refine .of_exit ?_
  rw [Loop.logged_of_exit (parseBody_rest h), parseReads_rest h]

/-- **The walk over the attributes**: what the table is then, and what has been read. -/
theorem parseBody_returns (h : Attributes m rta len xs) (hint : len ≤ INT_MAX)
    (hlen : (rta : Int) + len ≤ m.length) :
    Loop.Returns (Loop.logged (parseBody m max) (parseReads m)) ({ rta, len, tb := fun _ => none }, [])
      (some ((place 4 Attr.bytes rta xs).foldl (enter max) fun _ => none),
        headerReads (place 4 Attr.bytes rta xs) ++
          if 4 ≤ len - span 4 Attr.bytes xs then [(rta + span 4 Attr.bytes xs, 2)] else []) := by
  have hrest := h.rest hlen
  rw [show (rta : Int) + len - (rta + span 4 Attr.bytes xs : Nat) = len - span 4 Attr.bytes xs by omega] at hrest
  by_cases hneg : len < 0
  · obtain rfl := h.toChain.eq_nil (by omega)
    have hstart : len - ((span 4 Attr.bytes [] : Nat) : Int) = len := by simp
    rw [hstart] at hrest ⊢
    exact parseBody_exit (s := { rta, len, tb := fun _ => none }) hrest []
  · obtain ⟨n, rfl⟩ := Int.eq_ofNat_of_zero_le (Int.not_lt.1 hneg)
    have hstart : ({ rta, len := n, tb := fun _ => none } : AttrWalk) = walkAt (rta + n) rta fun _ => none := by
      simp [walkAt]
    have hround : ∀ p ∈ place 4 Attr.bytes rta xs, ∀ acc : (Nat → Option Nat) × List (Nat × Nat),
        slice m p.1 p.2.bytes.length = some p.2.bytes →
        Loop.logged (parseBody m max) (parseReads m) (walkAt (rta + n) p.1 acc.1, acc.2) =
          .inl (walkAt (rta + n) (p.1 + roundUp 4 p.2.bytes.length) (enter max acc.1 p),
            acc.2 ++ [(p.1, 2), (p.1 + 2, 2)]) := by
      intro p hp acc hs
      obtain ⟨hfits, hle⟩ := h.within p hp
      obtain ⟨k, hk⟩ := aligned_of_mem_place hp
      have hbody : parseBody m max (walkAt (rta + n) p.1 acc.1) =
          .inl (walkAt (rta + n) (p.1 + roundUp 4 p.2.bytes.length) (enter max acc.1 p)) :=
        parseBody_attr hfits (by omega) hs (by omega)
      rw [Loop.logged_of_next hbody, parseReads_attr hfits hs (by omega)]
    rw [hstart]
    refine h.laid.walk (fun o acc => (walkAt (rta + n) o acc.1, acc.2))
      (fun acc p => (enter max acc.1 p, acc.2 ++ [(p.1, 2), (p.1 + 2, 2)])) (fun _ => none, []) hround ?_
    have hleft : (n : Int) - span 4 Attr.bytes xs = ((rta + n : Nat) : Int) - (rta + span 4 Attr.bytes xs : Nat) := by
      omega
    rw [hleft] at hrest ⊢
    rw [foldl_headerReads]
    exact parseBody_exit (s := walkAt (rta + n) (rta + span 4 Attr.bytes xs) _) hrest _

/-- The function: the loop, once the table has a size. -/
theorem parseRtattr_of_returns {tb : Nat → Option Nat} (h0 : 0 ≤ max) (hmax : max < INT_MAX)
    (h : Loop.Returns (parseBody m max) { rta, len, tb := fun _ => none } (some tb)) :
    parseRtattr m max rta len = some tb := by
  have hcount : addInt max 1 = some (max + 1) := by
    unfold INT_MAX at hmax
    exact addInt_eq_some.2 ⟨rfl, by omega, by omega⟩
  unfold parseRtattr
  rw [hcount, Option.bind_eq_bind, Option.bind_some, if_neg (by omega)]
  exact Loop.runLoop_eq_iff.2 h

/-- **What `parse_rtattr` returns.** -/
theorem parseRtattr_attributes (h : Attributes m rta len xs) (hint : len ≤ INT_MAX)
    (hlen : (rta : Int) + len ≤ m.length) (h0 : 0 ≤ max) (hmax : max < INT_MAX) :
    parseRtattr m max rta len = some ((place 4 Attr.bytes rta xs).foldl (enter max) fun _ => none) :=
  parseRtattr_of_returns h0 hmax (parseBody_returns h hint hlen).of_logged

theorem parseRtattr_laid (hfits : ∀ x ∈ xs, x.Fits) (hlaid : Laid 4 Attr.bytes m rta xs)
    (hlen : rta + span 4 Attr.bytes xs ≤ m.length) (hend : ((span 4 Attr.bytes xs : Nat) : Int) ≤ INT_MAX)
    (h0 : 0 ≤ max) (hmax : max < INT_MAX) :
    parseRtattr m max rta (span 4 Attr.bytes xs) =
      some ((place 4 Attr.bytes rta xs).foldl (enter max) fun _ => none) :=
  parseRtattr_attributes (attributes_of_laid hfits hlaid) hend (by omega) h0 hmax

/-! ## The table -/

/-- The last of the placed attributes of type `t`. -/
def lastOfType (t : Nat) (ps : List (Nat × Attr)) : Option (Nat × Attr) :=
  (ps.filter fun p => p.2.type = t).getLast?

theorem mem_of_lastOfType {t : Nat} {ps : List (Nat × Attr)} {p : Nat × Attr} (h : lastOfType t ps = some p) :
    p ∈ ps ∧ p.2.type = t := by
  obtain ⟨hmem, htype⟩ := List.mem_filter.1 (List.mem_of_getLast? h)
  exact ⟨hmem, by simpa using htype⟩

/-- For each type that has an entry, the table holds the last attribute. -/
theorem foldl_enter (ps : List (Nat × Attr)) {t : Nat} (ht : (t : Int) ≤ max) :
    (ps.foldl (enter max) fun _ => none) t = (lastOfType t ps).map Prod.fst := by
  induction ps using List.reverseRecOn with
  | nil => rfl
  | append_singleton ps p ih =>
    rw [List.foldl_append, List.foldl_cons, List.foldl_nil, lastOfType, List.filter_append]
    by_cases hp : p.2.type = t
    · simp [enter, hp, ht]
    · have hne : ((ps.foldl (enter max) fun _ => none) : Nat → Option Nat) t =
          enter max (ps.foldl (enter max) fun _ => none) p t := by
        unfold enter
        split
        · rw [Function.update_of_ne (Ne.symm hp)]
        · rfl
      rw [← hne, ih]
      simp [lastOfType, hp]

/-- A read of one of the two fields of a header: of an attribute, or of what follows the last one,
if a header fits there. -/
def ReadsHeader (rta : Nat) (len : Int) (xs : List Attr) (r : Nat × Nat) : Prop :=
  ∃ o, (o ∈ (place 4 Attr.bytes rta xs).map Prod.fst ∨ o = rta + span 4 Attr.bytes xs) ∧
    (o : Int) + 4 ≤ rta + len ∧ (r = (o, 2) ∨ r = (o + 2, 2))

theorem Chain.readsHeader (h : Chain m rta len xs) {r : Nat × Nat}
    (hr : r ∈ headerReads (place 4 Attr.bytes rta xs)) : ReadsHeader rta len xs r := by
  obtain ⟨p, hp, hr⟩ := List.mem_flatMap.1 hr
  have hle := (h.within p hp).2
  have hlen := p.2.length_bytes
  refine ⟨p.1, Or.inl (List.mem_map_of_mem hp), by omega, ?_⟩
  simpa using hr

/-- **`parse_rtattr` on any bytes.** It terminates; what it reads are headers within the `len` bytes;
the table then holds for each type the last attribute of that type in the longest well-formed row,
`NULL` if there is none; and every entry starts a multiple of 4 behind `rta` and ends within the `len` bytes. -/
theorem parse_rtattr_table (m : Mem) (max len : Int) (rta : Nat) (h0 : 0 ≤ max) (hmax : max < INT_MAX)
    (hint : InInt len) (hlen : (rta : Int) + len ≤ m.length) :
    ∃ tb reads xs, parseRtattr m max rta len = some tb ∧
      Loop.Returns (Loop.logged (parseBody m max) (parseReads m)) ({ rta, len, tb := fun _ => none }, [])
        (some tb, reads) ∧
      (∀ r ∈ reads, ReadsHeader rta len xs r) ∧
      Attributes m rta len xs ∧
      ∀ t : Nat, (t : Int) ≤ max →
        tb t = (lastOfType t (place 4 Attr.bytes rta xs)).map Prod.fst ∧
        ∀ o, tb t = some o → rta ≤ o ∧ (o - rta) % 4 = 0 ∧
          ∃ l, rtaLen m o = some l ∧ 4 ≤ l ∧ ((o + l : Nat) : Int) ≤ rta + len := by
  obtain ⟨xs, hxs, -⟩ := exists_attributes m rta len
  have hle : len ≤ INT_MAX := hint.2
  refine ⟨_, _, xs, parseRtattr_attributes hxs hle hlen h0 hmax, parseBody_returns hxs hle hlen, ?_, hxs, ?_⟩
  · intro r hr
    rcases List.mem_append.1 hr with hr | hr
    · exact hxs.readsHeader hr
    · split at hr
      · exact ⟨_, Or.inr rfl, by omega, Or.inl (List.mem_singleton.1 hr)⟩
      · cases hr
  · intro t ht
    have htb := foldl_enter (place 4 Attr.bytes rta xs) ht
    refine ⟨htb, ?_⟩
    intro o ho
    rw [htb] at ho
    obtain ⟨p, hp, rfl⟩ := Option.map_eq_some_iff.1 ho
    obtain ⟨hmem, -⟩ := mem_of_lastOfType hp
    obtain ⟨k, hk⟩ := aligned_of_mem_place hmem
    obtain ⟨hfits, hend⟩ := hxs.within p hmem
    obtain ⟨hl, -, -⟩ := hfits.read (hxs.laid.slice_of_mem hmem)
    rw [p.2.length_bytes] at hend
    exact ⟨by omega, by omega, _, hl, by omega, hend⟩

/-- An interface, a type beyond `max`, and an attribute that is cut off. -/
def cutAttributes : Mem := [8, 0, 4, 0, 3, 0, 0, 0, 4, 0, 99, 0, 8, 0, 4, 0, 5]

theorem parse_rtattr_table_sample :
    ∃ tb reads xs, parseRtattr cutAttributes 30 0 17 = some tb ∧
      Loop.Returns (Loop.logged (parseBody cutAttributes 30) (parseReads cutAttributes))
        ({ rta := 0, len := 17, tb := fun _ => none }, []) (some tb, reads) ∧
      (∀ r ∈ reads, ReadsHeader 0 17 xs r) ∧ Attributes cutAttributes 0 17 xs := by
  obtain ⟨tb, reads, xs, hparse, hreturns, hreads, hxs, -⟩ :=
    parse_rtattr_table cutAttributes 30 17 0 (by decide) (by decide) (by decide) (by decide)
  exact ⟨tb, reads, xs, hparse, hreturns, hreads, hxs⟩

/-- With `max` at `INT_MAX` the size handed to `memset` overflows, whatever the bytes are. -/
theorem parse_rtattr_int_max :
    ¬ ∀ (m : Mem) (max len : Int) (rta : Nat), 0 ≤ max → max ≤ INT_MAX → InInt len → (rta : Int) + len ≤ m.length →
      ∃ tb, parseRtattr m max rta len = some tb := by
  intro h
  obtain ⟨tb, hparse⟩ := h [] INT_MAX 0 0 (by decide) (by decide) (by decide) (by simp)
  have hcount : addInt INT_MAX 1 = none := by decide
  rw [parseRtattr, hcount] at hparse
  cases hparse

end CHell.Netlink
