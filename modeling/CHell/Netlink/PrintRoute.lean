import CHell.Lib.Traced
import CHell.Netlink.AttrWalk
import CHell.Netlink.DumpWalk

/-!
# Printing one route, `network/route_print.c`

| here | there |
| --- | --- |
| `rtmGetTable` | `rtm_get_table` (:85-94) |
| `printRoute`  | `print_route` (:96-148), in three parts: `printSelected` begins behind the call of `rtm_get_table` (:115), `printAttrs` behind the destination (:130) |

The trace has the payload bytes that are read, each with the attribute they belong to, and what
`printf` is given. A read outside the memory ends the trace. The text `inet_ntop` makes of an address
and the name `if_indextoname` finds are left as what they are of; neither has a line break in it.

`print_route` looks at no `rta_len`. `print_route_reads_iff` says for which messages it stays within
the attributes all the same, and `printRoute_spec` what it prints for these.
-/

namespace CHell.Netlink

open CInt Memory Records Traced

def RTA_SRC : Nat := 2
def RTA_GATEWAY : Nat := 5
def RTA_TABLE : Nat := 15
def RTA_MAX : Int := 30

/-- What one `printf` prints. An address is `none` where `inet_ntop` returns `NULL`. -/
inductive Piece
  /-- `"%s/%u "` -/
  | dst (addr : Option (List UInt8)) (dst_len : Nat)
  /-- `"0/%u "` -/
  | zero (dst_len : Nat)
  /-- `"default "` -/
  | default
  /-- `"via %s"` -/
  | via (addr : Option (List UInt8))
  /-- `" dev %s"` -/
  | dev (ifidx : Int)
  /-- `"src %s"` -/
  | src (addr : Option (List UInt8))
  /-- `"\n"` -/
  | newline
deriving DecidableEq

inductive RouteEvent
  /-- The first `n` bytes of the payload of the attribute at `rta` are read. -/
  | read (rta n : Nat)
  | print (piece : Piece)

def RouteEvent.piece : RouteEvent → Option Piece
  | .read _ _ => none
  | .print piece => some piece

def readPayload (m : Mem) (rta n : Nat) : Traced RouteEvent (List UInt8) :=
  ⟨[.read rta n], slice m (RTA_DATA rta) n⟩

/-- Bytes of an address; another family is not known to `inet_ntop`. -/
def addrSize (family : Nat) : Option Nat :=
  if family = AF_INET then some 4 else if family = AF_INET6 then some 16 else none

def inetNtop (m : Mem) (family rta : Nat) : Traced RouteEvent (Option (List UInt8)) :=
  match addrSize family with
  | some n => do
    let addr ← readPayload m rta n
    pure (some addr)
  | none => pure none

def rtmGetTable (m : Mem) (r : Nat) (tb : Nat → Option Nat) : Traced RouteEvent Int := do
  let table ← lift (rtmTable m r)
  match tb RTA_TABLE with
  | some rta => do
    let table ← readPayload m rta 4
    pure (toInt (ofLE table))
  | none => pure (toInt table)

def printAttrs (m : Mem) (family : Nat) (tb : Nat → Option Nat) : Traced RouteEvent PUnit := do
  ifPresent (tb RTA_GATEWAY) fun rta => do
    let addr ← inetNtop m family rta
    emit (.print (.via addr))
  ifPresent (tb RTA_OIF) fun rta => do
    let ifidx ← readPayload m rta 4
    emit (.print (.dev (toInt (ofLE ifidx))))
  ifPresent (tb RTA_SRC) fun rta => do
    let addr ← inetNtop m family rta
    emit (.print (.src addr))
  emit (.print .newline)

/-- What is done once the table is known. -/
def printSelected (m : Mem) (r : Nat) (tb : Nat → Option Nat) (table : Int) : Traced RouteEvent PUnit := do
  let family ← lift (rtmFamily m r)
  if family ≠ AF_INET ∧ table ≠ RT_TABLE_MAIN then pure ⟨⟩
  else do
    let dst_len ← lift (rtmDstLen m r)
    match tb RTA_DST with
    | some rta =>
      if dst_len ≠ 24 ∧ dst_len ≠ 16 then pure ⟨⟩
      else do
        let addr ← inetNtop m family rta
        emit (.print (.dst addr dst_len))
        printAttrs m family tb
    | none => do
      emit (.print (if dst_len ≠ 0 then .zero dst_len else .default))
      printAttrs m family tb

/-- `len` after `len -= NLMSG_LENGTH(sizeof(*r))`: through `size_t` back to `int`. -/
def routeLen (nlmsg_len : Nat) : Int := toInt (toSize (toSize (toInt nlmsg_len) - 28))

/-- The message has its header at offset `h`. -/
def printRoute (m : Mem) (h : Nat) : Traced RouteEvent PUnit := do
  let nlmsg_len ← lift (nlmsgLen m h)
  if routeLen nlmsg_len < 0 then pure ⟨⟩ -- "Wrong message length"
  else do
    let tb ← lift (parseRtattr m RTA_MAX (h + 28) (routeLen nlmsg_len))
    let table ← rtmGetTable m (h + NLMSG_HDRLEN) tb
    printSelected m (h + NLMSG_HDRLEN) tb table

/-! ## What a message says -/

def Msg.family (x : Msg) : Nat := (rtmFamily x.bytes 16).getD 0
def Msg.dstLen (x : Msg) : Nat := (rtmDstLen x.bytes 16).getD 0

/-- The attribute that counts, of those of one type. -/
def lastAttr (t : Nat) (ys : List Attr) : Option Attr := (ys.filter fun y => y.type = t).getLast?

/-- The payload of `RTA_TABLE` where there is one, otherwise `rtm_table`. -/
def Msg.table (x : Msg) (ys : List Attr) : Nat :=
  match lastAttr RTA_TABLE ys with
  | some y => ofLE (y.data.take 4)
  | none => (rtmTable x.bytes 16).getD 0

/-- There is no destination, or its prefix length is 24 or 16. -/
def Msg.DstShown (x : Msg) (ys : List Attr) : Prop :=
  lastAttr RTA_DST ys = none ∨ x.dstLen = 24 ∨ x.dstLen = 16

instance (x : Msg) (ys : List Attr) : Decidable (x.DstShown ys) := inferInstanceAs (Decidable (_ ∨ _ ∨ _))

/-- What `print_route` prints a line for. -/
def Msg.Shown (x : Msg) (ys : List Attr) : Prop :=
  28 ≤ x.bytes.length ∧ (x.family = AF_INET ∨ x.table ys = RT_TABLE_MAIN) ∧ x.DstShown ys

instance (x : Msg) (ys : List Attr) : Decidable (x.Shown ys) := inferInstanceAs (Decidable (_ ∧ _ ∧ _))

/-- The attribute of this type that counts, if there is one, has a payload of at least `n` bytes. -/
def Holds (ys : List Attr) (t n : Nat) : Prop := ∀ y ∈ lastAttr t ys, n ≤ y.data.length

/-- Likewise for an address. -/
def HoldsAddr (ys : List Attr) (t family : Nat) : Prop :=
  ∀ y ∈ lastAttr t ys, ∀ n ∈ addrSize family, n ≤ y.data.length

/-- The payloads `print_route` reads are there. -/
def Msg.Sized (x : Msg) (ys : List Attr) : Prop :=
  Holds ys RTA_TABLE 4 ∧ (x.Shown ys → HoldsAddr ys RTA_DST x.family ∧ HoldsAddr ys RTA_GATEWAY x.family ∧
    Holds ys RTA_OIF 4 ∧ HoldsAddr ys RTA_SRC x.family)

def addrOf (family : Nat) (y : Attr) : Option (List UInt8) := (addrSize family).map y.data.take

/-- What `f` makes of the attribute of type `t` that counts. -/
def pieceOf (t : Nat) (ys : List Attr) (f : Attr → Piece) : List Piece := ((lastAttr t ys).map f).toList

/-- The line for a message. -/
def Msg.line (x : Msg) (ys : List Attr) : List Piece :=
  (match lastAttr RTA_DST ys with
    | some y => Piece.dst (addrOf x.family y) x.dstLen
    | none => if x.dstLen ≠ 0 then .zero x.dstLen else .default) ::
  (pieceOf RTA_GATEWAY ys (fun y => .via (addrOf x.family y)) ++
    (pieceOf RTA_OIF ys (fun y => .dev (toInt (ofLE (y.data.take 4)))) ++
      (pieceOf RTA_SRC ys (fun y => .src (addrOf x.family y)) ++ [.newline])))

/-- A read within its attribute, which ends at `stop` or before. -/
def Inside (m : Mem) (stop : Nat) : RouteEvent → Prop
  | .read rta n => ∃ l, rtaLen m rta = some l ∧ 4 + n ≤ l ∧ rta + l ≤ stop
  | .print _ => True

/-! ## Reading payloads -/

section Payload

variable {m : Mem} {rta stop : Nat} {len : Int} {ys : List Attr} {p : Nat × Attr}

theorem readPayload_spec (hys : Chain m rta len ys) (hstop : (rta : Int) + len = stop)
    (hp : p ∈ place 4 Attr.bytes rta ys) (n : Nat) :
    Spec (Inside m stop) RouteEvent.piece (readPayload m p.1 n) (n ≤ p.2.data.length) [] (p.2.data.take n) := by
  obtain ⟨hfits, hend⟩ := hys.within p hp
  obtain ⟨hl, -, hdata⟩ := hfits.read (hys.laid.slice_of_mem hp)
  rw [p.2.length_bytes] at hend
  refine ⟨?_, fun hn => ?_, fun _ => rfl⟩
  · simp only [All, readPayload, List.forall_mem_singleton, Inside, hl, Option.some.injEq, exists_eq_left']
    omega
  · have hfront : slice p.2.data 0 n = some (p.2.data.take n) := slice_eq_some.2 ⟨by omega, rfl⟩
    exact (slice_slice (o := 0) hdata (by omega)).trans hfront

theorem inetNtop_spec (hys : Chain m rta len ys) (hstop : (rta : Int) + len = stop)
    (hp : p ∈ place 4 Attr.bytes rta ys) (family : Nat) :
    Spec (Inside m stop) RouteEvent.piece (inetNtop m family p.1) (∀ n ∈ addrSize family, n ≤ p.2.data.length) []
      (addrOf family p.2) := by
  unfold inetNtop addrOf
  cases addrSize family with
  | none => exact (Spec.pure none).congr (by simp)
  | some n =>
    have hread := (readPayload_spec hys hstop hp n).bind (f := fun addr => pure (some addr)) (Spec.pure _)
    exact hread.congr (by simp)

/-- The table entry of a type and the attribute that counts belong together. -/
theorem tb_lookup (rta : Nat) (ys : List Attr) {max : Int} {t : Nat} (ht : (t : Int) ≤ max) :
    ((place 4 Attr.bytes rta ys).foldl (enter max) fun _ => none) t = none ∧ lastAttr t ys = none ∨
      ∃ p ∈ place 4 Attr.bytes rta ys,
        ((place 4 Attr.bytes rta ys).foldl (enter max) fun _ => none) t = some p.1 ∧ lastAttr t ys = some p.2 := by
  have hsnd : (place 4 Attr.bytes rta ys).map Prod.snd = ys := by
    generalize rta = o
    induction ys generalizing o with
    | nil => rfl
    | cons y ys ih => rw [place, List.map_cons, ih]
  have hlast : lastAttr t ys = (lastOfType t (place 4 Attr.bytes rta ys)).map Prod.snd := by
    unfold lastOfType lastAttr
    rw [← List.getLast?_map]
    conv_lhs => rw [← hsnd, List.filter_map]
    rfl
  rw [foldl_enter _ ht, hlast]
  cases hp : lastOfType t (place 4 Attr.bytes rta ys) with
  | none => exact Or.inl ⟨rfl, rfl⟩
  | some p => exact Or.inr ⟨p, (mem_of_lastOfType hp).1, rfl, rfl⟩

theorem ifPresent_spec {t : Nat} (ht : (t : Int) ≤ RTA_MAX) {f : Nat → Traced RouteEvent PUnit}
    {c : Attr → Prop} {g : Attr → Piece}
    (hf : ∀ p ∈ place 4 Attr.bytes rta ys, Spec (Inside m stop) RouteEvent.piece (f p.1) (c p.2) [g p.2] ⟨⟩) :
    Spec (Inside m stop) RouteEvent.piece
      (ifPresent (((place 4 Attr.bytes rta ys).foldl (enter RTA_MAX) fun _ => none) t) f)
      (∀ y ∈ lastAttr t ys, c y) (pieceOf t ys g) ⟨⟩ := by
  unfold pieceOf
  rcases tb_lookup rta ys ht with ⟨htb, hlast⟩ | ⟨p, hp, htb, hlast⟩
  · rw [htb, hlast]
    exact (Spec.pure PUnit.unit).congr (by simp)
  · rw [htb, hlast]
    exact (hf p hp).congr (by simp)

/-- Printing an address attribute. -/
theorem printAddr_spec (hys : Chain m rta len ys) (hstop : (rta : Int) + len = stop) (family : Nat)
    (piece : Option (List UInt8) → Piece) (hp : p ∈ place 4 Attr.bytes rta ys) :
    Spec (Inside m stop) RouteEvent.piece (do let addr ← inetNtop m family p.1; emit (.print (piece addr)))
      (∀ n ∈ addrSize family, n ≤ p.2.data.length) [piece (addrOf family p.2)] ⟨⟩ := by
  have hemit : Spec (Inside m stop) RouteEvent.piece (emit (.print (piece (addrOf family p.2)))) True
      [piece (addrOf family p.2)] ⟨⟩ := .emit trivial rfl
  have hprint := (inetNtop_spec hys hstop hp family).bind (f := fun addr => emit (.print (piece addr))) hemit
  exact hprint.congr (by simp)

theorem ifPresent_addr_spec {t : Nat} (ht : (t : Int) ≤ RTA_MAX) (hys : Chain m rta len ys)
    (hstop : (rta : Int) + len = stop) (family : Nat) (piece : Option (List UInt8) → Piece) :
    Spec (Inside m stop) RouteEvent.piece
      (ifPresent (((place 4 Attr.bytes rta ys).foldl (enter RTA_MAX) fun _ => none) t) fun rta => do
        let addr ← inetNtop m family rta
        emit (.print (piece addr)))
      (HoldsAddr ys t family) (pieceOf t ys fun y => piece (addrOf family y)) ⟨⟩ :=
  ifPresent_spec ht (c := fun y => ∀ n ∈ addrSize family, n ≤ y.data.length)
    (g := fun y => piece (addrOf family y)) fun _ hp => printAddr_spec hys hstop family piece hp

/-- What is printed behind the destination. -/
theorem printAttrs_spec (hys : Chain m rta len ys) (hstop : (rta : Int) + len = stop) (family : Nat) :
    Spec (Inside m stop) RouteEvent.piece
      (printAttrs m family ((place 4 Attr.bytes rta ys).foldl (enter RTA_MAX) fun _ => none))
      (HoldsAddr ys RTA_GATEWAY family ∧ Holds ys RTA_OIF 4 ∧ HoldsAddr ys RTA_SRC family)
      (pieceOf RTA_GATEWAY ys (fun y => .via (addrOf family y)) ++
        (pieceOf RTA_OIF ys (fun y => .dev (toInt (ofLE (y.data.take 4)))) ++
          (pieceOf RTA_SRC ys (fun y => .src (addrOf family y)) ++ [.newline]))) ⟨⟩ := by
  have hgateway := ifPresent_addr_spec (t := RTA_GATEWAY) (by decide) hys hstop family .via
  have hread : ∀ p ∈ place 4 Attr.bytes rta ys, Spec (Inside m stop) RouteEvent.piece
      (do let ifidx ← readPayload m p.1 4; emit (.print (.dev (toInt (ofLE ifidx)))))
      (4 ≤ p.2.data.length) [.dev (toInt (ofLE (p.2.data.take 4)))] ⟨⟩ := by
    intro p hp
    have hprint := (readPayload_spec hys hstop hp 4).bind
      (f := fun ifidx => emit (RouteEvent.print (.dev (toInt (ofLE ifidx))))) (Spec.emit trivial rfl)
    exact hprint.congr (by simp)
  have hsrc := ifPresent_addr_spec (t := RTA_SRC) (by decide) hys hstop family .src
  have hoif := ifPresent_spec (t := RTA_OIF) (by decide)
    (f := fun rta => do let ifidx ← readPayload m rta 4; emit (.print (.dev (toInt (ofLE ifidx)))))
    (c := fun y => 4 ≤ y.data.length) (g := fun y => .dev (toInt (ofLE (y.data.take 4)))) hread
  have hend : Spec (Inside m stop) RouteEvent.piece (emit (.print .newline)) True [.newline] ⟨⟩ := .emit trivial rfl
  have hall := hgateway.bind (f := fun _ => _) (hoif.bind (f := fun _ => _) (hsrc.bind (f := fun _ => _) hend))
  exact hall.congr (by rw [and_true]; rfl)

/-- `rtm_get_table` finds the effective table. -/
theorem rtmGetTable_spec {x : Msg} {r : Nat} (hys : Chain m rta len ys) (hstop : (rta : Int) + len = stop)
    (htable : rtmTable m r = some ((rtmTable x.bytes 16).getD 0)) :
    Spec (Inside m stop) RouteEvent.piece
      (rtmGetTable m r ((place 4 Attr.bytes rta ys).foldl (enter RTA_MAX) fun _ => none))
      (Holds ys RTA_TABLE 4) [] (toInt (x.table ys)) := by
  unfold rtmGetTable Holds Msg.table
  rw [htable, lift_some_bind]
  rcases tb_lookup rta ys (show ((RTA_TABLE : Nat) : Int) ≤ RTA_MAX by decide) with
    ⟨htb, hlast⟩ | ⟨p, hp, htb, hlast⟩
  · rw [htb, hlast]
    exact (Spec.pure _).congr (by simp)
  · rw [htb, hlast]
    have hread := (readPayload_spec hys hstop hp 4).bind (f := fun table => pure (toInt (ofLE table))) (Spec.pure _)
    exact hread.congr (by simp)

end Payload

/-! ## The function -/

section Message

variable {m : Mem} {h : Nat} {x : Msg} {ys : List Attr}

theorem routeLen_eq {l : Nat} (hl : (l : Int) ≤ INT_MAX) : routeLen l = (l : Int) - 28 := by
  unfold INT_MAX at hl
  unfold routeLen toInt toSize
  omega

/-- The fields of `rtmsg`. -/
theorem Msg.read_rtmsg (hs : slice m h x.bytes.length = some x.bytes) (hle : 28 ≤ x.bytes.length) :
    rtmFamily m (h + 16) = some x.family ∧ rtmDstLen m (h + 16) = some x.dstLen ∧
      rtmTable m (h + 16) = some ((rtmTable x.bytes 16).getD 0) := by
  have hfield : ∀ o, o + 1 ≤ 28 → load m (h + o) 1 = some ((load x.bytes o 1).getD 0) := by
    intro o ho
    obtain ⟨v, hv⟩ := load_isSome x.bytes o 1 (by omega)
    rw [load_slice hs (by omega), hv]
    rfl
  exact ⟨hfield 16 (by omega), hfield 17 (by omega), hfield 20 (by omega)⟩

theorem Msg.table_lt (x : Msg) (ys : List Attr) : x.table ys < 4294967296 := by
  unfold Msg.table
  split
  · rename_i y _
    have hlt := ofLE_lt (y.data.take 4)
    have hlen : (y.data.take 4).length ≤ 4 := List.length_take_le 4 y.data
    have hpow : 256 ^ (y.data.take 4).length ≤ 256 ^ 4 := Nat.pow_le_pow_right (by omega) hlen
    omega
  · cases htable : rtmTable x.bytes 16 with
    | none => simp
    | some v =>
      have hlt : v < 256 ^ 1 := load_lt htable
      simp only [Option.getD_some]
      omega

/-- The test of the table in `int`. -/
theorem table_ne_main (x : Msg) (ys : List Attr) :
    toInt (x.table ys) ≠ ((RT_TABLE_MAIN : Nat) : Int) ↔ x.table ys ≠ RT_TABLE_MAIN := by
  have hlt := x.table_lt ys
  unfold toInt RT_TABLE_MAIN
  omega

theorem printSelected_spec {stop : Nat} (hs : slice m h x.bytes.length = some x.bytes) (hle : 28 ≤ x.bytes.length)
    (hys : Chain m (h + 28) ((x.bytes.length : Int) - 28) ys)
    (hstop : ((h + 28 : Nat) : Int) + ((x.bytes.length : Int) - 28) = stop) :
    Spec (Inside m stop) RouteEvent.piece
      (printSelected m (h + 16) ((place 4 Attr.bytes (h + 28) ys).foldl (enter RTA_MAX) fun _ => none)
        (toInt (x.table ys)))
      (x.Shown ys → HoldsAddr ys RTA_DST x.family ∧ HoldsAddr ys RTA_GATEWAY x.family ∧ Holds ys RTA_OIF 4 ∧
        HoldsAddr ys RTA_SRC x.family)
      (if x.Shown ys then x.line ys else []) ⟨⟩ := by
  obtain ⟨hfamily, hdst, -⟩ := Msg.read_rtmsg hs hle
  have hattrs := printAttrs_spec hys hstop x.family
  unfold printSelected
  rw [hfamily, lift_some_bind]
  simp only [table_ne_main]
  by_cases hsel : x.family ≠ AF_INET ∧ x.table ys ≠ RT_TABLE_MAIN
  · have hnot : ¬ x.Shown ys := fun hshown => hshown.2.1.elim hsel.1 hsel.2
    rw [if_pos hsel, if_neg hnot]
    exact (Spec.pure PUnit.unit).congr (by simp [hnot])
  · rw [if_neg hsel, hdst, lift_some_bind]
    have hsel' : x.family = AF_INET ∨ x.table ys = RT_TABLE_MAIN := by omega
    rcases tb_lookup (h + 28) ys (show ((RTA_DST : Nat) : Int) ≤ RTA_MAX by decide) with
      ⟨htb, hlast⟩ | ⟨p, hp, htb, hlast⟩
    · have hshown : x.Shown ys := ⟨hle, hsel', Or.inl hlast⟩
      have hholds : HoldsAddr ys RTA_DST x.family := by simp [HoldsAddr, hlast]
      have hemit : Spec (Inside m stop) RouteEvent.piece
          (emit (.print (if x.dstLen ≠ 0 then .zero x.dstLen else .default))) True
          [if x.dstLen ≠ 0 then Piece.zero x.dstLen else .default] ⟨⟩ := .emit trivial rfl
      rw [htb, if_pos hshown, Msg.line, hlast]
      exact (hemit.bind (f := fun _ => _) hattrs).congr (by simp [hshown, hholds])
    · rw [htb]
      by_cases hlen : x.dstLen ≠ 24 ∧ x.dstLen ≠ 16
      · have hnot : ¬ x.Shown ys := by
          rintro ⟨-, -, hdst⟩
          simp only [Msg.DstShown, hlast, reduceCtorEq, false_or] at hdst
          omega
        simp only [if_pos hlen, if_neg hnot]
        exact (Spec.pure PUnit.unit).congr (by simp [hnot])
      · have hshown : x.Shown ys := ⟨hle, hsel', Or.inr (by omega)⟩
        have hholds : HoldsAddr ys RTA_DST x.family ↔ ∀ n ∈ addrSize x.family, n ≤ p.2.data.length := by
          simp [HoldsAddr, hlast]
        have hemit : Spec (Inside m stop) RouteEvent.piece
            (emit (.print (.dst (addrOf x.family p.2) x.dstLen))) True
            [Piece.dst (addrOf x.family p.2) x.dstLen] ⟨⟩ := .emit trivial rfl
        have hread := inetNtop_spec hys hstop hp x.family
        simp only [if_neg hlen, if_pos hshown, Msg.line, hlast]
        refine (hread.bind (f := fun addr => do emit (.print (.dst addr x.dstLen)); printAttrs m x.family _)
          (hemit.bind (f := fun _ => _) hattrs)).congr ?_
        rw [true_and, ← hholds]
        exact ⟨fun h' _ => h', fun h' => h' hshown⟩

/-- **What `print_route` does with a message**: it stays within the attributes if and only if the
payloads are there, and then prints the line of the message or nothing. -/
theorem printRoute_spec (hs : slice m h x.bytes.length = some x.bytes) (hsize : (m.length : Int) ≤ INT_MAX)
    (hys : Attributes m (h + 28) ((x.bytes.length : Int) - 28) ys) (hle : 28 ≤ x.bytes.length) :
    Spec (Inside m (h + x.bytes.length)) RouteEvent.piece (printRoute m h) (x.Sized ys)
      (if x.Shown ys then x.line ys else []) ⟨⟩ := by
  have hend := (slice_eq_some.1 hs).1
  have hstop : ((h + 28 : Nat) : Int) + ((x.bytes.length : Int) - 28) = (h + x.bytes.length : Nat) := by omega
  have hparse := parseRtattr_attributes hys (by omega) (by omega) (show 0 ≤ RTA_MAX by decide) (by decide)
  unfold printRoute
  rw [(Msg.read hs).1, lift_some_bind, routeLen_eq (by omega), if_neg (by omega), hparse, lift_some_bind]
  exact (rtmGetTable_spec hys.toChain hstop (Msg.read_rtmsg hs hle).2.2).bind
    (printSelected_spec hs hle hys.toChain hstop)

end Message

/-- A message too short for an `rtmsg` has no attributes, and nothing is done with it. -/
theorem printRoute_short {m : Mem} {h : Nat} {x : Msg} (hs : slice m h x.bytes.length = some x.bytes)
    (hsize : (m.length : Int) ≤ INT_MAX) (hlt : x.bytes.length < 28) : printRoute m h = pure ⟨⟩ := by
  have hend := (slice_eq_some.1 hs).1
  unfold printRoute
  rw [(Msg.read hs).1, lift_some_bind, routeLen_eq (by omega), if_pos (by omega)]

/-- **When `print_route` reads within the attributes.** For every message `NLMSG_OK` accepts in a
datagram, every payload byte that is read lies within its attribute, and so within the message, if
and only if the attributes that count hold what is read of them: 4 bytes of `RTA_TABLE`, and, if the
message has a line, an address of its family and 4 bytes of `RTA_OIF`. -/
theorem print_route_reads_iff {d : Datagram} {h : Nat}
    (hok : NLMSG_OK d.bytes h ((d.bytes.length : Int) - h) = some true) :
    ∃ (x : Msg) (ys : List Attr), slice d.bytes h x.bytes.length = some x.bytes ∧
      Attributes d.bytes (h + 28) ((x.bytes.length : Int) - 28) ys ∧
      ((printRoute d.bytes h).All (Inside d.bytes (h + x.bytes.length)) ↔ x.Sized ys) := by
  have hmsg := nlmsg_ok_cases d.bytes h
  rw [hok] at hmsg
  obtain ⟨x, hx⟩ := hmsg.resolve_left (by simp)
  obtain ⟨ys, hys, -⟩ := exists_attributes d.bytes (h + 28) ((x.bytes.length : Int) - 28)
  refine ⟨x, ys, hx, hys, ?_⟩
  by_cases hle : 28 ≤ x.bytes.length
  · exact (printRoute_spec hx d.size_le hys hle).all
  · obtain rfl := hys.toChain.eq_nil (by omega)
    have hsized : x.Sized [] := ⟨by simp [Holds, lastAttr], fun hshown => absurd hshown.1 hle⟩
    rw [printRoute_short hx d.size_le (by omega)]
    exact ⟨fun _ => hsized, fun _ e he => by cases he⟩

/-- The bytes of a route message: what its `rtmsg` says, and its attributes. -/
def routeBytes (family dst_len table : UInt8) (attrs : List UInt8) : List UInt8 :=
  [UInt8.ofNat (28 + attrs.length), 0, 0, 0, 24, 0, 2, 0] ++ List.replicate 8 0 ++
    [family, dst_len, 0, 0, table, 0, 0, 0, 0, 0, 0, 0] ++ attrs

theorem length_routeBytes (family dst_len table : UInt8) (attrs : List UInt8) :
    (routeBytes family dst_len table attrs).length = 28 + attrs.length := by
  simp [routeBytes]
  omega

/-- A datagram of these bytes from the kernel. -/
def kernelDatagram (bytes : List UInt8) (h : (bytes.length : Int) ≤ INT_MAX) : Datagram :=
  { bytes, pid := 0, size_le := h }

/-- The route to 10.0.0.0/24. -/
theorem print_route_reads_sample :
    ∃ (x : Msg) (ys : List Attr),
      slice (routeBytes 2 24 254 [8, 0, 1, 0, 10, 0, 0, 0]) 0 x.bytes.length = some x.bytes ∧
      Attributes (routeBytes 2 24 254 [8, 0, 1, 0, 10, 0, 0, 0]) (0 + 28) ((x.bytes.length : Int) - 28) ys ∧
      ((printRoute (routeBytes 2 24 254 [8, 0, 1, 0, 10, 0, 0, 0]) 0).All
        (Inside (routeBytes 2 24 254 [8, 0, 1, 0, 10, 0, 0, 0]) (0 + x.bytes.length)) ↔ x.Sized ys) :=
  print_route_reads_iff (d := kernelDatagram (routeBytes 2 24 254 [8, 0, 1, 0, 10, 0, 0, 0]) (by decide)) (h := 0) rfl

/-- **An `RTA_TABLE` without a payload**, the last thing in the buffer: four bytes behind it are read. -/
theorem print_route_reads_beyond :
    ¬ ∀ (d : Datagram) (h l : Nat), NLMSG_OK d.bytes h ((d.bytes.length : Int) - h) = some true →
      nlmsgLen d.bytes h = some l → (printRoute d.bytes h).All (Inside d.bytes (h + l)) := by
  intro hclaim
  have hall := hclaim (kernelDatagram (routeBytes 2 0 254 [4, 0, 15, 0]) (by decide)) 0 32 rfl rfl
  have hfits : ∀ y ∈ [(⟨15, []⟩ : Attr)], y.Fits := by simpa using (⟨by decide, by decide⟩ : Attr.Fits ⟨15, []⟩)
  have hlaid : Laid 4 Attr.bytes (routeBytes 2 0 254 [4, 0, 15, 0]) 28 [⟨15, []⟩] := ⟨rfl, trivial⟩
  have hys := attributes_of_laid hfits hlaid
  have hspec := printRoute_spec (h := 0) (x := ⟨routeBytes 2 0 254 [4, 0, 15, 0], rfl, by decide⟩) rfl (by decide) hys
    (by decide)
  have hholds := (hspec.all.1 hall).1 ⟨15, []⟩ rfl
  simp at hholds

end CHell.Netlink
