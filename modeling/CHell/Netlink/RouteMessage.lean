import CHell.Netlink.RoundTrip

/-!
# What a route request says

`do_route` on an address that `read_addr` accepted, read back with the decoder of `route_print.c`.
For an IPv4 address the message decodes to the route. For an IPv6 address there is no message:
`bitlen` is a `char`, 128 is stored in it as -128, and `bitlen/8` asks `rtattr_add` to copy
`(size_t)-16` bytes.
-/

namespace CHell.Netlink

open CInt Memory Records

/-- The message `m` is the main-table route to `bytes` of `family` through interface `ifIdx`. -/
def DecodesTo (m : Mem) (family : Nat) (bytes : List UInt8) (ifIdx : Int) : Prop :=
  rtmFamily m 16 = some family ∧ rtmTable m 16 = some RT_TABLE_MAIN ∧
  rtmDstLen m 16 = some (8 * bytes.length) ∧
  ∃ nlmsg_len, nlmsgLen m 0 = some nlmsg_len ∧ nlmsg_len ≤ m.length ∧
    ∀ max : Int, RTA_OIF ≤ max → max < INT_MAX →
      ∃ tb, parseRtattr (m.take nlmsg_len) max 28 ((nlmsg_len : Int) - 28) = some tb ∧
        (∃ off, tb RTA_DST = some off ∧ rtaLen (m.take nlmsg_len) off = some (4 + bytes.length) ∧
          slice (m.take nlmsg_len) (RTA_DATA off) bytes.length = some bytes) ∧
        (∃ off v, tb RTA_OIF = some off ∧ rtaLen (m.take nlmsg_len) off = some (4 + 4) ∧
          load (m.take nlmsg_len) (RTA_DATA off) 4 = some v ∧ toInt v = ifIdx)

/-! ## The headers -/

variable {dst : InetAddr} {flags ifIdx : Int}

theorem toUChar_toNat_lt (x : Int) : (toUChar x).toNat < 256 ^ 1 := by unfold toUChar; omega

theorem toUShort_toNat_lt (x : Int) : (toUShort x).toNat < 256 ^ 2 := by unfold toUShort; omega

theorem toUInt_toNat_lt (x : Int) : (toUInt x).toNat < 256 ^ 4 := by unfold toUInt; omega

/-- The assignments to the headers make a message without attributes. None is to `nlmsg_seq` or `nlmsg_pid`. -/
theorem routeHeader_spec (request : NlRequest) (flags : Int) (dst : InetAddr) :
    ∃ m, routeHeader request.1 flags dst = some m ∧ Carries NL_REQUEST_SIZE m [] ∧
      (rtmFamily m 16 = some (toUChar dst.family).toNat ∧ rtmTable m 16 = some RT_TABLE_MAIN ∧
        rtmDstLen m 16 = some (toUChar dst.bitlen).toNat) ∧
      ∀ o k, 8 ≤ o → o + k ≤ 16 → load m o k = load request.1 o k := by
  obtain ⟨m0, h0⟩ := request
  have h8 : ∀ {m : Mem} (off : Nat) (x : Int), m.length = NL_REQUEST_SIZE → off < 28 →
      ∃ m', storeUInt8 m off x = some m' ∧ m'.length = NL_REQUEST_SIZE ∧
        load m' off 1 = some (toUChar x).toNat ∧
        ∀ o k, o + k ≤ off ∨ off + 1 ≤ o → load m' o k = load m o k := by
    intro m off x hm ho
    have hsize : NL_REQUEST_SIZE = 4124 := rfl
    obtain ⟨m', hs, hl, hv, hf⟩ := store_toLE m off (by omega) (toUChar_toNat_lt x)
    exact ⟨m', hs, hl.trans hm, hv, hf⟩
  obtain ⟨m1, s1, l1, v1, f1⟩ := store_toLE m0 0 (by rw [h0]; decide)
    (toUInt_toNat_lt (12 + NLMSG_HDRLEN))
  obtain ⟨m2, s2, l2, -, f2⟩ := store_toLE m1 6 (by rw [l1, h0]; decide)
    (toUShort_toNat_lt (NLM_F_REQUEST ||| (toUInt flags).toNat : Nat))
  obtain ⟨m3, s3, l3, -, f3⟩ := store_toLE m2 4 (by rw [l2, l1, h0]; decide)
    (toUShort_toNat_lt RTM_NEWROUTE)
  obtain ⟨m4, s4, l4, v4, f4⟩ := h8 16 dst.family (l3.trans (l2.trans (l1.trans h0))) (by omega)
  obtain ⟨m5, s5, l5, v5, f5⟩ := h8 20 RT_TABLE_MAIN l4 (by omega)
  obtain ⟨m6, s6, l6, -, f6⟩ := h8 22 RT_SCOPE_NOWHERE l5 (by omega)
  obtain ⟨m7, s7, l7, -, f7⟩ := h8 21 RTPROT_BOOT l6 (by omega)
  obtain ⟨m8, s8, l8, -, f8⟩ := h8 23 RTN_UNICAST l7 (by omega)
  obtain ⟨m9, s9, l9, v9, f9⟩ := h8 17 dst.bitlen l8 (by omega)
  obtain ⟨m10, s10, l10, -, f10⟩ := h8 22 RT_SCOPE_LINK l9 (by omega)
  refine ⟨m10, ?_, carries_nil l10 ?_ (by decide), ⟨?_, ?_, ?_⟩, ?_⟩
  · refine Option.bind_eq_some_iff.2 ⟨m1, s1, ?_⟩
    refine Option.bind_eq_some_iff.2 ⟨m2, s2, ?_⟩
    refine Option.bind_eq_some_iff.2 ⟨m3, s3, ?_⟩
    refine Option.bind_eq_some_iff.2 ⟨m4, s4, ?_⟩
    refine Option.bind_eq_some_iff.2 ⟨m5, s5, ?_⟩
    refine Option.bind_eq_some_iff.2 ⟨m6, s6, ?_⟩
    refine Option.bind_eq_some_iff.2 ⟨m7, s7, ?_⟩
    refine Option.bind_eq_some_iff.2 ⟨m8, s8, ?_⟩
    exact Option.bind_eq_some_iff.2 ⟨m9, s9, s10⟩
  · rw [nlmsgLen, f10 _ _ (by omega), f9 _ _ (by omega), f8 _ _ (by omega), f7 _ _ (by omega),
      f6 _ _ (by omega), f5 _ _ (by omega), f4 _ _ (by omega), f3 _ _ (by omega), f2 _ _ (by omega), v1]
    rfl
  · rw [rtmFamily, f10 _ _ (by omega), f9 _ _ (by omega), f8 _ _ (by omega), f7 _ _ (by omega),
      f6 _ _ (by omega), f5 _ _ (by omega), v4]
  · rw [rtmTable, f10 _ _ (by omega), f9 _ _ (by omega), f8 _ _ (by omega), f7 _ _ (by omega),
      f6 _ _ (by omega), v5]
    rfl
  · rw [rtmDstLen, f10 _ _ (by omega), v9]
  · intro o k h8 h16
    rw [f10 _ _ (by omega), f9 _ _ (by omega), f8 _ _ (by omega), f7 _ _ (by omega), f6 _ _ (by omega),
      f5 _ _ (by omega), f4 _ _ (by omega), f3 _ _ (by omega), f2 _ _ (by omega), f1 _ _ (by omega)]

/-! ## The attributes -/

theorem rtattrAdd_take {n : Mem} {maxlen type : Int} {data : List UInt8} {alen : Nat}
    (h : alen ≤ data.length) (hlt : alen < 65536) :
    rtattrAdd n maxlen type data alen = rtattrAdd n maxlen type (data.take alen) alen := by
  have hsize : (toSize alen).toNat = alen := by rw [toSize_id (by omega) (by omega), Int.toNat_natCast]
  have hcopy : ∀ (m : Mem) (rta : Nat), copyPayload m rta data alen = copyPayload m rta (data.take alen) alen := by
    intro m rta
    have htake : (data.take alen).take alen = data.take alen := by rw [List.take_take, Nat.min_self]
    unfold copyPayload
    rw [hsize, memcpy_take m _ h, memcpy_take m _ (by rw [List.length_take]; omega), htake]
  unfold rtattrAdd
  simp only [hcopy]

/-- A negative length is not refused: the bound test wraps around, and the copy is far longer
than any object. -/
theorem rtattrAdd_negative {m : Mem} {data : List UInt8} {alen : Int} (hm : Carries NL_REQUEST_SIZE m [])
    (hdata : data.length = 16) (hlow : -16 ≤ alen) (hneg : alen < 0) :
    rtattrAdd m NL_REQUEST_SIZE RTA_DST data alen = none := by
  have htest : ¬ toUInt (NLMSG_ALIGN ATTRS + RTA_ALIGN (toInt (RTA_LENGTH alen))) > toUInt NL_REQUEST_SIZE := by
    unfold NLMSG_ALIGN RTA_ALIGN RTA_LENGTH
    rw [alignU_four_mod, alignU_four_mod]
    unfold toUInt toInt toSize ATTRS NL_REQUEST_SIZE
    omega
  have hcopy : ∀ (n : Mem) (rta : Nat), copyPayload n rta data alen = none := by
    intro n rta
    have hsize : data.length < (toSize alen).toNat := by
      unfold toSize
      omega
    unfold copyPayload
    rw [if_pos (by omega)]
    exact memcpy_eq_none hsize
  unfold rtattrAdd
  rw [hm.msg, Option.bind_eq_bind, Option.bind_some, span_nil, Nat.add_zero, if_neg htest]
  simp only [hcopy, Option.bind_none, Option.bind_fun_none, Option.bind_eq_bind]

theorem toLE_toUInt (x : Int) (h : InInt x) : toInt (ofLE (toLE 4 (toUInt x).toNat) : Nat) = x := by
  rw [ofLE_toLE]
  unfold InInt at h
  unfold toUInt toInt
  omega

/-- What a request with one address and one interface decodes to. -/
theorem decodesTo_of_carries {m : Mem} {family : Nat} {bytes : List UInt8}
    (hm : Carries NL_REQUEST_SIZE m [⟨RTA_DST, bytes⟩, ⟨RTA_OIF, toLE 4 (toUInt ifIdx).toNat⟩])
    (hfamily : rtmFamily m 16 = some family) (htable : rtmTable m 16 = some RT_TABLE_MAIN)
    (hdst : rtmDstLen m 16 = some (8 * bytes.length)) (hif : InInt ifIdx) :
    DecodesTo m family bytes ifIdx := by
  refine ⟨hfamily, htable, hdst, _, hm.msg, by rw [hm.length]; exact hm.le, ?_⟩
  intro max h4 hmax
  generalize hxs : [Attr.mk RTA_DST bytes, ⟨RTA_OIF, toLE 4 (toUInt ifIdx).toNat⟩] = xs at hm ⊢
  have hle := hm.le
  have hend : ((span 4 Attr.bytes xs : Nat) : Int) ≤ INT_MAX := by
    have hsize : NL_REQUEST_SIZE = 4124 := rfl
    unfold INT_MAX
    omega
  have harea : ((ATTRS + span 4 Attr.bytes xs : Nat) : Int) - 28 = (span 4 Attr.bytes xs : Nat) := by
    unfold ATTRS
    omega
  have hoif : ((RTA_OIF : Nat) : Int) ≤ max := h4
  have hdst4 : ((RTA_DST : Nat) : Int) ≤ max := Int.le_trans (by decide) h4
  have hlen : ATTRS + span 4 Attr.bytes xs ≤ (m.take (ATTRS + span 4 Attr.bytes xs)).length := by
    rw [List.length_take, hm.length]
    omega
  have hparse := parseRtattr_laid hm.fits hm.laid_take hlen hend
    (Int.le_trans (Int.natCast_nonneg RTA_OIF) h4) hmax
  have hplace : place 4 Attr.bytes ATTRS xs = [(ATTRS, ⟨RTA_DST, bytes⟩),
      (ATTRS + roundUp 4 (Attr.bytes ⟨RTA_DST, bytes⟩).length, ⟨RTA_OIF, toLE 4 (toUInt ifIdx).toNat⟩)] := by
    rw [← hxs]
    rfl
  rw [harea]
  refine ⟨_, hparse, ?_, ?_⟩
  · have hp : (ATTRS, (⟨RTA_DST, bytes⟩ : Attr)) ∈ place 4 Attr.bytes ATTRS xs := by simp [hplace]
    obtain ⟨hl, -, hd⟩ := (hm.fits _ (mem_of_mem_place hp)).read (hm.laid_take.slice_of_mem hp)
    refine ⟨ATTRS, ?_, hl, hd⟩
    rw [foldl_enter _ hdst4, hplace]
    rfl
  · have hp : (ATTRS + roundUp 4 (Attr.bytes ⟨RTA_DST, bytes⟩).length,
        (⟨RTA_OIF, toLE 4 (toUInt ifIdx).toNat⟩ : Attr)) ∈ place 4 Attr.bytes ATTRS xs := by simp [hplace]
    obtain ⟨hl, -, hd⟩ := (hm.fits _ (mem_of_mem_place hp)).read (hm.laid_take.slice_of_mem hp)
    refine ⟨_, _, ?_, by simpa using hl, load_eq_some.2 ⟨_, by simpa using hd, rfl⟩, toLE_toUInt ifIdx hif⟩
    rw [foldl_enter _ hoif, hplace]
    rfl

/-! ## The request -/

/-- The attributes of a request. -/
def routeAttrs (bytes : List UInt8) (ifIdx : Int) : List Attr :=
  [⟨RTA_DST, bytes⟩, ⟨RTA_OIF, toLE 4 (toUInt ifIdx).toNat⟩]

/-- With a length of at most 16 bytes both attributes are added to the headers. -/
theorem doRoute_builds (dst : InetAddr) (request : NlRequest) (flags ifIdx : Int) {alen : Nat}
    (halen : dst.bitlen.tdiv 8 = alen) (hle : alen ≤ 16) :
    ∃ m1 m, routeHeader request.1 flags dst = some m1 ∧ doRoute request flags dst ifIdx = some m ∧
      Carries NL_REQUEST_SIZE m (routeAttrs (dst.data.take alen) ifIdx) ∧
      ∀ o k, 4 ≤ o → o + k ≤ ATTRS → load m o k = load m1 o k := by
  obtain ⟨m1, hheader, hm1, -, -⟩ := routeHeader_spec request flags dst
  have htake : (dst.data.take alen).length = alen := by
    rw [List.length_take, dst.data_length]
    omega
  have hoif : (toLE 4 (toUInt ifIdx).toNat).length = 4 := length_toLE 4 _
  have hcall : rtattrAdd m1 NL_REQUEST_SIZE RTA_DST dst.data (dst.bitlen.tdiv 8) =
      rtattrAdd m1 NL_REQUEST_SIZE RTA_DST (dst.data.take alen) (dst.data.take alen).length := by
    rw [halen, htake]
    exact rtattrAdd_take (by rw [dst.data_length]; exact hle) (by omega)
  generalize dst.data.take alen = bytes at htake hcall ⊢
  -- both attributes fit: 28 + 20 + 8 bytes of 4124
  have hup : roundUp 4 (4 + alen) < 4 + alen + 4 := roundUp_four_lt _
  have hsize : NL_REQUEST_SIZE = 4124 := rfl
  have hattrs : ATTRS = 28 := rfl
  have hfit1 : ATTRS + span 4 Attr.bytes ([] ++ [⟨RTA_DST, bytes⟩]) ≤ NL_REQUEST_SIZE := by
    simp only [List.nil_append, span_cons, span_nil, Attr.length_bytes, htake]
    omega
  have hfit2 : ATTRS + span 4 Attr.bytes ([⟨RTA_DST, bytes⟩] ++ [⟨RTA_OIF, toLE 4 (toUInt ifIdx).toNat⟩]) ≤
      NL_REQUEST_SIZE := by
    have height : roundUp 4 (4 + 4) = 8 := rfl
    simp only [List.cons_append, List.nil_append, span_cons, span_nil, Attr.length_bytes, htake, hoif]
    omega
  obtain ⟨m2, hadd2, hm2, hframe2⟩ :=
    rtattrAdd_accepts (by decide) hm1 (show RTA_DST < 65536 by decide) hfit1
  obtain ⟨m3, hadd3, hm3, hframe3⟩ :=
    rtattrAdd_accepts (by decide) hm2 (show RTA_OIF < 65536 by decide) hfit2
  refine ⟨m1, m3, hheader, ?_, hm3, fun o k ho hk => by rw [hframe3 o k ho hk, hframe2 o k ho hk]⟩
  refine Option.bind_eq_some_iff.2 ⟨m1, hheader, ?_⟩
  refine Option.bind_eq_some_iff.2 ⟨(m2, 0), hcall.trans hadd2, ?_⟩
  refine Option.bind_eq_some_iff.2 ⟨(m3, 0), ?_, rfl⟩
  rw [hoif] at hadd3
  exact hadd3

/-- **The request for an IPv4 address** is always built. -/
theorem doRoute_v4 (dst : InetAddr) (request : NlRequest) (flags ifIdx : Int) (hfamily : dst.family = AF_INET)
    (hbitlen : dst.bitlen = 32) :
    ∃ m, doRoute request flags dst ifIdx = some m ∧
      (InInt ifIdx → DecodesTo m AF_INET (dst.data.take 4) ifIdx) := by
  have halen : dst.bitlen.tdiv 8 = (4 : Nat) := by rw [hbitlen]; rfl
  obtain ⟨m1, m, hheader, hm, hcarries, hload⟩ := doRoute_builds dst request flags ifIdx halen (by decide)
  obtain ⟨m1', hheader', -, ⟨hfam, htable, hdst⟩, -⟩ := routeHeader_spec request flags dst
  obtain rfl := Option.some.inj (hheader.symm.trans hheader')
  have htake : (dst.data.take 4).length = 4 := by rw [List.length_take, dst.data_length]; rfl
  refine ⟨m, hm, decodesTo_of_carries hcarries ?_ ?_ ?_⟩
  · rw [rtmFamily, hload _ _ (by omega) (by decide)]
    exact hfam.trans (by rw [hfamily]; rfl)
  · rw [rtmTable, hload _ _ (by omega) (by decide)]
    exact htable
  · rw [rtmDstLen, hload _ _ (by omega) (by decide)]
    exact hdst.trans (by rw [hbitlen, htake]; rfl)

theorem doRoute_negative (request : NlRequest) (flags ifIdx : Int) (hlow : -16 ≤ dst.bitlen.tdiv 8)
    (hneg : dst.bitlen.tdiv 8 < 0) : doRoute request flags dst ifIdx = none := by
  obtain ⟨m1, hheader, hm1, -⟩ := routeHeader_spec request flags dst
  unfold doRoute
  rw [hheader, Option.bind_eq_bind, Option.bind_some, rtattrAdd_negative hm1 dst.data_length hlow hneg]
  rfl

/-- **The request for an IPv6 address** is never finished. -/
theorem doRoute_v6 (request : NlRequest) (flags ifIdx : Int) (hbitlen : dst.bitlen = -128) :
    doRoute request flags dst ifIdx = none := by
  have halen : dst.bitlen.tdiv 8 = -16 := by rw [hbitlen]; rfl
  exact doRoute_negative request flags ifIdx (by omega) (by omega)

/-! ## `read_addr` and `do_route` together -/

/-- The family `read_addr` decides on. -/
def familyOf (addr : List UInt8) : Nat := if 58 ∈ addr then AF_INET6 else AF_INET

theorem call_v4_length {p : InetPton} {addr : List UInt8} (h : (p.call AF_INET addr).1 = 1) :
    (p.call AF_INET addr).2.length = 4 := by
  unfold InetPton.call at h ⊢
  rw [if_pos rfl] at h ⊢
  split at h
  · rename_i bs _
    exact bs.2
  · cases h

theorem call_v6_length {p : InetPton} {addr : List UInt8} (h : (p.call AF_INET6 addr).1 = 1) :
    (p.call AF_INET6 addr).2.length = 16 := by
  unfold InetPton.call at h ⊢
  rw [if_neg (by decide), if_pos rfl] at h ⊢
  split at h
  · rename_i bs _
    exact bs.2
  · cases h

theorem toChar_familyOf (addr : List UInt8) : toChar (familyOf addr) = familyOf addr := by
  unfold familyOf; split <;> rfl

theorem readAddr_accepted {p : InetPton} {addr : List UInt8} {res₀ res : InetAddr}
    (h : readAddr p addr res₀ = (1, res)) :
    res.family = familyOf addr ∧ res.bitlen = (if 58 ∈ addr then -128 else 32) ∧
      (p.call (familyOf addr) addr).2.length = (if 58 ∈ addr then 16 else 4) ∧
      res.data.take (p.call (familyOf addr) addr).2.length = (p.call (familyOf addr) addr).2 := by
  have hfamily : toChar (if 58 ∈ addr then (AF_INET6 : Int) else AF_INET) = familyOf addr := by
    rw [← toChar_familyOf]
    unfold familyOf
    split <;> rfl
  obtain ⟨h1, rfl⟩ := Prod.mk.inj h
  rw [hfamily] at h1
  simp only [hfamily]
  refine ⟨trivial, ?_, ?_, by simp⟩
  · split <;> rfl
  · unfold familyOf at h1 ⊢
    by_cases hcolon : 58 ∈ addr
    · rw [if_pos hcolon] at h1
      rw [if_pos hcolon, if_pos hcolon]
      exact call_v6_length h1
    · rw [if_neg hcolon] at h1
      rw [if_neg hcolon, if_neg hcolon]
      exact call_v4_length h1

/-- **What `do_route` sends for an accepted address.** The message decodes to the route exactly
if the address is an IPv4 one. -/
theorem doRoute_decodes_iff (p : InetPton) {addr : List UInt8} {res₀ res : InetAddr}
    (hread : readAddr p addr res₀ = (1, res)) (request : NlRequest) (flags : Int) {ifIdx : Int}
    (hif : InInt ifIdx) :
    (∃ m, doRoute request flags res ifIdx = some m ∧
      DecodesTo m (familyOf addr) (p.call (familyOf addr) addr).2 ifIdx) ↔ 58 ∉ addr := by
  obtain ⟨hfamily, hbitlen, hlen, hdata⟩ := readAddr_accepted hread
  constructor
  · rintro ⟨m, hm, -⟩ hv6
    rw [if_pos hv6] at hbitlen
    rw [doRoute_v6 request flags ifIdx hbitlen] at hm
    cases hm
  · intro hv4
    have hfam : familyOf addr = AF_INET := if_neg hv4
    rw [if_neg hv4] at hbitlen hlen
    rw [hfam] at hfamily hlen hdata ⊢
    obtain ⟨m, hm, hdecodes⟩ := doRoute_v4 res request flags ifIdx hfamily hbitlen
    rw [hlen] at hdata
    exact ⟨m, hm, hdata ▸ hdecodes hif⟩

/-- `inet_pton` on the texts `172.16.18.0` and `::1`. -/
def ptonSample : InetPton where
  v4 addr := if addr = [49, 55, 50, 46, 49, 54, 46, 49, 56, 46, 48] then some ⟨[172, 16, 18, 0], rfl⟩ else none
  v6 addr := if addr = [58, 58, 49] then some ⟨[0, 0, 0, 0, 0, 0, 0, 0, 0, 0, 0, 0, 0, 0, 0, 1], rfl⟩ else none

def zeroRequest : NlRequest := ⟨List.replicate NL_REQUEST_SIZE 0, List.length_replicate⟩

/-- The address of `main`. -/
theorem doRoute_decodes_sample :
    ∃ m, doRoute zeroRequest 0x600 (readAddr ptonSample [49, 55, 50, 46, 49, 54, 46, 49, 56, 46, 48] zeroAddr).2 3 =
      some m ∧ DecodesTo m AF_INET [172, 16, 18, 0] 3 :=
  (doRoute_decodes_iff ptonSample
    (show readAddr ptonSample [49, 55, 50, 46, 49, 54, 46, 49, 56, 46, 48] zeroAddr = (1, _) from rfl)
    zeroRequest 0x600 (by decide)).2 (by decide)

/-- **No message for `::1`**, which `read_addr` accepts. -/
theorem doRoute_undecodable :
    ¬ ∀ (p : InetPton) (addr : List UInt8) (res₀ res : InetAddr), readAddr p addr res₀ = (1, res) →
      ∀ (request : NlRequest) (flags ifIdx : Int), InInt ifIdx → ∃ m, doRoute request flags res ifIdx = some m ∧
        DecodesTo m (familyOf addr) (p.call (familyOf addr) addr).2 ifIdx := by
  intro h
  obtain ⟨m, hm, -⟩ := h ptonSample [58, 58, 49] zeroAddr _ rfl zeroRequest 0x600 3 (by decide)
  rw [doRoute_v6 zeroRequest 0x600 3 rfl] at hm
  cases hm

end CHell.Netlink
