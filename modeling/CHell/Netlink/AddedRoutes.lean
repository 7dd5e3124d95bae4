import CHell.Netlink.PrintRoute
import CHell.Netlink.RouteBytes

/-!
# The routes of one program in the list of the other

`network/route_add.c` and `network/route_print.c` do not fit together. A message of `do_route` has `bitlen/8` bytes
of address. `print_route` shows a destination if its length is 16 or 24, and takes it to have all bytes of an
address of the family then, which are more than 2 or 3. So of a message that `do_route` has built it either prints
nothing, or it reads beyond the attribute; and never anything of the routes to the addresses `read_addr` accepts
(`doRoute_printed`).
-/

namespace CHell.Netlink

open CInt Memory Records Traced

variable {dst : InetAddr} {request : NlRequest} {flags ifIdx : Int} {m : Mem}

theorem Carries.exists_msg {xs : List Attr} (h : Carries NL_REQUEST_SIZE m xs) :
    ∃ x : Msg, x.bytes.length = ATTRS + span 4 Attr.bytes xs ∧ slice m 0 x.bytes.length = some x.bytes ∧
      Attributes m (0 + 28) ((x.bytes.length : Int) - 28) xs := by
  have hle := h.le
  have hlen := h.length
  obtain ⟨bs, hbs⟩ := slice_isSome m (show 0 + (ATTRS + span 4 Attr.bytes xs) ≤ m.length by omega)
  have hbytes := length_of_slice hbs
  have hmsg : nlmsgLen bs 0 = some bs.length := by
    rw [hbytes, ← h.msg]
    exact (load_slice (o := 0) hbs (by unfold ATTRS; omega)).symm
  have hheader : 16 ≤ bs.length := by
    rw [hbytes]
    unfold ATTRS
    omega
  have hself : slice m 0 bs.length = some bs := by rw [hbytes, hbs]
  have harea : ((bs.length : Nat) : Int) - 28 = (span 4 Attr.bytes xs : Nat) := by
    rw [hbytes]
    unfold ATTRS
    omega
  refine ⟨⟨bs, hmsg, hheader⟩, hbytes, hself, ?_⟩
  rw [harea]
  exact attributes_of_laid h.fits h.laid

/-- `dst_len` is the `bitlen` as it was, as far as 16 and 24 are concerned. -/
theorem toUChar_bitlen (h : IsChar dst.bitlen) (n : Nat) (hn : n < 128) :
    (toUChar dst.bitlen).toNat = n ↔ dst.bitlen = n := by
  unfold IsChar toChar at h
  unfold toUChar
  omega

theorem exists_addrSize (h : dst.family = AF_INET ∨ dst.family = AF_INET6) :
    ∃ n, 4 ≤ n ∧ addrSize (toUChar dst.family).toNat = some n := by
  rcases h with h | h
  · exact ⟨4, by omega, by rw [h]; rfl⟩
  · exact ⟨16, by omega, by rw [h]; rfl⟩

theorem doRoute_msg {alen : Nat} (halen : dst.bitlen.tdiv 8 = alen) (hle : alen ≤ 16)
    (h : doRoute request flags dst ifIdx = some m) :
    ∃ x : Msg, 28 ≤ x.bytes.length ∧ slice m 0 x.bytes.length = some x.bytes ∧ m.length = NL_REQUEST_SIZE ∧
      Attributes m (0 + 28) ((x.bytes.length : Int) - 28) (routeAttrs (dst.data.take alen) ifIdx) ∧
      x.family = (toUChar dst.family).toNat ∧ x.dstLen = (toUChar dst.bitlen).toNat ∧
      (rtmTable x.bytes 16).getD 0 = RT_TABLE_MAIN := by
  obtain ⟨m1, m', hheader, hm', hcarries, hload⟩ := doRoute_builds dst request flags ifIdx halen hle
  obtain rfl := Option.some.inj (hm'.symm.trans h)
  obtain ⟨m1', hheader', -, ⟨hfamily, htable, hdst⟩, -⟩ := routeHeader_spec request flags dst
  obtain rfl := Option.some.inj (hheader.symm.trans hheader')
  obtain ⟨x, hlen, hslice, hattrs⟩ := hcarries.exists_msg
  have h28 : 28 ≤ x.bytes.length := by
    rw [hlen]
    exact Nat.le_add_right 28 _
  obtain ⟨hfamily', hdst', htable'⟩ := Msg.read_rtmsg hslice h28
  refine ⟨x, h28, hslice, hcarries.length, hattrs, ?_, ?_, ?_⟩
  · rw [rtmFamily, hload _ _ (by omega) (by decide)] at hfamily'
    exact Option.some.inj (hfamily'.symm.trans hfamily)
  · rw [rtmDstLen, hload _ _ (by omega) (by decide)] at hdst'
    exact Option.some.inj (hdst'.symm.trans hdst)
  · rw [rtmTable, hload _ _ (by omega) (by decide)] at htable'
    exact Option.some.inj (htable'.symm.trans htable)

section
variable {x : Msg} {bytes : List UInt8}

theorem shown_routeAttrs (h28 : 28 ≤ x.bytes.length) (htable : (rtmTable x.bytes 16).getD 0 = RT_TABLE_MAIN) :
    x.Shown (routeAttrs bytes ifIdx) ↔ x.dstLen = 24 ∨ x.dstLen = 16 := by
  have hdst : lastAttr RTA_DST (routeAttrs bytes ifIdx) = some ⟨RTA_DST, bytes⟩ := rfl
  have hmain : x.table (routeAttrs bytes ifIdx) = RT_TABLE_MAIN := htable
  simp [Msg.Shown, Msg.DstShown, h28, hmain, hdst]

/-- If a destination that is shown is too short for an address, the payloads are there only if none is shown. -/
theorem sized_routeAttrs {n : Nat} (hn : addrSize x.family = some n)
    (hshort : x.Shown (routeAttrs bytes ifIdx) → bytes.length < n) :
    x.Sized (routeAttrs bytes ifIdx) ↔ ¬ x.Shown (routeAttrs bytes ifIdx) := by
  have hdst : lastAttr RTA_DST (routeAttrs bytes ifIdx) = some ⟨RTA_DST, bytes⟩ := rfl
  have hnone : lastAttr RTA_TABLE (routeAttrs bytes ifIdx) = none := rfl
  constructor
  · rintro ⟨-, hholds⟩ hshown
    have hbytes : n ≤ bytes.length := (hholds hshown).1 _ hdst n hn
    have hlt := hshort hshown
    omega
  · intro hnot
    exact ⟨by simp [Holds, hnone], fun hshown => absurd hshown hnot⟩

end

/-- **What `print_route` makes of a message of `do_route`.** Whatever the request held: if the length of the
destination is neither 16 nor 24, as behind every call of `read_addr`, it stays within the attributes and prints
nothing; if it is one of these, it reads beyond an attribute. -/
theorem doRoute_printed (hfamily : dst.family = AF_INET ∨ dst.family = AF_INET6) (hbitlen : IsChar dst.bitlen)
    (h : doRoute request flags dst ifIdx = some m) :
    ∃ nlmsg_len, nlmsgLen m 0 = some nlmsg_len ∧
      ((printRoute m 0).All (Inside m nlmsg_len) ↔ dst.bitlen ≠ 16 ∧ dst.bitlen ≠ 24) ∧
      (dst.bitlen ≠ 16 ∧ dst.bitlen ≠ 24 →
        (printRoute m 0).events.filterMap RouteEvent.piece = [] ∧ (printRoute m 0).value = some ⟨⟩) := by
  have hrange := tdiv_of_isChar hbitlen
  have hpos : ¬ dst.bitlen.tdiv 8 < 0 := by
    intro hneg
    rw [doRoute_negative request flags ifIdx hrange.1 hneg] at h
    cases h
  obtain ⟨alen, halen⟩ := Int.eq_ofNat_of_zero_le (Int.not_lt.1 hpos)
  obtain ⟨x, h28, hslice, hsize, hattrs, hxfamily, hxdst, hxtable⟩ := doRoute_msg halen (by omega) h
  have hmax : (m.length : Int) ≤ INT_MAX := by
    rw [hsize]
    decide
  have hspec := printRoute_spec hslice hmax hattrs h28
  rw [Nat.zero_add] at hspec
  have hshown : x.Shown (routeAttrs (dst.data.take alen) ifIdx) ↔ dst.bitlen = 24 ∨ dst.bitlen = 16 := by
    rw [shown_routeAttrs h28 hxtable, hxdst, toUChar_bitlen hbitlen 24 (by omega), toUChar_bitlen hbitlen 16 (by omega)]
    rfl
  -- two or three bytes where `inet_ntop` reads 4 or 16
  obtain ⟨n, hn, haddr⟩ := exists_addrSize hfamily
  have hshort : x.Shown (routeAttrs (dst.data.take alen) ifIdx) → (dst.data.take alen).length < n := by
    intro hlisted
    have halen4 : alen < 4 := by
      rcases hshown.1 hlisted with hbits | hbits
      · rw [hbits] at halen
        exact (Int.ofNat.inj halen.symm).trans_lt (by decide)
      · rw [hbits] at halen
        exact (Int.ofNat.inj halen.symm).trans_lt (by decide)
    rw [List.length_take]
    omega
  have hsized : x.Sized (routeAttrs (dst.data.take alen) ifIdx) ↔ dst.bitlen ≠ 16 ∧ dst.bitlen ≠ 24 := by
    rw [sized_routeAttrs (hxfamily ▸ haddr) hshort, hshown]
    omega
  refine ⟨x.bytes.length, (Msg.read hslice).1, hspec.all.trans hsized, ?_⟩
  intro hnot
  have hout := hspec.out (hsized.2 hnot)
  rw [if_neg (by rw [hshown]; omega)] at hout
  exact ⟨hout, hspec.value (hsized.2 hnot)⟩

/-- The route of `main`, to 172.16.18.0. -/
theorem doRoute_printed_main : ∃ m nlmsg_len, doRoute zeroRequest 0x600 mainRoute 3 = some m ∧
    nlmsgLen m 0 = some nlmsg_len ∧
      ((printRoute m 0).All (Inside m nlmsg_len) ↔ mainRoute.bitlen ≠ 16 ∧ mainRoute.bitlen ≠ 24) ∧
      (printRoute m 0).events.filterMap RouteEvent.piece = [] := by
  obtain ⟨m, hm, -⟩ := doRoute_v4 mainRoute zeroRequest 0x600 3 rfl rfl
  obtain ⟨nlmsg_len, hlen, hreads, hprints⟩ := doRoute_printed (.inl rfl) (show IsChar mainRoute.bitlen from rfl) hm
  exact ⟨m, nlmsg_len, hm, hlen, hreads, (hprints ⟨by decide, by decide⟩).1⟩

end CHell.Netlink
