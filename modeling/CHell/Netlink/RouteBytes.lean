import CHell.Netlink.RouteMessage

/-!
# The bytes a route request leaves as they were

`do_route` sends the whole of a local structure that nothing has initialised. Its assignments and the two attributes
leave `nlmsg_seq` and `nlmsg_pid` alone (`doRoute_frame`; also `rtm_src_len`, `rtm_tos`, `rtm_flags` and the rest of
`buf`): the kernel is sent what an earlier call left there.
-/

namespace CHell.Netlink

open CInt Memory Records

variable {flags ifIdx : Int} {dst : InetAddr}

/-- `bitlen` is a `char`. -/
def IsChar (x : Int) : Prop := toChar x = x

theorem tdiv_of_isChar {x : Int} (h : IsChar x) : -16 ≤ x.tdiv 8 ∧ x.tdiv 8 ≤ 15 := by
  unfold IsChar toChar at h
  rcases Int.le_total 0 x with h0 | h0
  · rw [Int.tdiv_eq_ediv_of_nonneg h0]
    omega
  · have hneg : x.tdiv 8 = -(-x / 8) := by
      rw [← Int.tdiv_eq_ediv_of_nonneg (by omega), Int.neg_tdiv, Int.neg_neg]
    omega

/-- Whatever the structure held: the same bytes are sent. -/
def Determined (flags : Int) (dst : InetAddr) (ifIdx : Int) : Prop :=
  ∃ bytes, ∀ request, doRoute request flags dst ifIdx = some bytes

/-- Either no request is sent, or every one is, with `nlmsg_len` known and `nlmsg_seq` as it was. -/
theorem doRoute_frame (flags : Int) (dst : InetAddr) (ifIdx : Int) (hbitlen : IsChar dst.bitlen) :
    (∀ request, doRoute request flags dst ifIdx = none) ∨
      ∃ len, ATTRS ≤ len ∧ len ≤ NL_REQUEST_SIZE ∧ ∀ request, ∃ m, doRoute request flags dst ifIdx = some m ∧
        m.length = NL_REQUEST_SIZE ∧ nlmsgLen m 0 = some len ∧ load m 8 4 = load request.1 8 4 := by
  have hrange := tdiv_of_isChar hbitlen
  by_cases hneg : dst.bitlen.tdiv 8 < 0
  · left
    intro request
    exact doRoute_negative request flags ifIdx hrange.1 hneg
  · right
    obtain ⟨alen, halen⟩ : ∃ alen : Nat, dst.bitlen.tdiv 8 = alen := ⟨(dst.bitlen.tdiv 8).toNat, by omega⟩
    have hbuilds := fun request => doRoute_builds dst request flags ifIdx halen (by omega)
    obtain ⟨m1, m, -, -, hcarries, -⟩ := hbuilds zeroRequest
    refine ⟨ATTRS + span 4 Attr.bytes (routeAttrs (dst.data.take alen) ifIdx), Nat.le_add_right _ _, hcarries.le, ?_⟩
    intro request
    obtain ⟨m1, m, hheader, hm, hcarries, hload⟩ := hbuilds request
    obtain ⟨m1', hheader', -, -, hframe⟩ := routeHeader_spec request flags dst
    obtain rfl := Option.some.inj (hheader.symm.trans hheader')
    refine ⟨m, hm, hcarries.length, hcarries.msg, ?_⟩
    rw [hload 8 4 (by decide) (by decide), hframe 8 4 (by decide) (by decide)]

theorem exists_request_seq {v : Nat} (hv : v < 256 ^ 4) : ∃ request : NlRequest, load request.1 8 4 = some v := by
  obtain ⟨m, -, hlen, hload, -⟩ := store_toLE zeroRequest.1 8 (by rw [zeroRequest.2]; decide) hv
  exact ⟨⟨m, hlen.trans zeroRequest.2⟩, hload⟩

/-- **What is sent is never determined.** To every request there is another one, sent for the same arguments, that
differs from it in the first `nlmsg_len` bytes. -/
theorem doRoute_undetermined (flags : Int) (dst : InetAddr) (ifIdx : Int) (hbitlen : IsChar dst.bitlen) :
    ¬ Determined flags dst ifIdx ∧
      ∀ request m, doRoute request flags dst ifIdx = some m → ∃ request' m' len,
        doRoute request' flags dst ifIdx = some m' ∧ nlmsgLen m 0 = some len ∧ nlmsgLen m' 0 = some len ∧
          m.take len ≠ m'.take len := by
  have hdiffer : ∀ request m, doRoute request flags dst ifIdx = some m → ∃ request' m' len,
      doRoute request' flags dst ifIdx = some m' ∧ nlmsgLen m 0 = some len ∧ nlmsgLen m' 0 = some len ∧
        m.take len ≠ m'.take len := by
    intro request m hm
    rcases doRoute_frame flags dst ifIdx hbitlen with hnone | ⟨len, hattrs, hle, hall⟩
    · rw [hnone request] at hm
      cases hm
    obtain ⟨m₁, hm₁, hlength, hlen, hseq⟩ := hall request
    obtain rfl := Option.some.inj (hm.symm.trans hm₁)
    -- another `nlmsg_seq`
    obtain ⟨v, hv, hne⟩ : ∃ v, v < 256 ^ 4 ∧ load m 8 4 ≠ some v := by
      by_cases h0 : load m 8 4 = some 0
      · exact ⟨1, by decide, by simp [h0]⟩
      · exact ⟨0, by decide, h0⟩
    obtain ⟨request', hrequest'⟩ := exists_request_seq hv
    obtain ⟨m', hm', hlength', hlen', hseq'⟩ := hall request'
    refine ⟨request', m', len, hm', hlen, hlen', ?_⟩
    intro heq
    have hinside : 8 + 4 ≤ len := Nat.le_trans (by decide) hattrs
    have htake : load (m.take len) 8 4 = load m 8 4 := by
      rw [load, slice_take hinside (hle.trans_eq hlength.symm), load]
    have htake' : load (m'.take len) 8 4 = load m' 8 4 := by
      rw [load, slice_take hinside (hle.trans_eq hlength'.symm), load]
    apply hne
    rw [← htake, heq, htake', hseq', hrequest']
  refine ⟨?_, hdiffer⟩
  rintro ⟨bytes, hbytes⟩
  obtain ⟨request', m', len, hm', -, -, hne⟩ := hdiffer zeroRequest bytes (hbytes zeroRequest)
  exact hne (by rw [Option.some.inj ((hbytes request').symm.trans hm')])

/-- The route of `main`. -/
def mainRoute : InetAddr := ⟨AF_INET, 32, 172 :: 16 :: 18 :: List.replicate 13 0, rfl⟩

theorem doRoute_undetermined_main :
    ¬ Determined 0x600 mainRoute 3 ∧
      ∀ request m, doRoute request 0x600 mainRoute 3 = some m → ∃ request' m' len,
        doRoute request' 0x600 mainRoute 3 = some m' ∧ nlmsgLen m 0 = some len ∧ nlmsgLen m' 0 = some len ∧
          m.take len ≠ m'.take len :=
  doRoute_undetermined 0x600 mainRoute 3 rfl

/-- Two structures that differ in `nlmsg_seq`. -/
theorem doRoute_stale :
    ¬ ∀ (flags : Int) (dst : InetAddr) (ifIdx : Int), IsChar dst.bitlen → 0 ≤ dst.bitlen →
      Determined flags dst ifIdx := by
  intro hclaim
  obtain ⟨request, hrequest⟩ := exists_request_seq (v := 0) (by decide)
  obtain ⟨request', hrequest'⟩ := exists_request_seq (v := 1) (by decide)
  obtain ⟨bytes, hbytes⟩ := hclaim 0x600 mainRoute 3 rfl (by decide)
  have hsame := (hbytes request).trans (hbytes request').symm
  obtain ⟨m, hm, -⟩ := doRoute_v4 mainRoute request 0x600 3 rfl rfl
  rcases doRoute_frame 0x600 mainRoute 3 rfl with hnone | ⟨len, -, -, hall⟩
  · cases hm.symm.trans (hnone request)
  · obtain ⟨m₀, hm₀, -, -, hseq₀⟩ := hall request
    obtain ⟨m₁, hm₁, -, -, hseq₁⟩ := hall request'
    obtain rfl := Option.some.inj (hm₀.symm.trans (hsame.trans hm₁))
    rw [hseq₀, hrequest, hrequest'] at hseq₁
    cases hseq₁

end CHell.Netlink
