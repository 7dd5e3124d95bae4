import CHell.Sniffer.Acceptance
import CHell.Sniffer.NetCap

/-!
# Packets cut off by the capture

libpcap hands over `caplen` bytes of a packet, and none of the callbacks compares an offset with
`caplen` before it reads there. `captured frame` is undefined from `caplen` on; `reads_captured_iff`
says of each callback for which frames all it reads is defined.
-/

namespace CHell.Sniffer

open Inet

variable {frame : List UInt8}

/-! ## Reads of a captured frame -/

theorem isSome_guard_bind {α β : Type} {c : Prop} [Decidable c] {a : α} {f : α → Option β} :
    ((if c then some a else none) >>= f).isSome = true ↔ c ∧ (f a).isSome = true := by
  by_cases hc : c <;> simp [hc]

theorem isSome_return {α : Type} {c : Prop} [Decidable c] {a : α} {k : Option α} :
    (if c then some a else k).isSome = true ↔ (¬ c → k.isSome = true) := by
  by_cases hc : c <;> simp [hc]

theorem captured_eq (frame : List UInt8) (i : Nat) :
    captured frame i = if i < frame.length then some (padded frame i) else none := by
  unfold captured
  by_cases hi : i < frame.length
  · rw [if_pos hi, (captures_padded frame).getElem? hi]
  · rw [if_neg hi, List.getElem?_eq_none (by omega)]

theorem readPort_captured (frame : List UInt8) (off : Nat) :
    readPort (captured frame) off = if off + 1 < frame.length then some (portAt (padded frame) off) else none := by
  by_cases hoff : off + 1 < frame.length
  · rw [if_pos hoff, (captures_padded frame).readPort hoff]
  · unfold readPort
    rw [if_neg hoff, captured_eq, captured_eq, if_neg hoff]
    split <;> rfl

theorem readAddr4_captured (frame : List UInt8) (off : Nat) : ∃ addr,
    readAddr4 (captured frame) off = if off + 3 < frame.length then some addr else none := by
  refine ⟨⟨padded frame off, padded frame (off + 1), padded frame (off + 2), padded frame (off + 3)⟩, ?_⟩
  unfold readAddr4
  rw [captured_eq, captured_eq, captured_eq, captured_eq]
  by_cases hoff : off + 3 < frame.length
  · rw [if_pos hoff, if_pos hoff, if_pos (by omega), if_pos (by omega), if_pos (by omega)]
    rfl
  · rw [if_neg hoff, if_neg hoff]
    simp

theorem readIphdrlen_captured (frame : List UInt8) :
    readIphdrlen (captured frame) =
      if ETH_HLEN < frame.length then some ((padded frame ETH_HLEN).toNat % 16 * 4) else none := by
  unfold readIphdrlen
  rw [captured_eq]
  split <;> rfl

theorem readTcphdrlen_captured (frame : List UInt8) (tcph : Nat) :
    readTcphdrlen (captured frame) tcph =
      if tcph + 12 < frame.length then some ((padded frame (tcph + 12)).toNat / 16 * 4) else none := by
  unfold readTcphdrlen
  rw [captured_eq]
  split <;> rfl

/-- One of the ports is 443. -/
def Is443 (frame : List UInt8) : Prop :=
  portAt (padded frame) (tcpAt (padded frame)) = 443 ∨ portAt (padded frame) (tcpAt (padded frame) + 2) = 443

instance (frame : List UInt8) : Decidable (Is443 frame) := inferInstanceAs (Decidable (_ ∨ _))

theorem readIs443_captured (h : tcpAt (padded frame) + 12 < frame.length) :
    readIs443 (captured frame) (tcpAt (padded frame)) = some (decide (Is443 frame)) := by
  unfold readIs443 Is443
  rw [readPort_captured, readPort_captured, if_pos (by omega), if_pos (by omega), Option.bind_eq_bind,
    Option.bind_some]
  by_cases hsource : portAt (padded frame) (tcpAt (padded frame)) = 443 <;> simp [hsource]

/-! ## The callbacks -/

/-- `tcph->doff` and, if a port is 443, `tcph->th_flags` were captured. -/
def TcpCaptured (frame : List UInt8) : Prop :=
  tcpAt (padded frame) + 12 < frame.length ∧ (Is443 frame → tcpAt (padded frame) + 13 < frame.length)

/-- What `block_sniffer-v3` reads of a TCP header. -/
theorem tcp_captured_iff (frame : List UInt8) (source : InAddr) :
    (do
      let _doff ← captured frame (tcpAt (padded frame) + 12)
      if ← readIs443 (captured frame) (tcpAt (padded frame)) then
        let pktflag ← captured frame (tcpAt (padded frame) + 13)
        if pktflag.toNat = 20 then some (some source) else some none
      else some none).isSome = true ↔ TcpCaptured frame := by
  unfold TcpCaptured
  rw [captured_eq, isSome_guard_bind]
  refine and_congr_right fun hdoff => ?_
  rw [readIs443_captured hdoff, Option.bind_eq_bind, Option.bind_some]
  by_cases h443 : Is443 frame
  · rw [if_pos (by simpa using h443), captured_eq, isSome_guard_bind]
    by_cases hflag : (padded frame (tcpAt (padded frame) + 13)).toNat = 20 <;> simp [hflag, h443]
  · simp [h443]

/-- `block_sniffer-v3` reads both addresses of any packet. -/
theorem resetSource_captured_iff (frame : List UInt8) :
    (resetSource false (captured frame)).isSome = true ↔
      34 ≤ frame.length ∧ (padded frame 23 = IPPROTO_TCP → TcpCaptured frame) := by
  obtain ⟨source, hsource⟩ := readAddr4_captured frame (ETH_HLEN + 12)
  obtain ⟨dest, hdest⟩ := readAddr4_captured frame (ETH_HLEN + 16)
  unfold resetSource
  rw [hsource, hdest, readIphdrlen_captured, captured_eq frame (ETH_HLEN + 9)]
  simp only [isSome_guard_bind]
  by_cases hlen : 34 ≤ frame.length
  · have hread : ETH_HLEN < frame.length ∧ ETH_HLEN + 9 < frame.length ∧ ETH_HLEN + 12 + 3 < frame.length ∧
        ETH_HLEN + 16 + 3 < frame.length := by unfold ETH_HLEN; omega
    rw [if_pos hread.1]
    simp only [hread, hlen, true_and]
    by_cases hproto : padded frame 23 = IPPROTO_TCP
    · simp only [if_pos (show padded frame (ETH_HLEN + 9) = IPPROTO_TCP from hproto), Bool.false_eq_true, if_false,
        hproto, forall_const, Option.bind_eq_bind, Option.bind_some]
      exact tcp_captured_iff frame source
    · simp only [if_neg (show ¬ padded frame (ETH_HLEN + 9) = IPPROTO_TCP from hproto), hproto, false_imp_iff,
        Option.isSome_some]
  · have hread : ¬ ETH_HLEN + 16 + 3 < frame.length := by unfold ETH_HLEN; omega
    simp [hread, hlen]

/-- `net-cap-v3` reads nothing behind the Ethernet type of a packet that is not IP. -/
theorem netCap_v3_captured_iff (len : Nat) (frame : List UInt8) :
    (V3.pktHdr frame.length len (captured frame)).isSome = true ↔
      14 ≤ frame.length ∧ (portAt (padded frame) 12 = ETHERTYPE_IP →
        24 ≤ frame.length ∧ (padded frame 23 = IPPROTO_TCP → tcpAt (padded frame) + 12 < frame.length)) := by
  unfold V3.pktHdr
  simp only [readPort_captured, readIphdrlen_captured, captured_eq, readTcphdrlen_captured, isSome_guard_bind,
    isSome_return, ne_eq, not_not, Option.isSome_some, and_true]
  refine and_congr (by omega) (imp_congr_right fun _ => ?_)
  rw [← and_assoc]
  exact and_congr (by unfold ETH_HLEN; omega) Iff.rfl

/-- `net-cap-v4` reads the addresses if the header length is a possible one. -/
theorem netCap_v4_captured_iff (count : Int) (frame : List UInt8) :
    (V4.pktHdr count (captured frame)).isSome = true ↔
      15 ≤ frame.length ∧ (5 ≤ (padded frame 14).toNat % 16 →
        34 ≤ frame.length ∧ (padded frame 23 = IPPROTO_TCP → tcpAt (padded frame) + 12 < frame.length)) := by
  obtain ⟨source, hsource⟩ := readAddr4_captured frame (ETH_HLEN + 12)
  obtain ⟨dest, hdest⟩ := readAddr4_captured frame (ETH_HLEN + 16)
  unfold V4.pktHdr
  simp only [hsource, hdest, readPort_captured, readIphdrlen_captured, captured_eq, readTcphdrlen_captured,
    isSome_guard_bind, isSome_return, ne_eq, not_not, Option.isSome_some, and_true]
  have htcp : tcpAt (padded frame) = ETH_HLEN + (padded frame ETH_HLEN).toNat % 16 * 4 := rfl
  rw [htcp]
  refine and_congr Iff.rfl ?_
  by_cases hproto : padded frame (ETH_HLEN + 9) = IPPROTO_TCP
  · have hproto' : padded frame 23 = IPPROTO_TCP := hproto
    simp only [hproto, hproto', forall_const]
    unfold ETH_HLEN
    omega
  · have hproto' : padded frame 23 ≠ IPPROTO_TCP := hproto
    simp only [hproto, hproto', false_imp_iff, and_true]
    unfold ETH_HLEN
    omega

/-- **Which frames are read within `caplen`**, by each of the three callbacks. -/
theorem reads_captured_iff (count : Int) (len : Nat) (frame : List UInt8) :
    ((resetSource false (captured frame)).isSome = true ↔
      34 ≤ frame.length ∧ (padded frame 23 = IPPROTO_TCP → TcpCaptured frame)) ∧
    ((V3.pktHdr frame.length len (captured frame)).isSome = true ↔
      14 ≤ frame.length ∧ (portAt (padded frame) 12 = ETHERTYPE_IP →
        24 ≤ frame.length ∧ (padded frame 23 = IPPROTO_TCP → tcpAt (padded frame) + 12 < frame.length))) ∧
    ((V4.pktHdr count (captured frame)).isSome = true ↔
      15 ≤ frame.length ∧ (5 ≤ (padded frame 14).toNat % 16 →
        34 ≤ frame.length ∧ (padded frame 23 = IPPROTO_TCP → tcpAt (padded frame) + 12 < frame.length))) :=
  ⟨resetSource_captured_iff frame, netCap_v3_captured_iff len frame, netCap_v4_captured_iff count frame⟩

/-- **The Ethernet header of an IP packet and nothing else** takes all three beyond the capture. -/
theorem reads_beyond_capture :
    ¬ ∀ (count : Int) (len : Nat) (frame : List UInt8), 14 ≤ frame.length → frame.length ≤ 1024 →
      (resetSource false (captured frame)).isSome = true ∧
      (V3.pktHdr frame.length len (captured frame)).isSome = true ∧
      (V4.pktHdr count (captured frame)).isSome = true := by
  intro hclaim
  have hreads := hclaim 1 60 [0, 0, 0, 0, 0, 0, 0, 0, 0, 0, 0, 0, 0x08, 0x00] (by decide) (by decide)
  exact absurd hreads.2.1 (by decide)

end CHell.Sniffer
