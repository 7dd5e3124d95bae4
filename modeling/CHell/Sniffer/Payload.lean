import CHell.Sniffer.Truncation

/-!
# How much payload the dissectors find

| here | there |
| --- | --- |
| `V3.payloadLenAt`  | `payload_len` of version 3 (:47) |
| `V4.sizePayloadAt` | `size_payload` of version 4 (:141) |

Both are `none` where `pkt_hdr` returns before, or reads what was not captured; `V3.pktHdr_payload` and
`V4.pktHdr_payload` say that they are what is printed.

A short packet is padded by the sender to the 60 bytes that Ethernet wants. Version 3 subtracts the headers from
what was captured, version 4 from the total length in the IP header: the first counts the padding as payload.
-/

namespace CHell.Sniffer

open CInt Inet

def V3.payloadLenAt (caplen : Nat) (pkt : Packet) : Option Int := do
  let ether_type ← readPort pkt 12
  guard (ether_type = ETHERTYPE_IP)
  let ip_hdr_len ← readIphdrlen pkt
  let protocol ← pkt (ETH_HLEN + 9)
  guard (protocol = IPPROTO_TCP)
  let tcp_hdr_len ← readTcphdrlen pkt (ETH_HLEN + ip_hdr_len)
  some (V3.payloadLen caplen (ETH_HLEN + ip_hdr_len + tcp_hdr_len))

def V4.sizePayloadAt (pkt : Packet) : Option Int := do
  let size_ip ← readIphdrlen pkt
  guard (20 ≤ size_ip)
  let _ip_src ← readAddr4 pkt (ETH_HLEN + 12)
  let _ip_dst ← readAddr4 pkt (ETH_HLEN + 16)
  let ip_p ← pkt (ETH_HLEN + 9)
  guard (ip_p = IPPROTO_TCP)
  let size_tcp ← readTcphdrlen pkt (ETH_HLEN + size_ip)
  guard (20 ≤ size_tcp)
  let _th_sport ← readPort pkt (ETH_HLEN + size_ip)
  let _th_dport ← readPort pkt (ETH_HLEN + size_ip + 2)
  let ip_len ← readPort pkt (ETH_HLEN + 2)
  some (V4.sizePayload ip_len size_ip size_tcp)

theorem V3.pktHdr_payload {caplen : Nat} {pkt : Packet} {n : Int} (h : V3.payloadLenAt caplen pkt = some n)
    (len : Nat) :
    ∃ lines off, V3.pktHdr caplen len pkt = some (lines ++ [.payloadSize n, .memAddress off]) := by
  simp only [V3.payloadLenAt, Option.bind_eq_bind, Option.bind_eq_some_iff, Option.guard_eq_some', exists_const] at h
  obtain ⟨ether_type, htype, hip, ip_hdr_len, hihl, protocol, hproto, htcp, tcp_hdr_len, hthl, hn⟩ := h
  cases hn
  refine ⟨[.captureLength caplen, .totalLength len, .ipHdrLen ip_hdr_len, .tcpHdrLen tcp_hdr_len,
    .totalHdrSize (ETH_HLEN + ip_hdr_len + tcp_hdr_len)], ETH_HLEN + ip_hdr_len + tcp_hdr_len, ?_⟩
  simp [V3.pktHdr, htype, hip, hihl, hproto, htcp, hthl]

theorem V4.pktHdr_payload {pkt : Packet} {n : Int} (h : V4.sizePayloadAt pkt = some n) (count : Int) :
    ∃ lines, V4.pktHdr count pkt = some (lines ++ if 0 < n then [.payload n] else []) := by
  simp only [V4.sizePayloadAt, Option.bind_eq_bind, Option.bind_eq_some_iff, Option.guard_eq_some', exists_const] at h
  obtain ⟨size_ip, hihl, hip, ip_src, hsrc, ip_dst, hdst, ip_p, hproto, htcp, size_tcp, hthl, hsize, sport, hsport,
    dport, hdport, ip_len, hlen, hn⟩ := h
  cases hn
  refine ⟨[.packetNumber count, .source ip_src, .dest ip_dst, V4.protocolLine ip_p, .srcPort sport, .dstPort dport], ?_⟩
  simp [V4.pktHdr, hihl, hsrc, hdst, hproto, htcp, hthl, hsport, hdport, hlen, Nat.not_lt.2 hip, Nat.not_lt.2 hsize]

/-! ## Well-formed frames -/

/-- The header lengths and the total length a frame gives. -/
def ipHl (frame : List UInt8) : Nat := (padded frame ETH_HLEN).toNat % 16 * 4
def tcpHl (frame : List UInt8) : Nat := (padded frame (tcpAt (padded frame) + 12)).toNat / 16 * 4
def ipLen (frame : List UInt8) : Nat := portAt (padded frame) (ETH_HLEN + 2)

/-- An IPv4/TCP packet, all of it captured. Behind it there may be padding. (A header length is four bits of words:
it is 60 bytes at most.) -/
structure WellFormed (frame : List UInt8) : Prop where
  etherType : portAt (padded frame) 12 = ETHERTYPE_IP
  version : (padded frame ETH_HLEN).toNat / 16 = 4
  protocol : padded frame (ETH_HLEN + 9) = IPPROTO_TCP
  ipHl_le : 20 ≤ ipHl frame
  tcpHl_le : 20 ≤ tcpHl frame
  headers_le : ipHl frame + tcpHl frame ≤ ipLen frame
  ipLen_le : ETH_HLEN + ipLen frame ≤ frame.length
  /-- `caplen` is 32 bits wide. -/
  caplen_lt : frame.length < 4294967296

variable {frame : List UInt8}

/-- The headers lie inside the frame. -/
theorem WellFormed.headers_captured (h : WellFormed frame) : ETH_HLEN + ipHl frame + tcpHl frame ≤ frame.length := by
  have := h.headers_le
  have := h.ipLen_le
  omega

theorem WellFormed.readIphdrlen (h : WellFormed frame) : readIphdrlen (captured frame) = some (ipHl frame) := by
  have := h.headers_captured
  have := h.ipHl_le
  rw [readIphdrlen_captured, if_pos (by omega)]
  rfl

theorem WellFormed.readProtocol (h : WellFormed frame) : captured frame (ETH_HLEN + 9) = some IPPROTO_TCP := by
  have := h.headers_captured
  have := h.ipHl_le
  rw [captured_eq, if_pos (by omega), h.protocol]

theorem WellFormed.readTcphdrlen (h : WellFormed frame) :
    readTcphdrlen (captured frame) (ETH_HLEN + ipHl frame) = some (tcpHl frame) := by
  have := h.headers_captured
  have := h.tcpHl_le
  rw [readTcphdrlen_captured, if_pos (by omega)]
  rfl

/-- Version 3 takes all that was captured behind the headers for payload. -/
theorem WellFormed.payloadLenAt (h : WellFormed frame) : V3.payloadLenAt frame.length (captured frame) =
    some (V3.payloadLen frame.length (ETH_HLEN + ipHl frame + tcpHl frame)) := by
  have hlen := h.headers_captured
  have hihl := h.ipHl_le
  have htype : readPort (captured frame) 12 = some ETHERTYPE_IP := by
    rw [readPort_captured, if_pos (by unfold ETH_HLEN at hlen; omega), h.etherType]
  simp [V3.payloadLenAt, htype, h.readIphdrlen, h.readProtocol, h.readTcphdrlen]

/-- Version 4 goes by the IP header. -/
theorem WellFormed.sizePayloadAt (h : WellFormed frame) :
    V4.sizePayloadAt (captured frame) = some (V4.sizePayload (ipLen frame) (ipHl frame) (tcpHl frame)) := by
  have hlen := h.headers_captured
  have hihl := h.ipHl_le
  have hthl := h.tcpHl_le
  obtain ⟨source, hsource⟩ := readAddr4_captured frame (ETH_HLEN + 12)
  obtain ⟨dest, hdest⟩ := readAddr4_captured frame (ETH_HLEN + 16)
  rw [if_pos (by omega)] at hsource hdest
  have hport : ∀ off, off + 1 < frame.length → readPort (captured frame) off = some (portAt (padded frame) off) := by
    intro off hoff
    rw [readPort_captured, if_pos hoff]
  simp [V4.sizePayloadAt, h.readIphdrlen, h.readProtocol, h.readTcphdrlen, hsource, hdest, hihl, hthl,
    hport (ETH_HLEN + ipHl frame) (by omega), hport (ETH_HLEN + ipHl frame + 2) (by omega),
    hport (ETH_HLEN + 2) (by omega), ipLen]

/-- The payload: what the IP packet holds behind its two headers. -/
def payloadLength (frame : List UInt8) : Int := (ipLen frame : Int) - (ipHl frame + tcpHl frame : Nat)

/-- Both dissectors get that. -/
def SamePayload (frame : List UInt8) : Prop :=
  V3.payloadLenAt frame.length (captured frame) = some (payloadLength frame) ∧
    V4.sizePayloadAt (captured frame) = some (payloadLength frame)

/-- **The dissectors agree on a packet without padding**, and on no other. Version 4 is right about all. -/
theorem samePayload_iff (h : WellFormed frame) :
    V4.sizePayloadAt (captured frame) = some (payloadLength frame) ∧
      (SamePayload frame ↔ frame.length = ETH_HLEN + ipLen frame) := by
  have hv4 : V4.sizePayloadAt (captured frame) = some (payloadLength frame) := h.sizePayloadAt
  refine ⟨hv4, ?_⟩
  have hlen := h.headers_captured
  have hip := h.ipLen_le
  have hcaplen := h.caplen_lt
  have hport : ipLen frame < 65536 := by
    have hhi := (padded frame (ETH_HLEN + 2)).toNat_lt
    have hlo := (padded frame (ETH_HLEN + 2 + 1)).toNat_lt
    unfold ipLen portAt
    omega
  rw [SamePayload, and_iff_left hv4, h.payloadLenAt, Option.some.injEq]
  unfold V3.payloadLen payloadLength toInt toUInt
  omega

/-- An acknowledgement, 40 bytes without payload. -/
def ackFrame : List UInt8 :=
  [0, 0, 0, 0, 0, 0, 0, 0, 0, 0, 0, 0, 8, 0,
   0x45, 0, 0, 40, 0, 0, 0, 0, 64, 6, 0, 0, 10, 0, 0, 1, 10, 0, 0, 2,
   1, 187, 192, 0, 0, 0, 0, 0, 0, 0, 0, 0, 0x50, 16, 0, 0, 0, 0, 0, 0]

theorem samePayload_ack :
    V4.sizePayloadAt (captured ackFrame) = some (payloadLength ackFrame) ∧
      (SamePayload ackFrame ↔ ackFrame.length = ETH_HLEN + ipLen ackFrame) :=
  samePayload_iff (by constructor <;> decide)

/-- As it comes from the wire, with 6 bytes of padding: version 3 finds a payload of 6 bytes. -/
theorem samePayload_padded : ¬ ∀ frame : List UInt8, WellFormed frame → SamePayload frame := by
  intro hclaim
  have hframe : WellFormed (ackFrame ++ [0, 0, 0, 0, 0, 0]) := by constructor <;> decide
  have hsame := (hclaim _ hframe).1
  revert hsame
  decide

end CHell.Sniffer
