import CHell.Lib.CInt
import CHell.Sniffer.Packet

/-!
# The dissectors, `network/net-cap-v3.c` and `network/net-cap-v4.c`

| here | there |
| --- | --- |
| `V3.pktHdr` | `pkt_hdr` of version 3 (:10-65) |
| `V4.pktHdr` | `pkt_hdr` of version 4 (:88-148) |

Both print what they find in the headers of a packet. A `Line` is one `printf`, with the values it is
given; `count` is the value the static counter of version 4 has on entry.
-/

namespace CHell.Sniffer

open CInt Inet

def ETHERTYPE_IP : Nat := 0x0800
def IPPROTO_IP : UInt8 := 0
def IPPROTO_ICMP : UInt8 := 1
def IPPROTO_UDP : UInt8 := 17

/-- `((*(tcp_hdr + 12)) & 0xF0) >> 4`, times 4. -/
def readTcphdrlen (pkt : Packet) (tcph : Nat) : Option Nat := do
  let b ← pkt (tcph + 12)
  some (b.toNat / 16 * 4)

namespace V3

inductive Line
  | notIp
  | captureLength (caplen : Nat)
  | totalLength (len : Nat)
  | ipHdrLen (n : Nat)
  | notTcp
  | tcpHdrLen (n : Nat)
  | totalHdrSize (n : Nat)
  | payloadSize (n : Int)
  /-- The address of the payload, as an offset from `pkt`. -/
  | memAddress (off : Nat)
deriving DecidableEq

/-- `caplen` is unsigned, and so is the difference before it becomes an `int`. -/
def payloadLen (caplen total_hdr_size : Nat) : Int := toInt (toUInt ((caplen : Int) - total_hdr_size))

def pktHdr (caplen len : Nat) (pkt : Packet) : Option (List Line) := do
  let ether_type ← readPort pkt 12
  if ether_type ≠ ETHERTYPE_IP then some [.notIp]
  else
    let ip_hdr_len ← readIphdrlen pkt
    let lines := [.captureLength caplen, .totalLength len, .ipHdrLen ip_hdr_len]
    let protocol ← pkt (ETH_HLEN + 9)
    if protocol ≠ IPPROTO_TCP then some (lines ++ [.notTcp])
    else
      let tcp_hdr_len ← readTcphdrlen pkt (ETH_HLEN + ip_hdr_len)
      let total_hdr_size := ETH_HLEN + ip_hdr_len + tcp_hdr_len
      some (lines ++ [.tcpHdrLen tcp_hdr_len, .totalHdrSize total_hdr_size,
        .payloadSize (payloadLen caplen total_hdr_size), .memAddress total_hdr_size])

end V3

namespace V4

inductive Line
  | packetNumber (count : Int)
  | invalidIp (size_ip : Nat)
  | source (addr : InAddr)
  | dest (addr : InAddr)
  | tcp
  | udp
  | icmp
  | ip
  /-- "IDK what the fvck this pkt" -/
  | unknown
  | invalidTcp (size_tcp : Nat)
  | srcPort (port : Nat)
  | dstPort (port : Nat)
  | payload (n : Int)
deriving DecidableEq

/-- What is printed about the protocol. -/
def protocolLine (ip_p : UInt8) : Line :=
  if ip_p = IPPROTO_TCP then .tcp
  else if ip_p = IPPROTO_UDP then .udp
  else if ip_p = IPPROTO_ICMP then .icmp
  else if ip_p = IPPROTO_IP then .ip
  else .unknown

def sizePayload (ip_len size_ip size_tcp : Nat) : Int := (ip_len : Int) - (size_ip + size_tcp : Nat)

def pktHdr (count : Int) (pkt : Packet) : Option (List Line) := do
  let size_ip ← readIphdrlen pkt
  if size_ip < 20 then some [.packetNumber count, .invalidIp size_ip]
  else
    let ip_src ← readAddr4 pkt (ETH_HLEN + 12)
    let ip_dst ← readAddr4 pkt (ETH_HLEN + 16)
    let ip_p ← pkt (ETH_HLEN + 9)
    let lines := [.packetNumber count, .source ip_src, .dest ip_dst, protocolLine ip_p]
    if ip_p ≠ IPPROTO_TCP then some lines
    else
      let tcp := ETH_HLEN + size_ip
      let size_tcp ← readTcphdrlen pkt tcp
      if size_tcp < 20 then some (lines ++ [.invalidTcp size_tcp])
      else
        let th_sport ← readPort pkt tcp
        let th_dport ← readPort pkt (tcp + 2)
        let ip_len ← readPort pkt (ETH_HLEN + 2)
        let size_payload := sizePayload ip_len size_ip size_tcp
        some (lines ++ [.srcPort th_sport, .dstPort th_dport] ++
          if 0 < size_payload then [.payload size_payload] else [])

end V4

end CHell.Sniffer
