import CHell.Netlink.Header

/-!
# Building a route request, `network/route_add.c`

| here | there |
| --- | --- |
| `NLMSG_TAIL`  | `NLMSG_TAIL` (:26) |
| `rtattrAdd`   | `rtattr_add` (:29-49) |
| `InetAddr`    | `_inet_addr` (:52-56) |
| `readAddr`    | `read_addr` (:58-69), over the C library's `inet_pton` |
| `doRoute`     | `do_route` (:71-100): the bytes handed to `send` |

`network/block_sniffer-v2.c` and `-v3.c` hold the same text again. A `struct nlmsghdr *n` is the
object it points to the start of. `none` is an access outside an object.
-/

namespace CHell.Netlink

open CInt Memory Records

/-- Offset of `NLMSG_TAIL(n)` from `n`. -/
def NLMSG_TAIL (nlmsgLen : Nat) : Nat := (NLMSG_ALIGN nlmsgLen).toNat

/-- `if (alen) { memcpy(RTA_DATA(rta), data, alen); }` -/
def copyPayload (n : Mem) (rta : Nat) (data : List UInt8) (alen : Int) : Option Mem :=
  if alen ≠ 0 then memcpy n (RTA_DATA rta) data (toSize alen).toNat else some n

/-- The message afterwards and the return value. -/
def rtattrAdd (n : Mem) (maxlen type : Int) (data : List UInt8) (alen : Int) : Option (Mem × Int) := do
  let nlmsg_len ← nlmsgLen n 0
  let len := toInt (RTA_LENGTH alen)
  if toUInt (NLMSG_ALIGN nlmsg_len + RTA_ALIGN len) > toUInt maxlen then
    some (n, -1)
  else
    let rta := NLMSG_TAIL nlmsg_len
    let n ← store n (rta + 2) (toLE 2 (toUShort type).toNat)
    let n ← store n rta (toLE 2 (toUShort len).toNat)
    let n ← copyPayload n rta data alen
    let nlmsg_len ← nlmsgLen n 0
    let n ← store n 0 (toLE 4 (NLMSG_ALIGN (nlmsg_len + RTA_ALIGN len)).toNat)
    some (n, 0)

/-- `data` is the array of `sizeof(struct in6_addr)` bytes. -/
structure InetAddr where
  family : Int
  bitlen : Int
  data : List UInt8
  data_length : data.length = 16
deriving DecidableEq

/-- `_inet_addr res = {0}` -/
def zeroAddr : InetAddr where
  family := 0
  bitlen := 0
  data := List.replicate 16 0
  data_length := rfl

/-- `inet_pton` of the C library: per family, the address bytes it writes if it accepts a text. -/
structure InetPton where
  v4 : List UInt8 → Option { bs : List UInt8 // bs.length = 4 }
  v6 : List UInt8 → Option { bs : List UInt8 // bs.length = 16 }

/-- `inet_pton(family, addr, res->data)`: the return value and what it wrote over the front of
`data`, if anything. -/
def InetPton.call (p : InetPton) (family : Int) (addr : List UInt8) : Int × List UInt8 :=
  if family = AF_INET then
    match p.v4 addr with
    | some bs => (1, bs.1)
    | none => (0, [])
  else if family = AF_INET6 then
    match p.v6 addr with
    | some bs => (1, bs.1)
    | none => (0, [])
  else (-1, [])

theorem InetPton.call_length (p : InetPton) (family : Int) (addr : List UInt8) :
    (p.call family addr).2.length ≤ 16 := by
  unfold InetPton.call
  split
  · split
    · rename_i bs _
      simp [bs.2]
    · simp
  · split
    · split
      · rename_i bs _
        simp [bs.2]
      · simp
    · simp

/-- `addr` is the text without its NUL. -/
def readAddr (p : InetPton) (addr : List UInt8) (res : InetAddr) : Int × InetAddr :=
  let family : Int := if 58 ∈ addr then AF_INET6 else AF_INET
  let bitlen : Int := if 58 ∈ addr then 128 else 32
  let r := p.call (toChar family) addr
  (r.1, { family := toChar family
          bitlen := toChar bitlen
          data := r.2 ++ res.data.drop r.2.length
          data_length := by
            have hle := p.call_length (toChar family) addr
            simp only [List.length_append, List.length_drop, res.data_length, r]
            omega })

/-- Bytes of `struct { struct nlmsghdr n; struct rtmsg r; char buf[4096]; }`. -/
def NL_REQUEST_SIZE : Nat := 4124

/-- The memory of a local `nl_request` before anything is assigned to it. -/
abbrev NlRequest := { m : Mem // m.length = NL_REQUEST_SIZE }

def NLM_F_REQUEST : Nat := 1
def RT_SCOPE_NOWHERE : Nat := 255
def RT_SCOPE_LINK : Nat := 253
def RTPROT_BOOT : Nat := 3
def RTN_UNICAST : Nat := 1

def storeUInt8 (m : Mem) (off : Nat) (x : Int) : Option Mem := store m off (toLE 1 (toUChar x).toNat)
def storeUInt16 (m : Mem) (off : Nat) (x : Int) : Option Mem := store m off (toLE 2 (toUShort x).toNat)
def storeUInt32 (m : Mem) (off : Nat) (x : Int) : Option Mem := store m off (toLE 4 (toUInt x).toNat)

/-- The assignments to the two headers (:79-90). -/
def routeHeader (m : Mem) (flags : Int) (dst : InetAddr) : Option Mem := do
  let m ← storeUInt32 m 0 (12 + NLMSG_HDRLEN)
  let m ← storeUInt16 m 6 (NLM_F_REQUEST ||| (toUInt flags).toNat : Nat)
  let m ← storeUInt16 m 4 RTM_NEWROUTE
  let m ← storeUInt8 m 16 dst.family
  let m ← storeUInt8 m 20 RT_TABLE_MAIN
  let m ← storeUInt8 m 22 RT_SCOPE_NOWHERE
  let m ← storeUInt8 m 21 RTPROT_BOOT
  let m ← storeUInt8 m 23 RTN_UNICAST
  let m ← storeUInt8 m 17 dst.bitlen
  storeUInt8 m 22 RT_SCOPE_LINK

/-- What the two attributes' return values are is not looked at. -/
def doRoute (request : NlRequest) (flags : Int) (dst : InetAddr) (ifIdx : Int) : Option Mem := do
  let m ← routeHeader request.1 flags dst
  let (m, _) ← rtattrAdd m NL_REQUEST_SIZE RTA_DST dst.data (dst.bitlen.tdiv 8)
  let (m, _) ← rtattrAdd m NL_REQUEST_SIZE RTA_OIF (toLE 4 (toUInt ifIdx).toNat) 4
  some m

end CHell.Netlink
