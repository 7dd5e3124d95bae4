import CHell.Sniffer.Packet
import CHell.Netlink.RouteAdd

/-!
# The blocking sniffers, `network/block_sniffer-v3.c` and `-v2.c`

| here | there |
| --- | --- |
| `Config`, `start`          | `Config` (:66-73) and what `main` puts in it (:227-234) |
| `isNew`                    | `is_new` (:119-128) |
| `record`                   | the three statements that extend the list (:157-159) |
| `reroute`                  | `pkt_hdr` from `open_netlink` on (:166-183) |
| `pktHdr`                   | `pkt_hdr` (:132-188) |
| `V2.reroute`, `V2.pktHdr`  | `pkt_hdr` of version 2 (:127-174) |

`step` and `V2.step` are one packet of `pcap_loop`. The heap accesses of version 3 are events, with
the sizes that were asked for; the model goes on as if there were room. A `Status` other than
`running` ends the run: `exit` was called, or the C has no defined behaviour from there on. Output
and the name of the interface are left out.
-/

namespace CHell.Sniffer

open CInt Inet Netlink

/-- Results of the calls one packet can lead to. -/
structure Answer where
  /-- `malloc` does not return NULL. -/
  malloc : Bool
  /-- `open_netlink`. -/
  sock : Int
  /-- What the stack frame of `do_route` holds. -/
  request : NlRequest
  /-- `send`. -/
  send : Int

inductive Event
  /-- Cell `i` of the array `blocked` is read or written. -/
  | slot (i : Nat)
  /-- `strcpy` of a text to a block of `size` bytes. -/
  | strcpy (size : Nat) (text : List UInt8)
  | doRoute (flags : Int) (dst : InetAddr) (ifIdx : Int)
deriving DecidableEq

inductive Status
  | running
  | exited
  | undefined
deriving DecidableEq

/-- The `char *` cells that `calloc(0, sizeof(int))` has room for. -/
def BLOCKED_SLOTS : Nat := 0 * 4 / 8

/-- A block one of the cells points to: the size asked for, and the text in it. -/
structure Slot where
  size : Nat
  text : List UInt8
deriving DecidableEq

structure Config where
  ifaceId : Int
  netlinkFlags : Int
  counter : Int
  blocked : List Slot
  counter_eq : counter = blocked.length

def start (ifaceId netlinkFlags : Int) : Config :=
  { ifaceId, netlinkFlags, counter := 0, blocked := [], counter_eq := rfl }

/-- The loop of `is_new` from index `i` on. -/
def isNewLoop (srcaddr : List UInt8) : Nat → List Slot → Int × List Event
  | _, [] => (0, [])
  | i, x :: xs =>
    if x.text = srcaddr then (-1, [.slot i])
    else
      let r := isNewLoop srcaddr (i + 1) xs
      (r.1, .slot i :: r.2)

def isNew (conf : Config) (srcaddr : List UInt8) : Int × List Event :=
  isNewLoop srcaddr 0 conf.blocked

/-- The block has `counter * sizeof(char)` bytes. -/
def record (conf : Config) (text : List UInt8) (malloc : Bool) : Status × Config × List Event :=
  let i := conf.counter.toNat
  let size := (toSize conf.counter).toNat
  if malloc = false then (.undefined, conf, [.slot i])
  else
    match h : addInt conf.counter 1 with
    | none => (.undefined, conf, [.slot i, .slot i, .strcpy size text])
    | some counter =>
      (.running,
       { conf with
         counter
         blocked := conf.blocked ++ [{ size, text }]
         counter_eq := by
          rw [(addInt_eq_some.1 h).1, conf.counter_eq, List.length_append]
          rfl },
       [.slot i, .slot i, .strcpy size text])

section Code

variable (p : InetPton)

def reroute (conf : Config) (text : List UInt8) (a : Answer) : Status × List Event :=
  if a.sock < 0 then (.exited, [])
  else
    let r := readAddr p text zeroAddr
    if r.1 ≠ 1 then (.exited, [])
    else
      let call := [Event.doRoute conf.netlinkFlags r.2 conf.ifaceId]
      match doRoute a.request conf.netlinkFlags r.2 conf.ifaceId with
      | none => (.undefined, call)
      | some _ => (if a.send = -1 then .exited else .running, call)

def pktHdr (conf : Config) (pkt : Packet) (a : Answer) : Status × Config × List Event :=
  match resetSource false pkt with
  | none => (.undefined, conf, [])
  | some none => (.running, conf, [])
  | some (some source) =>
    let text := inetNtoa source
    let new := isNew conf text
    if new.1 = -1 then (.running, conf, new.2)
    else
      match record conf text a.malloc with
      | (.running, conf', es) =>
        let r := reroute p conf' text a
        (r.1, conf', new.2 ++ es ++ r.2)
      | (status, conf', es) => (status, conf', new.2 ++ es)

structure State where
  status : Status
  conf : Config

def step (s : State) (i : Packet × Answer) : Option (State × List Event) :=
  if s.status = .running then
    let r := pktHdr p s.conf i.1 i.2
    some ({ status := r.1, conf := r.2.1 }, r.2.2)
  else none

/-! ## Version 2

It keeps no list: only `total`, an `int` that counts the packets. -/

namespace V2

structure Config where
  ifaceId : Int
  netlinkFlags : Int

/-- A text that `read_addr` rejects is reported, and routed all the same. -/
def reroute (conf : Config) (text : List UInt8) (a : Answer) : Status × List Event :=
  if a.sock < 0 then (.exited, [])
  else
    let r := readAddr p text zeroAddr
    let call := [Event.doRoute conf.netlinkFlags r.2 conf.ifaceId]
    match doRoute a.request conf.netlinkFlags r.2 conf.ifaceId with
    | none => (.undefined, call)
    | some _ => (.running, call)

def pktHdr (conf : Config) (total : Int) (pkt : Packet) (a : Answer) : Status × Int × List Event :=
  match addInt total 1 with
  | none => (.undefined, total, [])
  | some total =>
    match resetSource true pkt with
    | none => (.undefined, total, [])
    | some none => (.running, total, [])
    | some (some source) =>
      let r := reroute p conf (inetNtoa source) a
      (r.1, total, r.2)

structure State where
  status : Status
  total : Int

def step (conf : Config) (s : State) (i : Packet × Answer) : Option (State × List Event) :=
  if s.status = .running then
    let r := pktHdr p conf s.total i.1 i.2
    some ({ status := r.1, total := r.2.1 }, r.2.2)
  else none

end V2

end Code

/-- The destinations of the calls of `do_route`, in order. -/
def destinations (es : List Event) : List InetAddr :=
  es.filterMap fun e => match e with
    | .doRoute _ dst _ => some dst
    | _ => none

end CHell.Sniffer
