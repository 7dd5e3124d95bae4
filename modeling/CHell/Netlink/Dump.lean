import CHell.Netlink.Header

/-!
# Receiving a route dump, `network/route_print.c`

| here | there |
| --- | --- |
| `rtnlReceive`          | `rtnl_receive` (:14-33) |
| `rtnlRecvmsg`          | `rtnl_recvmsg` (:35-70) |
| `dumpBody`             | one test and one round of the loop over messages (:212-231) |
| `getRouteDumpResponse` | `get_route_dump_response` (:191-236) |

The socket is a queue of datagrams and a script that says of each coming `recvmsg` call whether it
fails, with which `errno`, and what `perror` makes of `errno`; a call behind the end of the script, or on
an empty queue, does not return. The trace records what happens to the answer buffer, in order. The C goes on reading a
buffer it has freed; the model then reads the bytes the buffer had. Where `rtnl_recvmsg` does not
assign `*answer`, `buf` is not a pointer to anything, and the model has no bytes for it.
-/

namespace CHell.Netlink

open CInt Memory

def EINTR : Int := 4
def EAGAIN : Int := 11
def ENOMEM : Int := 12
def ENODATA : Int := 61

def NLMSG_ERROR : Nat := 2
def NLMSG_DONE : Nat := 3
def NLM_F_DUMP_INTR : Nat := 16

/-! ## The socket -/

structure Datagram where
  bytes : List UInt8
  /-- `nl_pid` of the sender. -/
  pid : Nat
  size_le : (bytes.length : Int) ≤ INT_MAX

/-- A failed `recvmsg`. -/
structure RecvError where
  errno : Int
  /-- `errno` once `perror` has written about it. -/
  reported : Int
deriving DecidableEq

structure Sock where
  queue : List Datagram
  script : List (Option RecvError)

/-- A return value, and what the call has written through `msg`. -/
structure Received where
  len : Int
  bytes : List UInt8
  pid : Nat

/-- With `peek` the flags are `MSG_PEEK | MSG_TRUNC`: the datagram stays and its full length is
returned. -/
def rtnlReceive (peek : Bool) (iovLen : Nat) (queue : List Datagram) :
    List (Option RecvError) → Option (Received × Sock)
  | [] => none
  | some e :: script =>
    if e.errno = EINTR ∨ e.errno = EAGAIN then rtnlReceive peek iovLen queue script
    else some ({ len := -e.reported, bytes := [], pid := 0 }, { queue, script })
  | none :: script =>
    match queue with
    | [] => none
    | d :: rest =>
      let bytes := d.bytes.take iovLen
      let len := if peek then d.bytes.length else bytes.length
      let sock := { queue := if peek then d :: rest else rest, script }
      if len = 0 then some ({ len := -ENODATA, bytes, pid := d.pid }, sock)
      else some ({ len, bytes, pid := d.pid }, sock)

/-- What becomes of the answer buffer, and what is done with it. -/
inductive DumpEvent
  | alloc
  | free
  /-- `printf("Main routing table IPv4\n")` -/
  | heading
  /-- The header at this offset is read. -/
  | header (h : Nat)
  /-- `print_route` is called with this message. -/
  | printRoute (msg : List UInt8)
deriving DecidableEq

/-- What `rtnl_recvmsg` leaves: `answer` is `none` where `*answer` is not assigned. -/
structure RecvAnswer where
  status : Int
  answer : Option (List UInt8)
  pid : Nat
  events : List DumpEvent

/-- `malloc` says whether the allocation succeeds. -/
def rtnlRecvmsg (malloc : Bool) (sock : Sock) : Option (RecvAnswer × Sock) := do
  let (peeked, sock) ← rtnlReceive true 0 sock.queue sock.script
  if peeked.len < 0 then
    some ({ status := peeked.len, answer := none, pid := peeked.pid, events := [] }, sock)
  else if malloc = false then
    some ({ status := -ENOMEM, answer := none, pid := peeked.pid, events := [] }, sock)
  else
    let (got, sock) ← rtnlReceive false peeked.len.toNat sock.queue sock.script
    if got.len < 0 then
      some ({ status := got.len, answer := none, pid := got.pid, events := [.alloc, .free] }, sock)
    else
      some ({ status := got.len, answer := some got.bytes, pid := got.pid, events := [.alloc] }, sock)

/-! ## The loop over messages -/

/-- `NLMSG_OK(h, len)`: it reads `nlmsg_len` only if a header fits. -/
def NLMSG_OK (m : Mem) (h : Nat) (len : Int) : Option Bool :=
  if 16 ≤ len then (nlmsgLen m h).map fun (l : Nat) => decide (16 ≤ l) && decide ((l : Int) ≤ len)
  else some false

structure DumpWalk where
  h : Nat
  msglen : Int
  events : List DumpEvent

/-- The loop is left with the return value of the function and the whole trace. -/
def dumpBody (m : Mem) (pid : Nat) (status : Int) (s : DumpWalk) :
    DumpWalk ⊕ Option (Int × List DumpEvent) :=
  let read := if 16 ≤ s.msglen then s.events ++ [.header s.h] else s.events
  match NLMSG_OK m s.h s.msglen with
  | none => .inr none
  | some false => .inr (some (status, read ++ [.free]))
  | some true =>
    match nlmsgFlags m s.h, nlmsgType m s.h, nlmsgLen m s.h with
    | some flags, some type, some l =>
      if flags &&& NLM_F_DUMP_INTR ≠ 0 then .inr (some (-1, read ++ [.free]))
      else if pid ≠ 0 then .inl { s with events := read } -- `continue` leaves `h` where it is
      else
        match slice m s.h l with
        | none => .inr none
        | some msg =>
          let events := if type = NLMSG_ERROR then read ++ [.free] else read
          .inl { h := s.h + (NLMSG_ALIGN l).toNat
                 msglen := shorten s.msglen (NLMSG_ALIGN l)
                 events := events ++ [.printRoute msg] }
    | _, _, _ => .inr none

/-- At most `rounds` rounds of the loop. -/
def getRouteDumpResponse (rounds : Nat) (malloc : Bool) (sock : Sock) :
    Option (Option (Int × List DumpEvent) × Sock) := do
  let (a, sock) ← rtnlRecvmsg malloc sock
  let r ← Loop.loop (dumpBody (a.answer.getD []) a.pid a.status) rounds
    { h := 0, msglen := a.status, events := a.events ++ [.heading] }
  some (r, sock)

/-- The messages handed to `print_route`, in order. -/
def handed (events : List DumpEvent) : List (List UInt8) :=
  events.filterMap fun e => match e with
    | .printRoute msg => some msg
    | _ => none

end CHell.Netlink
