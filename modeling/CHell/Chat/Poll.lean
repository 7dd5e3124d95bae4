import CHell.Chat.Hub
import CHell.Lib.CInt
import Mathlib.Data.List.Perm.Basic
import Mathlib.Data.List.Nodup

/-!
# The poll server, `network/multi-chat-v1.c`

| here | there |
| --- | --- |
| `Pollfd`       | `struct pollfd` |
| `addToPfds`    | `add_to_pfds` (:68) |
| `delFromPfds`  | `del_from_pfds` (:80) |
| `scanEntry`    | one pass through the body of `for (int i = 0; i < fd_count; i++)` (:121-167) |
| `step`         | `main`'s `for (;;)` (:113), one `poll` call or one round of the inner loop at a time |
| `start`        | `main` up to the loop (:97-111), after `create_listener_sock` succeeded |

`pfds` is the heap block itself, cells beyond `fd_count` included: `del_from_pfds` leaves its
last entry there and `add_to_pfds` reuses the cell without touching `revents`. What a cell
holds before it is first written (memory from `malloc` and `realloc`) is the parameter `mem`.
A step is `none` where the C has no defined behaviour: an access outside the block, a failed
`realloc`, an `int` overflow. Output (`printf`, `perror`) is left out.
-/

namespace CHell.Chat.Poll

/-- `POLLIN`. -/
def POLLIN : Nat := 1

structure Pollfd where
  fd : Fd
  events : Nat
  revents : Nat
deriving DecidableEq

/-- `revents & POLLIN`. -/
def Pollfd.readable (e : Pollfd) : Bool := e.revents &&& POLLIN != 0

inductive Pc
  /-- Before the `poll` call. -/
  | poll
  /-- At the test `i < fd_count`. -/
  | scan (i : Nat)
  | exited
deriving DecidableEq

structure State where
  pfds : List Pollfd
  fdCount : Nat
  fdSize : Nat
  pc : Pc
deriving DecidableEq

/-- Results of the calls a step may make. -/
structure Answer where
  /-- `poll`: `none` is -1, else the `revents` of each entry. -/
  poll : Option (Nat → Nat) := none
  accept : Option Fd := none
  recv : Option (List UInt8) := none
  /-- `realloc` does not return NULL. -/
  realloc : Bool := true

section Code

variable (mem : Nat → Pollfd) (listener : Fd)

/-- The block after `realloc` to `n` cells. -/
def reallocCells (cells : List Pollfd) (n : Nat) : List Pollfd :=
  cells.take n ++ (List.range' cells.length (n - cells.length)).map mem

/-- `if (*fd_count == *fd_size) { *fd_size *= 2; *pfds = realloc(...); }` -/
def growPfds (realloc : Bool) (s : State) : Option State :=
  if s.fdCount = s.fdSize then
    if s.fdSize * 2 ≤ 2147483647 ∧ realloc = true then
      some { s with fdSize := s.fdSize * 2, pfds := reallocCells mem s.pfds (s.fdSize * 2) }
    else none
  else some s

def addToPfds (realloc : Bool) (newfd : Fd) (s : State) : Option State := do
  let s ← growPfds mem realloc s
  let e ← s.pfds[s.fdCount]?
  some { s with
    pfds := s.pfds.set s.fdCount { e with fd := newfd, events := POLLIN }
    fdCount := s.fdCount + 1 }

/-- With `*fd_count == 0` this would read `pfds[-1]`. -/
def delFromPfds (i : Nat) (s : State) : Option State :=
  if 0 < s.fdCount ∧ i < s.pfds.length then
    (s.pfds[s.fdCount - 1]?).map fun last =>
      { s with pfds := s.pfds.set i last, fdCount := s.fdCount - 1 }
  else none

/-- Destinations of the inner loop over `j` (:154-163). -/
def relayTo (sender : Fd) (s : State) : List Fd :=
  ((s.pfds.take s.fdCount).map Pollfd.fd).filter fun dest => dest != listener && dest != sender

/-- Body of the loop over entries, at index `i`. -/
def scanEntry (i : Nat) (s : State) (a : Answer) : Option (State × List Call) := do
  let e ← s.pfds[i]?
  if e.readable then
    if e.fd = listener then
      match a.accept with
      | none => some (s, [.accept none])
      | some newfd =>
        let s' ← addToPfds mem a.realloc newfd s
        some (s', [.accept (some newfd)])
    else
      match a.recv with
      | some (b :: bs) => some (s, .recv e.fd (some (b :: bs)) :: sends (b :: bs) (relayTo listener e.fd s))
      | r => -- nbytes <= 0
        let s' ← delFromPfds i s
        some (s', [.recv e.fd r, .close e.fd])
  else some (s, [])

/-- `poll` writes `revents` of entries `0 .. fd_count-1` and nothing else. -/
def pollWrite (n : Nat) (rev : Nat → Nat) (cells : List Pollfd) : List Pollfd :=
  cells.mapIdx fun k e => if k < n then { e with revents := rev k } else e

def step (s : State) (a : Answer) : Option (State × List Call) :=
  match s.pc with
  | .poll =>
    match a.poll with
    | none => some ({ s with pc := .exited }, [])
    | some rev =>
      if s.fdCount ≤ s.pfds.length then
        let pfds := pollWrite s.fdCount rev s.pfds
        some ({ s with pfds, pc := .scan 0 },
          [.poll ((pfds.take s.fdCount).map fun e => (e.fd, e.revents))])
      else none
  | .scan i =>
    if i < s.fdCount then do
      let (s', es) ← scanEntry mem listener i s a
      some ({ s' with pc := .scan (i + 1) }, es)
    else some ({ s with pc := .poll }, [])
  | .exited => none

def start : State where
  pfds := ((List.range 5).map mem).set 0 { mem 0 with fd := listener, events := POLLIN }
  fdCount := 1
  fdSize := 5
  pc := .poll

end Code

/-- The descriptors of entries `0 .. fd_count-1`. -/
def State.fds (s : State) : List Fd := (s.pfds.take s.fdCount).map Pollfd.fd

end CHell.Chat.Poll
