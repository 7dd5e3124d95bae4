import CHell.Chat.Hub

/-!
# The select server, `network/multi-chat-v2.c`

| here | there |
| --- | --- |
| `fdSet`, `fdClr`, `fdIsset` | `FD_SET`, `FD_CLR`, `FD_ISSET` |
| `relayLoop`  | the loop over `j` (:149-157) |
| `scanFd`     | one pass through the body of `for (int i = 0; i <= fdmax; i++)` (:121-162) |
| `step`       | `main`'s `while (1)` (:114), one `select` call or one round of the inner loop at a time |
| `start`      | `main` up to the loop (:89-112), after `create_listener_sock` and `listen` succeeded |

An index outside `0 .. FD_SETSIZE-1` makes the three macros touch memory outside the set: the
step is then `none`. Output is left out.
-/

namespace CHell.Chat.Select

def FD_SETSIZE : Nat := 1024

/-- `fd_set`. -/
abbrev FdSet := Finset Fd

def fdSet (i : Nat) (set : FdSet) : Option FdSet :=
  if i < FD_SETSIZE then some (insert i set) else none
def fdClr (i : Nat) (set : FdSet) : Option FdSet :=
  if i < FD_SETSIZE then some (set.erase i) else none
def fdIsset (i : Nat) (set : FdSet) : Option Bool :=
  if i < FD_SETSIZE then some (decide (i ∈ set)) else none

inductive Pc
  /-- Before `read_fds = master`. -/
  | select
  /-- At the test `i <= fdmax`. -/
  | scan (i : Nat)
  | exited
deriving DecidableEq

structure State where
  master : FdSet
  readFds : FdSet
  fdmax : Nat
  pc : Pc
deriving DecidableEq

/-- Results of the calls a step may make. -/
structure Answer where
  /-- `select`: `none` is -1, else the descriptors found ready. -/
  select : Option FdSet := none
  accept : Option Fd := none
  recv : Option (List UInt8) := none

section Code

variable (listener : Fd)

/-- Destinations among the descriptors `js`. -/
def relayLoop (sender : Fd) (master : FdSet) : List Fd → Option (List Fd)
  | [] => some []
  | j :: js => do
    let isset ← fdIsset j master
    let ds ← relayLoop sender master js
    some (if isset && j != listener && j != sender then j :: ds else ds)

/-- Body of the scan loop, at index `i`. -/
def scanFd (i : Nat) (s : State) (a : Answer) : Option (State × List Call) := do
  let ready ← fdIsset i s.readFds
  if ready then
    if i = listener then
      match a.accept with
      | none => some (s, [.accept none])
      | some newfd =>
        let master ← fdSet newfd s.master
        some ({ s with master, fdmax := if newfd > s.fdmax then newfd else s.fdmax },
          [.accept (some newfd)])
    else
      match a.recv with
      | some (b :: bs) =>
        let ds ← relayLoop listener i s.master (List.range (s.fdmax + 1))
        some (s, .recv i (some (b :: bs)) :: sends (b :: bs) ds)
      | r => -- nbytes <= 0
        let master ← fdClr i s.master
        some ({ s with master }, [.recv i r, .close i])
  else some (s, [])

def step (s : State) (a : Answer) : Option (State × List Call) :=
  match s.pc with
  | .select =>
    match a.select with
    | none => some ({ s with readFds := s.master, pc := .exited }, [])
    | some ready =>
      some ({ s with readFds := s.master ∩ ready, pc := .scan 0 },
        [.select s.master (s.master ∩ ready)])
  | .scan i =>
    if i ≤ s.fdmax then do
      let (s', es) ← scanFd listener i s a
      some ({ s' with pc := .scan (i + 1) }, es)
    else some ({ s with pc := .select }, [])
  | .exited => none

def start : Option State := do
  let master ← fdSet listener ∅
  some { master, readFds := ∅, fdmax := listener, pc := .select }

end Code

/-! ## What a step can do -/

variable {listener : Fd} {s s' : State}

theorem fdSet_eq_some {i : Nat} {set set' : FdSet} :
    fdSet i set = some set' ↔ i < FD_SETSIZE ∧ set' = insert i set := by
  unfold fdSet; split <;> simp_all [eq_comm]

theorem fdClr_eq_some {i : Nat} {set set' : FdSet} :
    fdClr i set = some set' ↔ i < FD_SETSIZE ∧ set' = set.erase i := by
  unfold fdClr; split <;> simp_all [eq_comm]

theorem fdIsset_eq_some {i : Nat} {set : FdSet} {b : Bool} :
    fdIsset i set = some b ↔ i < FD_SETSIZE ∧ b = decide (i ∈ set) := by
  unfold fdIsset; split <;> simp_all [eq_comm]

/-- `fdmax` after a descriptor has been added. -/
theorem fdmax_spec {newfd fdmax : Nat} (hnew : newfd < FD_SETSIZE) (hmax : fdmax < FD_SETSIZE) :
    newfd ≤ (if newfd > fdmax then newfd else fdmax) ∧ fdmax ≤ (if newfd > fdmax then newfd else fdmax) ∧
      (if newfd > fdmax then newfd else fdmax) < FD_SETSIZE := by
  split <;> omega

/-- The relay loop picks the members other than the listener and the sender. -/
theorem relayLoop_eq {sender : Fd} {master : FdSet} : ∀ {js : List Nat}, (∀ j ∈ js, j < FD_SETSIZE) →
    relayLoop listener sender master js =
      some (js.filter fun j => decide (j ∈ master) && j != listener && j != sender)
  | [], _ => rfl
  | j :: js, h => by
    have hj : fdIsset j master = some (decide (j ∈ master)) :=
      fdIsset_eq_some.2 ⟨h j List.mem_cons_self, rfl⟩
    have hjs := fun k hk => h k (List.mem_cons_of_mem j hk)
    rw [relayLoop, hj, relayLoop_eq hjs, List.filter_cons]
    rfl

end CHell.Chat.Select
