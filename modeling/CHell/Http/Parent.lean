import CHell.Lib.Reactive
import Mathlib.Data.Finset.Card
import Mathlib.Algebra.Ring.Nat

/-!
# The parent of the forking web server, `network/http.c`

| here | there |
| --- | --- |
| `Handler`, `handlerStep` | `sigchld_handler` (:118-128) |
| `Pc`, `mainStep`         | `main`'s `while (1)` (:169-201), one C statement at a time |
| `step`                   | one statement of either, or one move of the kernel |
| `start`                  | `main` up to the loop (:138-167), after its calls succeeded |

`children` and `zombies` are the kernel's: every child forked and not yet waited for, and those of
them that have exited. `pending` is the `SIGCHLD` bit, so signals that arrive before delivery are
one. While the handler runs `SIGCHLD` is masked (`sa_mask` and `sa_flags` are zero, :164): it is
delivered again only after the `return`. What the child itself does is not the parent's state;
output is left out, `errno` is what `accept` and `waitpid` leave in it.
-/

namespace CHell.Http

abbrev Pid := Nat

def EINTR : Int := 4
def ECHILD : Int := 10

/-- The statement `main` executes next. -/
inductive Pc
  /-- `if (clientcount < 10)` -/
  | testCount
  | setClilen
  | accept
  /-- `if (connfd < 0)` -/
  | testConnfd
  /-- `if (errno == EINTR)` -/
  | testErrno
  | continueLoop
  | perrorAccept
  | closeSockfd
  | exitAccept
  /-- `clientcount++` -/
  | increment
  | fork
  /-- `if (childpid < 0)` -/
  | testFailed
  | perrorFork
  | exitFork
  /-- `if (childpid == 0)` -/
  | testChild
  | printf
  | close
  /-- The process is gone, or it is the child's copy. -/
  | exited
deriving DecidableEq

/-- The statement `sigchld_handler` executes next; `idle` when it is not running. -/
inductive Handler
  | idle
  /-- `while ((pid = waitpid(-1,&status,WNOHANG)) > 0)` -/
  | waitpid
  /-- `clientcount--` -/
  | decrement
  | printf
  | ret
deriving DecidableEq

structure State where
  pc : Pc
  handler : Handler
  clientcount : Nat
  connfd : Int
  childpid : Int
  errno : Int
  pending : Bool
  children : Finset Pid
  zombies : Finset Pid

inductive Act
  /-- `main`'s next statement: what `accept` (a socket or an `errno`) and `fork` answer in it. -/
  | main (accept : Except Int Nat) (fork : Option Pid)
  /-- The handler's next statement: the child `waitpid` picks in it. -/
  | handler (pid : Pid)
  /-- The kernel starts the handler. -/
  | deliver
  | childExit (pid : Pid)
  /-- A `SIGCHLD` for something else than an exit. -/
  | childStop

inductive Event
  | forked (pid : Pid)
  | reaped (pid : Pid)
deriving DecidableEq

/-- `clientcount` is `unsigned`. -/
def incr (c : Nat) : Nat := (c + 1) % 2 ^ 32
def decr (c : Nat) : Nat := (c + (2 ^ 32 - 1)) % 2 ^ 32

def mainStep (s : State) (accept : Except Int Nat) (fork : Option Pid) :
    Option (State × List Event) :=
  match s.pc with
  | .testCount => some (if s.clientcount < 10 then { s with pc := .setClilen } else s, [])
  | .setClilen => some ({ s with pc := .accept }, [])
  | .accept =>
    match accept with
    | .ok fd => some ({ s with connfd := fd, pc := .testConnfd }, [])
    | .error e => some ({ s with connfd := -1, errno := e, pc := .testConnfd }, [])
  | .testConnfd => some ({ s with pc := if s.connfd < 0 then .testErrno else .increment }, [])
  | .testErrno => some ({ s with pc := if s.errno = EINTR then .continueLoop else .perrorAccept }, [])
  | .continueLoop => some ({ s with pc := .testCount }, [])
  | .perrorAccept => some ({ s with pc := .closeSockfd }, [])
  | .closeSockfd => some ({ s with pc := .exitAccept }, [])
  | .exitAccept => some ({ s with pc := .exited }, [])
  | .increment => some ({ s with clientcount := incr s.clientcount, pc := .fork }, [])
  | .fork =>
    match fork with
    | some pid =>
      -- the kernel picks a number that no process has, zombies included
      if 0 < pid ∧ pid ∉ s.children then
        some ({ s with children := insert pid s.children, childpid := pid, pc := .testFailed },
          [.forked pid])
      else none
    | none => some ({ s with childpid := -1, pc := .testFailed }, [])
  | .testFailed => some ({ s with pc := if s.childpid < 0 then .perrorFork else .testChild }, [])
  | .perrorFork => some ({ s with pc := .exitFork }, [])
  | .exitFork => some ({ s with pc := .exited }, [])
  | .testChild => some ({ s with pc := if s.childpid = 0 then .exited else .printf }, [])
  | .printf => some ({ s with pc := .close }, [])
  | .close => some ({ s with pc := .testCount }, [])
  | .exited => none

def handlerStep (s : State) (pid : Pid) : Option (State × List Event) :=
  match s.handler with
  | .idle => none
  | .waitpid =>
    if s.zombies.Nonempty then
      if pid ∈ s.zombies then
        some ({ s with children := s.children.erase pid, zombies := s.zombies.erase pid,
                       handler := .decrement }, [.reaped pid])
      else none
    else if s.children.Nonempty then some ({ s with handler := .ret }, [])
    else some ({ s with errno := ECHILD, handler := .ret }, [])
  | .decrement => some ({ s with clientcount := decr s.clientcount, handler := .printf }, [])
  | .printf => some ({ s with handler := .waitpid }, [])
  | .ret => some ({ s with handler := .idle }, [])

def step (s : State) : Act → Option (State × List Event)
  | .main accept fork => if s.handler = .idle then mainStep s accept fork else none
  | .handler pid => handlerStep s pid
  | .deliver =>
    if s.pending ∧ s.handler = .idle ∧ s.pc ≠ .exited then
      some ({ s with pending := false, handler := .waitpid }, [])
    else none
  | .childExit pid =>
    if pid ∈ s.children \ s.zombies then
      some ({ s with zombies := insert pid s.zombies, pending := true }, [])
    else none
  | .childStop => some ({ s with pending := true }, [])

/-- Locals start with whatever the stack holds. -/
def start (connfd childpid errno : Int) : State :=
  { pc := .testCount, handler := .idle, clientcount := 0, connfd, childpid, errno, pending := false,
    children := ∅, zombies := ∅ }

/-! ## What a statement can do -/

variable {s s' : State} {es : List Event}

/-- Statements of `main` between the test of `clientcount` and `clientcount++`. -/
def Pc.admitting : Pc → Bool
  | .setClilen | .accept | .testConnfd | .increment => true
  | _ => false

/-- The new client is counted and has no process: before `fork`, and after a `fork` that failed. -/
def State.counted (s : State) : Nat :=
  match s.pc with
  | .fork => 1
  | .testFailed => if s.childpid < 0 then 1 else 0
  | .perrorFork | .exitFork => 1
  | _ => 0

/-- The statements of `main` that the count depends on, and the others. -/
theorem mainStep_cases {accept : Except Int Nat} {fork : Option Pid}
    (h : mainStep s accept fork = some (s', es)) :
    s.pc ≠ .exited ∧ s'.handler = s.handler ∧ s'.zombies = s.zombies ∧ s'.pending = s.pending ∧
    ((s.pc = .testCount ∧ s.clientcount < 10 ∧ s' = { s with pc := .setClilen } ∧ es = []) ∨
     (s.pc = .increment ∧ s' = { s with clientcount := incr s.clientcount, pc := .fork } ∧ es = []) ∨
     (s.pc = .fork ∧ ∃ pid, 0 < pid ∧ pid ∉ s.children ∧ es = [.forked pid] ∧
        s' = { s with children := insert pid s.children, childpid := pid, pc := .testFailed }) ∨
     (s'.children = s.children ∧ s'.clientcount = s.clientcount ∧ es = [] ∧
        (s'.pc ≠ .exited → s'.counted = s.counted) ∧
        (s'.pc.admitting = true → s.pc.admitting = true))) := by
  unfold mainStep at h
  split at h
  case h_1 hpc =>
    refine ⟨by simp [hpc], ?_⟩
    by_cases hc : s.clientcount < 10
    · rw [if_pos hc] at h
      cases h
      exact ⟨rfl, rfl, rfl, Or.inl ⟨hpc, hc, rfl, rfl⟩⟩
    · rw [if_neg hc] at h
      cases h
      exact ⟨rfl, rfl, rfl, Or.inr (Or.inr (Or.inr ⟨rfl, rfl, rfl, fun _ => rfl, id⟩))⟩
  case h_10 hpc =>
    cases h
    exact ⟨by simp [hpc], rfl, rfl, rfl, Or.inr (Or.inl ⟨hpc, rfl, rfl⟩)⟩
  case h_11 hpc =>
    refine ⟨by simp [hpc], ?_⟩
    split at h
    · rename_i pid
      split at h
      · rename_i hpid
        cases h
        exact ⟨rfl, rfl, rfl, Or.inr (Or.inr (Or.inl ⟨hpc, pid, hpid.1, hpid.2, rfl, rfl⟩))⟩
      · cases h
    · cases h
      refine ⟨rfl, rfl, rfl, Or.inr (Or.inr (Or.inr ⟨rfl, rfl, rfl, ?_, by simp [Pc.admitting]⟩))⟩
      intro _
      simp [State.counted, hpc]
  case h_3 hpc =>
    refine ⟨by simp [hpc], ?_⟩
    split at h <;> cases h <;> simp [State.counted, hpc, Pc.admitting]
  case h_4 hpc =>
    cases h
    by_cases hc : s.connfd < 0 <;> simp [State.counted, hpc, Pc.admitting, hc]
  case h_5 hpc =>
    cases h
    by_cases hc : s.errno = EINTR <;> simp [State.counted, hpc, Pc.admitting, hc]
  case h_12 hpc =>
    cases h
    by_cases hc : s.childpid < 0 <;> simp [State.counted, hpc, Pc.admitting, hc]
  case h_15 hpc =>
    cases h
    by_cases hc : s.childpid = 0 <;> simp [State.counted, hpc, Pc.admitting, hc]
  case h_18 => cases h
  all_goals
    rename_i hpc
    cases h
    simp [State.counted, hpc, Pc.admitting]

end CHell.Http
