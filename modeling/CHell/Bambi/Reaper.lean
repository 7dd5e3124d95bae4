import CHell.Lib.Loop
import Mathlib.Algebra.Ring.Nat

/-!
# The `SIGCHLD` handler of the bambi servers

| here | there |
| --- | --- |
| `waitpid`     | `waitpid(-1, NULL, WNOHANG)` |
| `handlerBody` | a round of the loop of `sigchl_handler` |
| `Handles`     | a run of `sigchl_handler` (`bambi_tcp.c:64-70`, `bambi_udp.c:44-50`; the texts are equal) |

Children are counted: those that have exited and are not reaped, and those that still run. More of them exit while the
handler runs: `exits` says how many before each call of `waitpid`.

The loop puts `errno` back behind every child it reaps, and the call that ends the loop comes last.
-/

namespace CHell.Bambi

open Loop

def ECHILD : Int := 10

/-- A process with its children. -/
structure Process where
  exited : Nat
  running : Nat
  exits : List Nat
  exits_le : exits.sum ≤ running
  errno : Int
deriving DecidableEq

inductive WaitResult
  /-- A positive number. -/
  | pid
  | zero
  /-- -1 -/
  | error
deriving DecidableEq

theorem head_add_sum_tail (exits : List Nat) : exits.head?.getD 0 + exits.tail.sum = exits.sum := by
  cases exits <;> simp

/-- Some children exit. -/
def Process.elapse (p : Process) : Process where
  exited := p.exited + p.exits.head?.getD 0
  running := p.running - p.exits.head?.getD 0
  exits := p.exits.tail
  exits_le := by
    have hsum := head_add_sum_tail p.exits
    have hle := p.exits_le
    omega
  errno := p.errno

def waitpid (p : Process) : Process × WaitResult :=
  if 0 < p.exited then ({ p with exited := p.exited - 1 }, .pid)
  else if 0 < p.running then (p, .zero)
  else ({ p with errno := ECHILD }, .error)

/-- `while (waitpid(-1,NULL,WNOHANG) > 0) errno = saved_error;` -/
def handlerBody (saved_error : Int) (p : Process) : Process ⊕ Process :=
  let r := waitpid p.elapse
  if r.2 = .pid then .inl { r.1 with errno := saved_error } else .inr r.1

/-- The handler, entered with `p`, returns with `p'`. -/
def Handles (p p' : Process) : Prop := Returns (handlerBody p.errno) p p'

/-- For some `k`, not more than `k` children have exited by the call number `k` (from 0 on), and there are more: a
child still runs when the handler finds none that has exited. -/
def Outlived (p : Process) : Prop := ∃ k < p.exited + p.running, p.exited + (p.exits.take (k + 1)).sum ≤ k

theorem sum_take_succ (exits : List Nat) (k : Nat) :
    (exits.take (k + 1)).sum = exits.head?.getD 0 + (exits.tail.take k).sum := by
  cases exits <;> simp

theorem elapse_total (p : Process) : p.elapse.exited + p.elapse.running = p.exited + p.running := by
  have hsum := head_add_sum_tail p.exits
  have hle := p.exits_le
  simp only [Process.elapse]
  omega

/-- After a round that reaped a child. -/
def Process.reap (saved_error : Int) (p : Process) : Process :=
  { p.elapse with exited := p.elapse.exited - 1, errno := saved_error }

/-- Whether a child will outlive the handler does not change while it reaps others. -/
theorem outlived_reap {saved_error : Int} {p : Process} (h : 0 < p.elapse.exited) :
    Outlived (p.reap saved_error) ↔ Outlived p := by
  have htotal := elapse_total p
  have hexited : p.elapse.exited = p.exited + p.exits.head?.getD 0 := rfl
  constructor
  · rintro ⟨k, hk, hle⟩
    simp only [Process.reap, Process.elapse] at hk hle htotal hexited h
    refine ⟨k + 1, by omega, ?_⟩
    rw [sum_take_succ]
    omega
  · rintro ⟨k, hk, hle⟩
    cases k with
    | zero =>
      rw [sum_take_succ] at hle
      simp at hle
      omega
    | succ k =>
      rw [sum_take_succ] at hle
      simp only [Process.elapse] at htotal hexited h
      refine ⟨k, ?_, ?_⟩
      · simp only [Process.reap, Process.elapse]
        omega
      · simp only [Process.reap, Process.elapse]
        omega

/-- The handler reaps all that have exited. It ends with `errno` put back if a child outlives it. -/
theorem handler_ends (saved_error : Int) {n : Nat} {p : Process} (hn : p.exited + p.running = n)
    (he : p.errno = saved_error) :
    ∃ p', Returns (handlerBody saved_error) p p' ∧ p'.exited = 0 ∧
      (Outlived p ∧ p'.errno = saved_error ∨ ¬ Outlived p ∧ p'.errno = ECHILD) := by
  induction n using Nat.strongRecOn generalizing p with
  | _ n ih =>
    have htotal := elapse_total p
    by_cases hexited : 0 < p.elapse.exited
    · have hround : handlerBody saved_error p = .inl (p.reap saved_error) := by
        simp [handlerBody, waitpid, hexited, Process.reap]
      have hless : (p.reap saved_error).exited + (p.reap saved_error).running < n := by
        simp only [Process.reap]
        omega
      obtain ⟨p', hreturns, hzero, herrno⟩ := ih _ hless rfl rfl
      rw [outlived_reap hexited] at herrno
      exact ⟨p', .of_next hround hreturns, hzero, herrno⟩
    · have hzero : p.elapse.exited = 0 := by omega
      by_cases hrunning : 0 < p.elapse.running
      · have hround : handlerBody saved_error p = .inr p.elapse := by
          simp [handlerBody, waitpid, hzero, hrunning]
        have hexits : p.exited + p.exits.head?.getD 0 = 0 := hzero
        refine ⟨p.elapse, .of_exit hround, hzero, .inl ⟨⟨0, by omega, ?_⟩, he⟩⟩
        rw [sum_take_succ]
        simp
        omega
      · have hround : handlerBody saved_error p = .inr { p.elapse with errno := ECHILD } := by
          simp [handlerBody, waitpid, hzero, hrunning]
        refine ⟨_, .of_exit hround, hzero, .inr ⟨?_, rfl⟩⟩
        rintro ⟨k, hk, -⟩
        omega

/-- No exited child is left, and `errno` is what it was on entry. -/
def Transparent (p : Process) : Prop := ∃ p', Handles p p' ∧ p'.exited = 0 ∧ p'.errno = p.errno

/-- **The handler always reaps, but loses `errno` when it reaps the last child.** It is put back if and only if a
child outlives the handler, or it was `ECHILD` before. -/
theorem handler_transparent_iff (p : Process) :
    (∃ p', Handles p p' ∧ p'.exited = 0) ∧ (Transparent p ↔ p.errno = ECHILD ∨ Outlived p) := by
  obtain ⟨p', hreturns, hzero, herrno⟩ := handler_ends p.errno rfl rfl (p := p)
  refine ⟨⟨p', hreturns, hzero⟩, ?_⟩
  constructor
  · rintro ⟨q, hq, -, hkept⟩
    obtain rfl := hreturns.unique hq
    rcases herrno with ⟨h, -⟩ | ⟨-, h⟩
    · exact .inr h
    · exact .inl (hkept.symm.trans h)
  · intro h
    refine ⟨p', hreturns, hzero, ?_⟩
    rcases herrno with ⟨-, h'⟩ | ⟨hnot, h'⟩
    · exact h'
    · rw [h', h.resolve_right hnot]

/-- The only child exits, and the handler interrupts a call that failed with `EINTR`. -/
theorem handler_loses_errno : ¬ ∀ p : Process, Transparent p := by
  intro hclaim
  obtain ⟨p', hp', -, herrno⟩ := hclaim ⟨1, 0, [], Nat.le_refl 0, 4⟩
  obtain rfl := hp'.unique ⟨2, rfl⟩
  cases herrno

end CHell.Bambi
