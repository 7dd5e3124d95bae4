import CHell.Http.Parent

/-!
# The client count of the forking web server

`Counts tr s` ties `clientcount` to the history: it is the number of children forked and not yet
waited for, plus one in each of the two windows in which the program knows more than the kernel:
between `clientcount++` and `fork` in `main`, and between `waitpid` and `clientcount--` in the
handler. The handler can only lower the count, so a test `clientcount < 10` that `main` passed
still holds when it reaches the increment.
-/

namespace CHell.Http

variable {s s' : State} {tr es : List Event}

def Event.apply (live : Finset Pid) : Event → Finset Pid
  | .forked pid => insert pid live
  | .reaped pid => live.erase pid

/-- Children forked and not yet reaped, from the history. -/
def unreaped (tr : List Event) : Finset Pid := tr.foldl Event.apply ∅

@[simp] theorem unreaped_nil : unreaped [] = ∅ := rfl

@[simp] theorem unreaped_snoc (e : Event) : unreaped (tr ++ [e]) = e.apply (unreaped tr) := by
  simp [unreaped, List.foldl_append]

/-- A child was reaped that is still counted. -/
def Handler.counted : Handler → Nat
  | .decrement => 1
  | _ => 0

structure Counts (tr : List Event) (s : State) : Prop where
  children : s.children = unreaped tr
  zombies : s.zombies ⊆ s.children
  count : s.pc ≠ .exited → s.clientcount = s.children.card + s.counted + s.handler.counted
  room : s.pc.admitting = true → s.clientcount < 10
  limit : s.pc ≠ .exited → s.clientcount ≤ 10
  unreaped_le : s.children.card ≤ 10
  running : s.handler ≠ .idle → s.pc ≠ .exited

theorem counts_start (connfd childpid errno : Int) : Counts [] (start connfd childpid errno) :=
  ⟨rfl, by simp [start], by simp [start, State.counted, Handler.counted], by simp [start, Pc.admitting],
    by simp [start], by simp [start], by simp [start]⟩

theorem incr_eq {c : Nat} (h : c < 10) : incr c = c + 1 := by
  unfold incr; omega

theorem decr_eq {c : Nat} (h0 : 0 < c) (h : c ≤ 10) : decr c = c - 1 := by
  unfold decr; omega

/-- **A statement of `main`**, executed while the handler is idle. -/
theorem Counts.main (h : Counts tr s) (hidle : s.handler = .idle) {accept : Except Int Nat}
    {fork : Option Pid} (hs : mainStep s accept fork = some (s', es)) : Counts (tr ++ es) s' := by
  obtain ⟨hpc, hh, hz, -, hcases⟩ := mainStep_cases hs
  have hcount := h.count hpc
  have hlimit := h.limit hpc
  rw [hidle] at hh
  rcases hcases with ⟨hpc, hlt, rfl, rfl⟩ | ⟨hpc, rfl, rfl⟩ | ⟨hpc, pid, -, hnew, rfl, rfl⟩ |
    ⟨hc, hcc, rfl, hcounted, hadm⟩
  · rw [List.append_nil]
    refine ⟨h.children, h.zombies, ?_, fun _ => hlt, fun _ => hlimit, h.unreaped_le, ?_⟩
    · intro _
      simpa [State.counted, hpc] using hcount
    · simp
  · have hlt := h.room (by simp [hpc, Pc.admitting])
    have hincr := incr_eq hlt
    rw [List.append_nil]
    refine ⟨h.children, h.zombies, ?_, by simp [Pc.admitting], ?_, h.unreaped_le, by simp⟩
    · intro _
      simp only [State.counted, hpc] at hcount ⊢
      omega
    · intro _
      simp only
      omega
  · have hcard := Finset.card_insert_of_notMem hnew
    simp only [State.counted, hpc, hidle, Handler.counted] at hcount
    refine ⟨?_, fun x hx => Finset.mem_insert_of_mem (h.zombies hx), ?_, by simp [Pc.admitting],
      fun _ => hlimit, ?_, by simp⟩
    · simp [Event.apply, h.children]
    · intro _
      have hpos : ¬ (pid : Int) < 0 := by omega
      simp only [State.counted, hidle, Handler.counted, if_neg hpos]
      omega
    · simp only
      omega
  · rw [List.append_nil]
    refine ⟨hc ▸ h.children, by rw [hz, hc]; exact h.zombies, ?_, ?_, ?_,
      hc ▸ h.unreaped_le, fun hne => absurd hh hne⟩
    · intro hex
      rw [hcc, hc, hcounted hex, hh, ← hidle]
      exact hcount
    · intro ha
      rw [hcc]; exact h.room (hadm ha)
    · intro _
      rw [hcc]; exact hlimit

/-- **A statement of the handler**, whatever `main` was interrupted in. -/
theorem Counts.handler (h : Counts tr s) {pid : Pid} (hs : handlerStep s pid = some (s', es)) :
    Counts (tr ++ es) s' := by
  unfold handlerStep at hs
  split at hs
  · cases hs
  · rename_i hw
    have hpc := h.running (by simp [hw])
    have hcount := h.count hpc
    simp only [hw, Handler.counted] at hcount
    split at hs
    · split at hs
      · rename_i hz
        cases hs
        have hmem := h.zombies hz
        have hcard := Finset.card_erase_of_mem hmem
        have hpos := Finset.card_pos.2 ⟨pid, hmem⟩
        refine ⟨?_, Finset.erase_subset_erase pid h.zombies, ?_, h.room, fun _ => h.limit hpc, ?_,
          fun _ => hpc⟩
        · simp [Event.apply, h.children]
        · intro _
          simp only [State.counted, Handler.counted] at hcount ⊢
          omega
        · exact hcard ▸ (Nat.sub_le _ 1).trans h.unreaped_le
      · cases hs
    · split at hs <;> cases hs <;> rw [List.append_nil] <;>
        exact ⟨h.children, h.zombies, fun _ => hcount, h.room, h.limit, h.unreaped_le, fun _ => hpc⟩
  · rename_i hd
    have hpc := h.running (by simp [hd])
    have hcount := h.count hpc
    have hlimit := h.limit hpc
    simp only [hd, Handler.counted] at hcount
    have hdecr : decr s.clientcount = s.clientcount - 1 := decr_eq (by omega) hlimit
    cases hs
    rw [List.append_nil]
    refine ⟨h.children, h.zombies, ?_, ?_, ?_, h.unreaped_le, fun _ => hpc⟩
    · intro _
      simp only [State.counted, Handler.counted] at hcount ⊢
      omega
    · intro ha
      have := h.room ha
      simp only
      omega
    · intro _
      simp only
      omega
  all_goals
    rename_i hh
    have hpc := h.running (by simp [hh])
    have hcount := h.count hpc
    simp only [hh, Handler.counted] at hcount
    cases hs
    rw [List.append_nil]
    exact ⟨h.children, h.zombies, fun _ => hcount, h.room, h.limit, h.unreaped_le, fun _ => hpc⟩

/-- **One step** of the program or of the kernel. -/
theorem step_counts {a : Act} (h : Counts tr s) (hs : step s a = some (s', es)) :
    Counts (tr ++ es) s' := by
  cases a with
  | main accept fork =>
    simp only [step] at hs
    split at hs
    · rename_i hidle
      exact h.main hidle hs
    · cases hs
  | handler pid => exact h.handler hs
  | deliver =>
    simp only [step] at hs
    split at hs
    · rename_i hd
      obtain ⟨-, hidle, hpc⟩ := hd
      have hcount := h.count hpc
      rw [hidle] at hcount
      cases hs
      rw [List.append_nil]
      exact ⟨h.children, h.zombies, fun _ => hcount, h.room, h.limit, h.unreaped_le, fun _ => hpc⟩
    · cases hs
  | childExit pid =>
    simp only [step] at hs
    split at hs
    · rename_i hmem
      cases hs
      rw [List.append_nil]
      refine ⟨h.children, ?_, h.count, h.room, h.limit, h.unreaped_le, h.running⟩
      exact Finset.insert_subset (Finset.mem_sdiff.1 hmem).1 h.zombies
    · cases hs
  | childStop =>
    cases hs
    rw [List.append_nil]
    exact ⟨h.children, h.zombies, h.count, h.room, h.limit, h.unreaped_le, h.running⟩

theorem counts_of_run {connfd childpid errno : Int}
    (hrun : Reactive.Run step (fun _ _ _ => True) (start connfd childpid errno) tr s) : Counts tr s := by
  refine Reactive.Run.invariant Counts (counts_start connfd childpid errno) ?_ hrun
  intro tr s a s' es ih _ hs
  exact step_counts ih hs

/-- **The client count**, in every state that statements of `main` and of the handler, child exits,
stops and deliveries can reach in any order. At the head of the loop `clientcount` is the number of
children not yet reaped (the handler may be running there too, as long as it is not about to lower
the count). Where the handler lowers it, it is positive, so it never wraps. There are never more
than ten children to reap. -/
theorem run_clientcount {connfd childpid errno : Int}
    (hrun : Reactive.Run step (fun _ _ _ => True) (start connfd childpid errno) tr s) :
    (s.pc = .testCount → s.handler ≠ .decrement → s.clientcount = (unreaped tr).card) ∧
    (s.handler = .decrement → 0 < s.clientcount ∧ decr s.clientcount = s.clientcount - 1) ∧
    (s.pc = .increment → incr s.clientcount = s.clientcount + 1) ∧
    (unreaped tr).card ≤ 10 := by
  have h := counts_of_run hrun
  refine ⟨?_, ?_, ?_, h.children ▸ h.unreaped_le⟩
  · intro hpc hd
    have hcount := h.count (by simp [hpc])
    have hh : s.handler.counted = 0 := by
      cases hhandler : s.handler with
      | decrement => exact absurd hhandler hd
      | _ => rfl
    rw [← h.children, hcount, hh]
    simp [State.counted, hpc]
  · intro hd
    have hpc := h.running (by simp [hd])
    have hcount := h.count hpc
    have hpos : 0 < s.clientcount := by
      simp only [hd, Handler.counted] at hcount
      omega
    exact ⟨hpos, decr_eq hpos (h.limit hpc)⟩
  · intro hpc
    exact incr_eq (h.room (by simp [hpc, Pc.admitting]))

/-- A first client's child exits between `clientcount++` and `fork` of a second client. -/
def overlapRun : List Act :=
  let stmts n := List.replicate n (Act.main (.ok 4) none)
  stmts 5 ++ .main (.ok 4) (some 100) :: stmts 9 ++
    [.childExit 100, .deliver, .handler 100, .handler 0, .handler 0, .handler 0, .handler 0] ++
    .main (.ok 4) (some 101) :: stmts 4

theorem run_clientcount_overlap : 1 = (unreaped [.forked 100, .reaped 100, .forked 101]).card := by
  have hexec : Reactive.exec step (start 0 0 0) overlapRun = some
      ({ pc := .testCount, handler := .idle, clientcount := 1, connfd := 4, childpid := 101,
         errno := ECHILD, pending := false, children := {101}, zombies := ∅ },
       [.forked 100, .reaped 100, .forked 101]) := rfl
  have hrun := Reactive.Run.exec (C := fun _ _ _ => True) (fun _ _ _ => trivial) .start hexec
  exact (run_clientcount hrun).1 rfl (by decide)

end CHell.Http
