import CHell.Chat.Select
import Mathlib.Data.List.Nodup

/-!
# Runs of the select server

`Sets tr s`: `master` is the listener and the connected sockets of the history `tr`, all of it
at most `fdmax`, and what the scan has still to look at in the `read_fds` snapshot is still in
`master`. The last point is what makes `recv` and `close` safe while `master` changes under the
scan; it holds because only the descriptor being scanned is ever removed.
-/

namespace CHell.Chat.Select

variable {listener : Fd} {s s' : State}

theorem scanFd_cases {i : Nat} {a : Answer} {es : List Call}
    (h : scanFd listener i s a = some (s', es)) :
    (i ∉ s.readFds ∧ s' = s ∧ es = []) ∨
    (i ∈ s.readFds ∧ i = listener ∧ a.accept = none ∧ s' = s ∧ es = [.accept none]) ∨
    (i ∈ s.readFds ∧ i = listener ∧ ∃ newfd : Nat, a.accept = some newfd ∧ newfd < FD_SETSIZE ∧
      s' = { s with master := insert newfd s.master, fdmax := if newfd > s.fdmax then newfd else s.fdmax } ∧
      es = [.accept (some newfd)]) ∨
    (i ∈ s.readFds ∧ i ≠ listener ∧ ∃ bytes ds, bytes ≠ [] ∧ a.recv = some bytes ∧
      relayLoop listener i s.master (List.range (s.fdmax + 1)) = some ds ∧ s' = s ∧
      es = .recv i (some bytes) :: sends bytes ds) ∨
    (i ∈ s.readFds ∧ i ≠ listener ∧ (a.recv = none ∨ a.recv = some []) ∧
      s' = { s with master := s.master.erase i } ∧ es = [.recv i a.recv, .close i]) := by
  simp only [scanFd, Option.bind_eq_bind, Option.bind_eq_some_iff] at h
  obtain ⟨ready, hready, h⟩ := h
  obtain ⟨-, rfl⟩ := fdIsset_eq_some.1 hready
  split at h
  · rename_i hr
    have hm : i ∈ s.readFds := by simpa using hr
    split at h
    · rename_i hl
      split at h
      · rename_i ha
        cases h
        exact Or.inr (Or.inl ⟨hm, hl, ha, rfl, rfl⟩)
      · rename_i newfd ha
        simp only [Option.bind_eq_some_iff] at h
        obtain ⟨master, hset, h⟩ := h
        obtain ⟨hlt, rfl⟩ := fdSet_eq_some.1 hset
        cases h
        exact Or.inr (Or.inr (Or.inl ⟨hm, hl, newfd, ha, hlt, rfl, rfl⟩))
    · rename_i hl
      split at h
      · rename_i b bs ha
        simp only [Option.bind_eq_some_iff] at h
        obtain ⟨ds, hds, h⟩ := h
        cases h
        exact Or.inr (Or.inr (Or.inr (Or.inl ⟨hm, hl, b :: bs, ds, by simp, ha, hds, rfl, rfl⟩)))
      · rename_i r hne
        simp only [Option.bind_eq_some_iff] at h
        obtain ⟨master, hclr, h⟩ := h
        obtain ⟨-, rfl⟩ := fdClr_eq_some.1 hclr
        cases h
        refine Or.inr (Or.inr (Or.inr (Or.inr ⟨hm, hl, ?_, rfl, rfl⟩)))
        match hrecv : a.recv with
        | none => exact Or.inl rfl
        | some [] => exact Or.inr rfl
        | some (b :: bs) => exact absurd hrecv (hne b bs)
  · rename_i hr
    cases h
    exact Or.inl ⟨by simpa using hr, rfl, rfl⟩

theorem step_cases {a : Answer} {es : List Call} (h : step listener s a = some (s', es)) :
    (s.pc = .select ∧ a.select = none ∧ s' = { s with readFds := s.master, pc := .exited } ∧ es = []) ∨
    (s.pc = .select ∧ ∃ ready, a.select = some ready ∧
      s' = { s with readFds := s.master ∩ ready, pc := .scan 0 } ∧
      es = [.select s.master (s.master ∩ ready)]) ∨
    (∃ i, s.pc = .scan i ∧ i ≤ s.fdmax ∧ ∃ s1, scanFd listener i s a = some (s1, es) ∧
      s' = { s1 with pc := .scan (i + 1) }) ∨
    (∃ i, s.pc = .scan i ∧ s.fdmax < i ∧ s' = { s with pc := .select } ∧ es = []) := by
  unfold step at h
  split at h
  · rename_i hpc
    split at h
    · rename_i hsel
      cases h
      exact Or.inl ⟨hpc, hsel, rfl, rfl⟩
    · rename_i ready hsel
      cases h
      exact Or.inr (Or.inl ⟨hpc, ready, hsel, rfl, rfl⟩)
  · rename_i i hpc
    split at h
    · rename_i hi
      simp only [Option.bind_eq_bind, Option.bind_eq_some_iff] at h
      obtain ⟨⟨s1, es1⟩, hscan, h⟩ := h
      cases h
      exact Or.inr (Or.inr (Or.inl ⟨i, hpc, hi, s1, hscan, rfl⟩))
    · rename_i hi
      cases h
      exact Or.inr (Or.inr (Or.inr ⟨i, hpc, by omega, rfl, rfl⟩))
  · cases h

/-! ## The invariant -/

structure Sets (listener : Fd) (tr : List Call) (s : State) : Prop where
  master : s.master = insert listener (connected tr)
  le_max : ∀ fd : Nat, fd ∈ s.master → fd ≤ s.fdmax
  max_lt : s.fdmax < FD_SETSIZE
  pending : ∀ i, s.pc = .scan i → ∀ k : Nat, k ∈ s.readFds → i ≤ k → k ∈ s.master
  fresh : listener ∉ connected tr

theorem sets_start {s₀ : State} (h : start listener = some s₀) : Sets listener [] s₀ := by
  simp only [start, Option.bind_eq_bind, Option.bind_eq_some_iff] at h
  obtain ⟨master, hset, h⟩ := h
  obtain ⟨hlt, rfl⟩ := fdSet_eq_some.1 hset
  cases h
  exact ⟨by simp, by simp, hlt, fun i hpc => (by cases hpc), by simp⟩

/-- A descriptor the scan finds ready and that is not the listener is a connected socket. -/
theorem Sets.client {tr : List Call} (h : Sets listener tr s) {i : Nat} (hpc : s.pc = .scan i)
    (hi : i ∈ s.readFds) (hl : i ≠ listener) : i ∈ connected tr := by
  have hm := h.pending i hpc i hi (Nat.le_refl i)
  rw [h.master, Finset.mem_insert] at hm
  exact hm.resolve_left hl

/-- A round that changes neither the sets nor who is connected. -/
theorem Sets.skip {tr es : List Call} (h : Sets listener tr s) {i : Nat} (hpc : s.pc = .scan i)
    (hes : connected (tr ++ es) = connected tr) :
    Sets listener (tr ++ es) { s with pc := .scan (i + 1) } := by
  refine ⟨by rw [hes]; exact h.master, h.le_max, h.max_lt, ?_, by rw [hes]; exact h.fresh⟩
  intro j hj k hk hjk
  cases hj
  exact h.pending i hpc k hk (by omega)

theorem Sets.unscanned {tr : List Call} (h : Sets listener tr s) {pc : Pc} (hpc : ∀ i, pc ≠ .scan i)
    (readFds : FdSet) : Sets listener tr { s with readFds, pc } :=
  ⟨h.master, h.le_max, h.max_lt, fun i hi => absurd hi (hpc i), h.fresh⟩

theorem Sets.select {tr : List Call} (h : Sets listener tr s) (ready : FdSet) :
    Sets listener (tr ++ [.select s.master (s.master ∩ ready)])
      { s with readFds := s.master ∩ ready, pc := .scan 0 } := by
  have hes : connected (tr ++ [.select s.master (s.master ∩ ready)]) = connected tr :=
    connected_neutral tr rfl
  refine ⟨by rw [hes]; exact h.master, h.le_max, h.max_lt, ?_, by rw [hes]; exact h.fresh⟩
  intro i _ k hk _
  exact (Finset.mem_inter.1 hk).1

theorem Sets.add {tr : List Call} (h : Sets listener tr s) {i : Nat} (hpc : s.pc = .scan i) {newfd : Nat}
    (hf : AcceptFresh listener tr (.accept (some newfd))) (hlt : newfd < FD_SETSIZE) :
    HubStep listener (connected tr) [.accept (some newfd)] (insert newfd (connected tr)) ∧
    Sets listener (tr ++ [.accept (some newfd)])
      { s with master := insert newfd s.master, fdmax := if newfd > s.fdmax then newfd else s.fdmax,
               pc := .scan (i + 1) } := by
  obtain ⟨hl, hn⟩ := hf newfd rfl
  have hmax := fdmax_spec hlt h.max_lt
  refine ⟨.join hl hn, ?_, ?_, hmax.2.2, ?_, ?_⟩
  · simp only [connected_accept, h.master]
    exact Finset.insert_comm newfd listener _
  · intro fd hfd
    rcases Finset.mem_insert.1 hfd with rfl | hfd
    · exact hmax.1
    · exact (h.le_max fd hfd).trans hmax.2.1
  · intro j hj k hk hjk
    cases hj
    exact Finset.mem_insert_of_mem (h.pending i hpc k hk (by omega))
  · rw [connected_accept]
    simp [h.fresh, Ne.symm hl]

theorem Sets.del {tr : List Call} (h : Sets listener tr s) {i : Nat} (hpc : s.pc = .scan i)
    {r : Option (List UInt8)} (hr : r = none ∨ r = some []) (hi : i ∈ s.readFds) (hl : i ≠ listener) :
    HubStep listener (connected tr) [.recv i r, .close i] ((connected tr).erase i) ∧
    Sets listener (tr ++ [.recv i r, .close i])
      { s with master := s.master.erase i, pc := .scan (i + 1) } := by
  have hconn : connected (tr ++ [.recv i r, .close i]) = (connected tr).erase i := by
    rw [List.append_cons, connected_close, connected_neutral tr rfl]
  refine ⟨.leave (h.client hpc hi hl) hr, ?_, ?_, h.max_lt, ?_, ?_⟩
  · simp only [hconn, h.master]
    exact Finset.erase_insert_of_ne (Ne.symm hl)
  · intro fd hfd
    exact h.le_max fd (Finset.mem_of_mem_erase hfd)
  · intro j hj k hk hjk
    cases hj
    exact Finset.mem_erase.2 ⟨by omega, h.pending i hpc k hk (by omega)⟩
  · rw [hconn]
    exact fun hm => h.fresh (Finset.mem_of_mem_erase hm)

theorem Sets.relay {tr : List Call} (h : Sets listener tr s) {i : Nat} (hpc : s.pc = .scan i)
    {bytes : List UInt8} {ds : List Fd} (hb : bytes ≠ []) (hi : i ∈ s.readFds) (hl : i ≠ listener)
    (hds : relayLoop listener i s.master (List.range (s.fdmax + 1)) = some ds) :
    HubStep listener (connected tr) (.recv i (some bytes) :: sends bytes ds) (connected tr) := by
  have hrange : ∀ j ∈ List.range (s.fdmax + 1), j < FD_SETSIZE := by
    intro j hj
    have := h.max_lt
    have := List.mem_range.1 hj
    omega
  rw [relayLoop_eq hrange, Option.some.injEq] at hds
  subst hds
  refine .say (h.client hpc hi hl) hb (List.nodup_range.filter _) ?_
  intro d
  rw [List.mem_filter, List.mem_range, Bool.and_eq_true, Bool.and_eq_true, decide_eq_true_eq,
    bne_iff_ne, bne_iff_ne]
  constructor
  · rintro ⟨-, ⟨hd, hdl⟩, hdi⟩
    rw [h.master, Finset.mem_insert] at hd
    exact ⟨hd.resolve_left hdl, hdi⟩
  · rintro ⟨hd, hdi⟩
    have hm : d ∈ s.master := by rw [h.master]; exact Finset.mem_insert_of_mem hd
    have hle := h.le_max d hm
    exact ⟨by omega, ⟨hm, fun e => h.fresh (e ▸ hd)⟩, hdi⟩

/-- **One step.** Whatever the calls answer, the step is a hub step and the sets are kept. -/
theorem step_sets {tr es : List Call} {a : Answer} (h : Sets listener tr s)
    (hf : Reactive.Always (AcceptFresh listener) (tr ++ es)) (hs : step listener s a = some (s', es)) :
    (∃ H, HubStep listener (connected tr) es H) ∧ Sets listener (tr ++ es) s' := by
  rcases step_cases hs with ⟨-, -, rfl, rfl⟩ | ⟨-, ready, -, rfl, rfl⟩ | ⟨i, hpc, -, s1, hscan, rfl⟩ |
    ⟨i, -, -, rfl, rfl⟩
  · exact ⟨⟨_, .idle⟩, by simpa using h.unscanned (by simp) s.master⟩
  · exact ⟨⟨_, .wait (Or.inr ⟨_, _, rfl⟩)⟩, h.select ready⟩
  · rcases scanFd_cases hscan with ⟨-, rfl, rfl⟩ | ⟨-, -, -, rfl, rfl⟩ |
      ⟨-, -, newfd, -, hlt, rfl, rfl⟩ | ⟨hi, hl, bytes, ds, hb, -, hds, rfl, rfl⟩ | ⟨hi, hl, hr, rfl, rfl⟩
    · exact ⟨⟨_, .idle⟩, h.skip hpc (by simp)⟩
    · exact ⟨⟨_, .refuse⟩, h.skip hpc (connected_neutral tr rfl)⟩
    · have hfresh := (Reactive.always_cons.1 (Reactive.always_append.1 hf).2).1
      rw [List.append_nil] at hfresh
      obtain ⟨hstep, hsets⟩ := h.add hpc hfresh hlt
      exact ⟨⟨_, hstep⟩, hsets⟩
    · have hstep := h.relay hpc hb hi hl hds
      exact ⟨⟨_, hstep⟩, h.skip hpc hstep.connected.symm⟩
    · obtain ⟨hstep, hsets⟩ := h.del hpc hr hi hl
      exact ⟨⟨_, hstep⟩, hsets⟩
  · exact ⟨⟨_, .idle⟩, by simpa using h.unscanned (by simp) s.readFds⟩

/-- While descriptors stay below `FD_SETSIZE`, a round of the scan is defined. -/
theorem scanFd_isSome (listener : Fd) {i : Nat} {a : Answer} (hmax : s.fdmax < FD_SETSIZE) (hi : i ≤ s.fdmax)
    (ha : ∀ fd : Nat, a.accept = some fd → fd < FD_SETSIZE) : ∃ r, scanFd listener i s a = some r := by
  have hisset : fdIsset i s.readFds = some (decide (i ∈ s.readFds)) := fdIsset_eq_some.2 ⟨by omega, rfl⟩
  simp only [scanFd, hisset, Option.bind_eq_bind, Option.bind_some]
  split
  · split
    · split
      · exact ⟨_, rfl⟩
      · rename_i newfd hacc
        rw [fdSet_eq_some.2 ⟨ha newfd hacc, rfl⟩]; exact ⟨_, rfl⟩
    · split
      · rw [relayLoop_eq fun j hj => by have := List.mem_range.1 hj; omega]; exact ⟨_, rfl⟩
      · rw [fdClr_eq_some.2 ⟨by omega, rfl⟩]; exact ⟨_, rfl⟩
  · exact ⟨_, rfl⟩

/-- So is every step. -/
theorem Sets.progress {tr : List Call} (h : Sets listener tr s) (hpc : s.pc ≠ .exited) {a : Answer}
    (ha : ∀ fd : Nat, a.accept = some fd → fd < FD_SETSIZE) : ∃ r, step listener s a = some r := by
  unfold step
  split
  · split <;> exact ⟨_, rfl⟩
  · split
    · rename_i hi
      obtain ⟨r, hr⟩ := scanFd_isSome listener h.max_lt hi ha
      exact ⟨_, by rw [hr]; rfl⟩
    · exact ⟨_, rfl⟩
  · rename_i hex
    exact absurd hex hpc

/-! ## Along runs -/

theorem sets_of_run {s₀ : State} {tr : List Call} (h0 : start listener = some s₀)
    (hrun : Reactive.Run (step listener) (fun _ _ _ => True) s₀ tr s)
    (hf : Reactive.Always (AcceptFresh listener) tr) : Sets listener tr s := by
  refine hrun.invariant_of_always (Sets listener) (sets_start h0) ?_ hf
  intro tr s a s' es h hf _ hs
  exact (step_sets h hf hs).2

/-- **The select server's sets and relay.** After every step of every run: `master` is exactly
the listener and the connected sockets, all at most `fdmax`. The next step passes a received
chunk once to every other client and to nobody else, and it is defined as long as `accept`
returns descriptors below `FD_SETSIZE`. -/
theorem select_run_sets {s₀ : State} {tr : List Call} (h0 : start listener = some s₀)
    (hrun : Reactive.Run (step listener) (fun _ _ _ => True) s₀ tr s)
    (hf : Reactive.Always (AcceptFresh listener) tr) :
    ((∀ fd, fd ∈ s.master ↔ fd = listener ∨ fd ∈ connected tr) ∧ ∀ fd ∈ s.master, fd ≤ s.fdmax) ∧
    (∀ a s' es, step listener s a = some (s', es) →
      Reactive.Always (AcceptFresh listener) (tr ++ es) → Relays listener (connected tr) es) ∧
    (∀ a, s.pc ≠ .exited → (∀ fd : Nat, a.accept = some fd → fd < FD_SETSIZE) →
      ∃ r, step listener s a = some r) := by
  have h := sets_of_run h0 hrun hf
  refine ⟨⟨fun fd => by rw [h.master, Finset.mem_insert], h.le_max⟩, ?_, ?_⟩
  · intro a s' es hs hf'
    obtain ⟨⟨H, hstep⟩, -⟩ := step_sets h hf' hs
    exact hstep.relays h.fresh
  · intro a hpc ha
    exact h.progress hpc ha

/-- Two clients join; what the first one says goes to the second. -/
theorem select_run_sets_two_clients :
    Relays 0 {2, 1} [.recv 1 (some [104, 105]), .send 2 [104, 105]] := by
  have hexec : Reactive.exec (step 0) ⟨{0}, ∅, 0, .select⟩
      [{ select := some {0} }, { accept := some 1 }, {}, {}, { select := some {0} }, { accept := some 2 },
       {}, {}, {}, { select := some {1} }, {}] = some
      (⟨{2, 1, 0}, {1}, 2, .scan 1⟩, [.select {0} {0}, .accept (some 1), .select {1, 0} {0},
        .accept (some 2), .select {2, 1, 0} {1}]) := rfl
  have hrun := Reactive.Run.exec (C := fun _ _ _ => True) (fun _ _ _ => trivial) .start hexec
  have hfresh : Reactive.Always (AcceptFresh 0)
      ([.select {0} {0}, .accept (some 1), .select {1, 0} {0}, .accept (some 2),
        .select {2, 1, 0} {1}] ++ [.recv 1 (some [104, 105]), .send 2 [104, 105]]) := by
    simp [Reactive.always_cons, AcceptFresh, connected]
  have hrelays := (select_run_sets rfl hrun hfresh.prefix).2.1
  exact hrelays { recv := some [104, 105] } _ _ rfl hfresh

end CHell.Chat.Select
