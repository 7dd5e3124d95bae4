import CHell.Chat.SelectRuns

/-!
# One pass of the select server

`read_fds` is a snapshot: while the pass over it goes on, `master` and `fdmax` change and a closed number
can come back as a new client, but the snapshot does not. So a pass serves what `select` reported, in
ascending order, and nothing else (`select_pass_serves`).
-/

namespace CHell.Chat.Select

variable {listener : Fd} {s s' : State}

/-- All descriptors are at most `fdmax`, those of the snapshot too. -/
structure Bounded (s : State) : Prop where
  max_lt : s.fdmax < FD_SETSIZE
  master_le : ∀ fd ∈ s.master, fd ≤ s.fdmax
  ready_le : ∀ fd ∈ s.readFds, fd ≤ s.fdmax

/-- Each descriptor of `ready` is served once, in ascending order, and no other: the listener by
`accept`, a client by `recv`. There is no `select` among the calls. -/
structure Serves (listener : Fd) (ready : FdSet) (calls : List Call) : Prop where
  ascending : (served listener calls).Pairwise (· < ·)
  all : ∀ fd, fd ∈ served listener calls ↔ fd ∈ ready
  recv_ne : ∀ fd r, .recv fd r ∈ calls → fd ≠ listener
  no_select : ∀ asked ready, .select asked ready ∉ calls

/-! ## One round of the scan -/

theorem Bounded.scanFd {i : Nat} {a : Answer} {es : List Call} (h : Bounded s)
    (hscan : scanFd listener i s a = some (s', es)) : Bounded s' ∧ s'.readFds = s.readFds := by
  rcases scanFd_cases hscan with ⟨-, rfl, -⟩ | ⟨-, -, -, rfl, -⟩ | ⟨-, -, newfd, -, hlt, rfl, -⟩ |
    ⟨-, -, bytes, ds, -, -, -, rfl, -⟩ | ⟨-, -, -, rfl, -⟩
  · exact ⟨h, rfl⟩
  · exact ⟨h, rfl⟩
  · have hmax := fdmax_spec hlt h.max_lt
    refine ⟨⟨hmax.2.2, ?_, fun fd hfd => (h.ready_le fd hfd).trans hmax.2.1⟩, rfl⟩
    intro fd hfd
    rcases Finset.mem_insert.1 hfd with rfl | hfd
    · exact hmax.1
    · exact (h.master_le fd hfd).trans hmax.2.1
  · exact ⟨h, rfl⟩
  · exact ⟨⟨h.max_lt, fun fd hfd => h.master_le fd (Finset.mem_of_mem_erase hfd), h.ready_le⟩, rfl⟩

/-- The round at index `i` serves `i`, if it is in the snapshot. -/
theorem scanFd_serves {i : Nat} {a : Answer} {es : List Call} (hscan : scanFd listener i s a = some (s', es)) :
    served listener es = (if i ∈ s.readFds then [i] else []) ∧ (∀ fd r, .recv fd r ∈ es → fd ≠ listener) ∧
      ∀ asked ready, Call.select asked ready ∉ es := by
  rcases scanFd_cases hscan with ⟨hi, -, rfl⟩ | ⟨hi, rfl, -, -, rfl⟩ | ⟨hi, rfl, newfd, -, -, -, rfl⟩ |
    ⟨hi, hl, bytes, ds, -, -, -, -, rfl⟩ | ⟨hi, hl, -, -, rfl⟩
  · simp [hi]
  · simp [hi, served, Call.serves]
  · simp [hi, served, Call.serves]
  · have hserved : served listener (.recv i (some bytes) :: sends bytes ds) = i :: served listener (sends bytes ds) :=
      rfl
    rw [if_pos hi, hserved, served_sends]
    refine ⟨rfl, ?_, by simp [sends]⟩
    intro fd r hmem
    rcases List.mem_cons.1 hmem with heq | hmem
    · cases heq
      exact hl
    · obtain ⟨d, -, hd⟩ := List.mem_map.1 hmem
      cases hd
  · simp [hi, hl, served, Call.serves]

/-- From `i` on: `i` itself, and from `i + 1` on. -/
theorem mem_filter_from (ready : FdSet) (i : Nat) {fd : Fd} :
    fd ∈ ready.filter (fun fd => i ≤ fd) ↔
      (fd = i ∧ i ∈ ready) ∨ fd ∈ ready.filter (fun fd => i + 1 ≤ fd) := by
  rw [Finset.mem_filter, Finset.mem_filter]
  constructor
  · rintro ⟨hfd, hle⟩
    rcases Nat.eq_or_lt_of_le hle with rfl | hlt
    · exact Or.inl ⟨rfl, hfd⟩
    · exact Or.inr ⟨hfd, hlt⟩
  · rintro (⟨rfl, hfd⟩ | ⟨hfd, hlt⟩)
    · exact ⟨hfd, Nat.le_refl _⟩
    · exact ⟨hfd, Nat.le_of_lt hlt⟩

/-- What is served from index `i` on: by the round at `i`, and from `i + 1` on. -/
theorem Serves.round {i : Nat} {ready : FdSet} {es calls : List Call}
    (hes : served listener es = if i ∈ ready then [i] else []) (hrecv : ∀ fd r, .recv fd r ∈ es → fd ≠ listener)
    (hsel : ∀ asked ready, Call.select asked ready ∉ es)
    (h : Serves listener (ready.filter fun fd => i + 1 ≤ fd) calls) :
    Serves listener (ready.filter fun fd => i ≤ fd) (es ++ calls) := by
  have hlater : ∀ fd ∈ served listener calls, i < fd := by
    intro fd hfd
    have hmem := (h.all fd).1 hfd
    exact (Finset.mem_filter.1 hmem).2
  refine ⟨?_, ?_, ?_, ?_⟩
  · rw [served_append, hes, List.pairwise_append]
    refine ⟨by split <;> simp, h.ascending, ?_⟩
    intro x hx y hy
    split at hx
    · obtain rfl := List.mem_singleton.1 hx
      exact hlater y hy
    · cases hx
  · intro fd
    rw [served_append, List.mem_append, hes, h.all, mem_filter_from ready i]
    split <;> simp [*]
  · intro fd r hmem
    rcases List.mem_append.1 hmem with hmem | hmem
    · exact hrecv fd r hmem
    · exact h.recv_ne fd r hmem
  · intro asked ready hmem
    rcases List.mem_append.1 hmem with hmem | hmem
    · exact hsel asked ready hmem
    · exact h.no_select asked ready hmem

/-! ## The pass -/

/-- **The scan from index `i` on** comes to its end and serves what the snapshot holds from `i` on. The
induction is on the answers, of which there are as many as the scan can take. -/
theorem scan_serves (listener : Fd) {is : List Answer}
    (his : ∀ a ∈ is, ∀ fd : Nat, a.accept = some fd → fd < FD_SETSIZE) :
    ∀ {i : Nat} {s : State}, s.pc = .scan i → Bounded s → i ≤ FD_SETSIZE → FD_SETSIZE < i + is.length →
    ∃ n s' calls, Reactive.exec (step listener) s (is.take n) = some (s', calls) ∧ s'.pc = .select ∧
      Serves listener (s.readFds.filter fun fd => i ≤ fd) calls := by
  induction is with
  | nil =>
    intro i s _ _ hi hlen
    simp only [List.length_nil] at hlen
    omega
  | cons a is ih =>
    intro i s hpc hb hi hlen
    obtain ⟨ha, his⟩ := List.forall_mem_cons.1 his
    have hmax := hb.max_lt
    by_cases hle : i ≤ s.fdmax
    · obtain ⟨⟨s1, es⟩, hscan⟩ := scanFd_isSome listener hmax hle ha
      obtain ⟨hb1, hready⟩ := hb.scanFd hscan
      obtain ⟨hserved, hrecv, hsel⟩ := scanFd_serves hscan
      have hstep : step listener s a = some ({ s1 with pc := .scan (i + 1) }, es) := by
        unfold step
        rw [hpc]
        simp only [if_pos hle, hscan, Option.bind_eq_bind, Option.bind_some]
      have hb1' : Bounded { s1 with pc := .scan (i + 1) } := ⟨hb1.max_lt, hb1.master_le, hb1.ready_le⟩
      rw [List.length_cons] at hlen
      obtain ⟨n, s', calls, hexec, hend, hserves⟩ := ih his (i := i + 1) rfl hb1' (by omega) (by omega)
      refine ⟨n + 1, s', es ++ calls, ?_, hend, ?_⟩
      · rw [List.take_succ_cons]
        exact Reactive.exec_cons hstep hexec
      · rw [← hready] at hserved ⊢
        exact hserves.round hserved hrecv hsel
    · have hstep : step listener s a = some ({ s with pc := .select }, []) := by
        unfold step
        rw [hpc]
        simp only [if_neg hle]
      have hnone : (s.readFds.filter fun fd => i ≤ fd) = ∅ := by
        rw [Finset.filter_eq_empty_iff]
        intro (fd : Nat) hfd hle'
        have hfd' : fd ≤ s.fdmax := hb.ready_le fd hfd
        omega
      refine ⟨1, _, [], Reactive.exec_singleton hstep, rfl, ?_⟩
      rw [hnone]
      exact ⟨List.Pairwise.nil, by simp, by simp, by simp⟩

theorem bounded_start {s₀ : State} (h0 : start listener = some s₀) : Bounded s₀ := by
  simp only [start, Option.bind_eq_bind, Option.bind_eq_some_iff] at h0
  obtain ⟨master, hset, h0⟩ := h0
  obtain ⟨hlt, rfl⟩ := fdSet_eq_some.1 hset
  cases h0
  exact ⟨hlt, by simp, by simp⟩

theorem Bounded.step {a : Answer} {es : List Call} (h : Bounded s) (hs : Select.step listener s a = some (s', es)) :
    Bounded s' := by
  rcases step_cases hs with ⟨-, -, rfl, -⟩ | ⟨-, ready, -, rfl, -⟩ | ⟨i, -, -, s1, hscan, rfl⟩ | ⟨i, -, -, rfl, -⟩
  · exact ⟨h.max_lt, h.master_le, h.master_le⟩
  · exact ⟨h.max_lt, h.master_le, fun fd hfd => h.master_le fd (Finset.mem_inter.1 hfd).1⟩
  · obtain ⟨h1, -⟩ := h.scanFd hscan
    exact ⟨h1.max_lt, h1.master_le, h1.ready_le⟩
  · exact ⟨h.max_lt, h.master_le, h.ready_le⟩

theorem bounded_of_run {s₀ : State} {tr : List Call} (h0 : start listener = some s₀)
    (hrun : Reactive.Run (step listener) (fun _ _ _ => True) s₀ tr s) : Bounded s :=
  hrun.invariant (fun _ s => Bounded s) (bounded_start h0) fun _ _ _ _ _ hb _ hs => hb.step hs

/-- **Every pass serves what `select` reported.** From any state a run comes to before `select`, whatever `select`
reports ready and whatever the calls of the pass answer, the pass ends, and each descriptor reported
has been served once, in ascending order, and no other. -/
theorem select_pass_serves {s₀ : State} {tr : List Call} (h0 : start listener = some s₀)
    (hrun : Reactive.Run (step listener) (fun _ _ _ => True) s₀ tr s) (hpc : s.pc = .select) {a : Answer}
    {ready : FdSet} (hready : a.select = some ready) {is : List Answer} (hlen : FD_SETSIZE < is.length)
    (his : ∀ a ∈ is, ∀ fd : Nat, a.accept = some fd → fd < FD_SETSIZE) :
    ∃ n s' calls, Reactive.exec (step listener) s (a :: is.take n) =
        some (s', .select s.master (s.master ∩ ready) :: calls) ∧
      s'.pc = .select ∧ Serves listener (s.master ∩ ready) calls := by
  have hb := bounded_of_run h0 hrun
  have hstep : step listener s a = some ({ s with readFds := s.master ∩ ready, pc := .scan 0 },
      [.select s.master (s.master ∩ ready)]) := by
    unfold step
    rw [hpc]
    simp only [hready]
  have hb0 : Bounded { s with readFds := s.master ∩ ready, pc := .scan 0 } :=
    ⟨hb.max_lt, hb.master_le, fun fd hfd => hb.master_le fd (Finset.mem_inter.1 hfd).1⟩
  obtain ⟨n, s', calls, hexec, hend, hserves⟩ := scan_serves listener his (i := 0) rfl hb0
    (Nat.zero_le _) (by omega)
  have hall : ((s.master ∩ ready).filter fun fd => 0 ≤ fd) = s.master ∩ ready :=
    Finset.filter_true_of_mem fun _ _ => Nat.zero_le _
  rw [hall] at hserves
  exact ⟨n, s', calls, Reactive.exec_cons hstep hexec, hend, hserves⟩

/-- Client 1 hangs up and client 2 says something, in one pass. -/
def hangUpPass : List Answer := {} :: {} :: { recv := some [104] } :: List.replicate 1025 {}

theorem select_pass_serves_sample :
    ∃ n s' calls, Reactive.exec (step 0) ⟨{2, 1, 0}, {0}, 2, .select⟩
        ({ select := some {2, 1} } :: hangUpPass.take n) =
          some (s', .select {2, 1, 0} ({2, 1, 0} ∩ {2, 1}) :: calls) ∧
      s'.pc = .select ∧ Serves 0 ({2, 1, 0} ∩ {2, 1}) calls := by
  have hexec : Reactive.exec (step 0) ⟨{0}, ∅, 0, .select⟩
      [{ select := some {0} }, { accept := some 1 }, {}, {}, { select := some {0} }, { accept := some 2 },
       {}, {}, {}] = some (⟨{2, 1, 0}, {0}, 2, .select⟩,
        [.select {0} {0}, .accept (some 1), .select {1, 0} {0}, .accept (some 2)]) := rfl
  have hrun := Reactive.Run.exec (C := fun _ _ _ => True) (fun _ _ _ => trivial) .start hexec
  have his : ∀ a ∈ hangUpPass, ∀ fd : Nat, a.accept = some fd → fd < FD_SETSIZE := by
    unfold hangUpPass
    simp only [List.forall_mem_cons, List.mem_replicate]
    simp
  have hlen : FD_SETSIZE < hangUpPass.length := by
    unfold hangUpPass
    simp only [List.length_cons, List.length_replicate]
    decide
  exact select_pass_serves rfl hrun rfl rfl hlen his

end CHell.Chat.Select
