import CHell.Http.Server

/-!
# Runs of the forking web server

`Sound sockfd tr s`: what the parent has in hand is what its next statement says (`phase`), the processes
and their tables are those of `ForkServer.Serving`, and the count of `Http/ParentRuns.lean` is right. From it:

* `server_isolates`: at the head of the loop the parent has the listening socket and nothing else, and no
  process has a connection of another.
* `server_serves_once`: each connection is used by one child process, which goes through `handle_client` once.
* `server_open_le`: ten connections at most are open.
-/

namespace CHell.Http

open ForkServer

/-- What the parent has in hand, by the statement it comes to next. -/
def phase (p : State) : Phase :=
  match p.pc with
  | .testConnfd => if p.connfd < 0 then .idle else .accepted p.connfd.toNat
  | .increment | .fork | .perrorFork | .exitFork => .accepted p.connfd.toNat
  | .testFailed => if p.childpid < 0 then .accepted p.connfd.toNat else .forked p.connfd.toNat
  | .testChild | .printf | .close => .forked p.connfd.toNat
  | .exitAccept | .exited => .quit
  | _ => .idle

/-- The programs of the children. -/
def IsChild (sockfd connfd : Fd) (prog : List (Call ChildCall)) : Prop := ∃ a, prog = childProgram sockfd connfd a

/-- What the tests have shown that led to a statement. -/
structure Tested (p : State) : Prop where
  connfd : (phase p).holds ≠ none → 0 ≤ p.connfd
  childpid : p.pc = .testFailed ∨ p.pc = .testChild → p.childpid ≠ 0

variable {sockfd : Fd} {tr es : List (ForkServer.Event ChildCall)} {p p' : State} {k k' : Kernel ChildCall}
  {s s' : Server}

/-! ## Statements of `main` -/

theorem serving_same (h : Serving sockfd (IsChild sockfd) (phase p) tr k) (hphase : phase p' = phase p) :
    Serving sockfd (IsChild sockfd) (phase p') (tr ++ []) k := by
  rw [hphase, List.append_nil]
  exact h

theorem main_serving {accept : Except Int Nat} {fork : Option Pid} {a : ClientAnswers} {ptr : List Event}
    (h : Serving sockfd (IsChild sockfd) (phase p) tr k) (ht : Tested p)
    (hs : mainStep p accept fork = some (p', ptr)) (he : effect sockfd ⟨p, k⟩ accept fork a = some (k', es)) :
    Serving sockfd (IsChild sockfd) (phase p') (tr ++ es) k' ∧ Tested p' := by
  obtain ⟨hconnfd, hchildpid⟩ := ht
  cases hpc : p.pc
  all_goals simp only [mainStep, effect, hpc] at hs he
  case testCount =>
    cases he
    cases hs
    refine ⟨serving_same h ?_, ?_, ?_⟩ <;> split <;> simp [phase, hpc, Phase.holds]
  case accept =>
    cases accept with
    | ok fd =>
      cases hs
      have hidle : phase p = .idle := by simp [phase, hpc]
      have hnext : phase { p with connfd := (fd : Int), pc := .testConnfd } = .accepted fd := by simp [phase]
      rw [hidle] at h
      rw [hnext]
      exact ⟨h.accept he, by simp, by simp⟩
    | error e =>
      cases hs
      cases he
      refine ⟨serving_same h ?_, ?_, ?_⟩ <;> simp [phase, hpc, Phase.holds]
  case testConnfd =>
    cases he
    cases hs
    by_cases hneg : p.connfd < 0
    · refine ⟨serving_same h ?_, ?_, ?_⟩ <;> simp [phase, hpc, hneg, Phase.holds]
    · refine ⟨serving_same h ?_, ?_, ?_⟩ <;> simp [phase, hpc, hneg, Phase.holds]
      omega
  case testErrno =>
    cases he
    cases hs
    by_cases herrno : p.errno = EINTR <;> refine ⟨serving_same h ?_, ?_, ?_⟩ <;>
      simp [phase, hpc, herrno, Phase.holds]
  case closeSockfd =>
    cases he
    cases hs
    have hidle : phase p = .idle := by simp [phase, hpc]
    have hnext : phase { p with pc := .exitAccept } = .quit := by simp [phase]
    rw [hidle] at h
    rw [hnext, List.append_nil]
    exact ⟨h.closeListener, by simp [phase, Phase.holds], by simp⟩
  case exitAccept | exitFork =>
    cases he
    cases hs
    have hnext : phase { p with pc := .exited } = .quit := by simp [phase]
    rw [hnext, List.append_nil]
    exact ⟨h.quit, by simp [phase, Phase.holds], by simp⟩
  case fork =>
    have hhand : phase p = .accepted p.connfd.toNat := by simp [phase, hpc]
    have hpos : 0 ≤ p.connfd := hconnfd (by simp [hhand, Phase.holds])
    cases fork with
    | some pid =>
      simp only at hs he
      split at hs
      · rename_i hpid
        cases hs
        have hnext : phase { p with children := insert pid p.children, childpid := (pid : Int), pc := .testFailed } =
            .forked p.connfd.toNat := by simp [phase]
        rw [hhand] at h
        rw [hnext]
        exact ⟨h.fork ⟨a, rfl⟩ he, fun _ => hpos, fun _ => Int.natCast_ne_zero.2 (Nat.ne_of_gt hpid.1)⟩
      · cases hs
    | none =>
      cases hs
      cases he
      refine ⟨serving_same h (by simp [phase, hpc]), fun _ => hpos, by simp⟩
  case testFailed =>
    cases he
    cases hs
    have hpos : 0 ≤ p.connfd := hconnfd (by simp only [phase, hpc]; split <;> simp [Phase.holds])
    have hpid := hchildpid (.inl hpc)
    by_cases hneg : p.childpid < 0
    · refine ⟨serving_same h ?_, fun _ => hpos, ?_⟩ <;> simp [phase, hpc, hneg]
    · refine ⟨serving_same h ?_, fun _ => hpos, ?_⟩ <;> simp [phase, hpc, hneg, hpid]
  case testChild =>
    cases he
    cases hs
    have hpos : 0 ≤ p.connfd := hconnfd (by simp [phase, hpc, Phase.holds])
    have hpid := hchildpid (.inr hpc)
    refine ⟨serving_same h ?_, fun _ => hpos, ?_⟩ <;> simp [phase, hpc, hpid]
  case close =>
    cases he
    cases hs
    have hpos : ¬ p.connfd < 0 := Int.not_lt.2 (hconnfd (by simp [phase, hpc, Phase.holds]))
    have hnext : phase { p with pc := .testCount } = .idle := by simp [phase]
    rw [if_neg hpos, hnext, List.append_nil]
    exact ⟨h.close (by simp [phase, hpc, Phase.holds]), by simp [phase, Phase.holds], by simp⟩
  case exited => cases hs
  case increment | perrorFork | printf =>
    cases he
    cases hs
    have hpos : 0 ≤ p.connfd := hconnfd (by simp [phase, hpc, Phase.holds])
    exact ⟨serving_same h (by simp [phase, hpc]), fun _ => hpos, by simp⟩
  case setClilen | continueLoop | perrorAccept =>
    cases he
    cases hs
    refine ⟨serving_same h ?_, ?_, ?_⟩ <;> simp [phase, hpc, Phase.holds]

/-! ## Processes -/

theorem effect_children {accept : Except Int Nat} {fork : Option Pid} {a : ClientAnswers}
    (he : effect sockfd ⟨p, k⟩ accept fork a = some (k', es)) :
    k'.children = k.children ∧ (p.pc ≠ .accept → k'.accepted = k.accepted) ∨
      ∃ pid c, p.pc = .fork ∧ fork = some pid ∧ k'.children = Function.update k.children pid (some c) ∧
        c.conn = k.accepted - 1 ∧ k'.accepted = k.accepted := by
  unfold effect at he
  split at he
  · rename_i hpc
    split at he
    · unfold Kernel.accept at he
      split at he
      · cases he
        exact .inl ⟨rfl, fun h => absurd hpc h⟩
      · cases he
    · cases he
      exact .inl ⟨rfl, fun _ => rfl⟩
  · cases he
    exact .inl ⟨rfl, fun _ => rfl⟩
  · cases he
    exact .inl ⟨rfl, fun _ => rfl⟩
  · cases he
    exact .inl ⟨rfl, fun _ => rfl⟩
  · rename_i hpc
    split at he
    · rename_i pid
      unfold Kernel.fork at he
      split at he
      · cases he
      · cases he
        exact .inr ⟨pid, _, hpc, rfl, rfl, rfl, rfl⟩
    · cases he
      exact .inl ⟨rfl, fun _ => rfl⟩
  · cases he
    refine .inl ⟨?_, fun _ => ?_⟩ <;> split <;> rfl
  · cases he
    exact .inl ⟨rfl, fun _ => rfl⟩

theorem mainStep_fork {accept : Except Int Nat} {pid : Pid} {ptr : List Event} (hpc : p.pc = .fork)
    (hs : mainStep p accept (some pid) = some (p', ptr)) :
    pid ∉ p.children ∧ p'.children = insert pid p.children ∧ p'.childpid = pid := by
  simp only [mainStep, hpc] at hs
  split at hs
  · rename_i hpid
    cases hs
    exact ⟨hpid.2, rfl, rfl⟩
  · cases hs

/-- With a new process in hand: it has just been forked, or was in hand before. -/
theorem main_forked {accept : Except Int Nat} {fork : Option Pid} {ptr : List Event} {fd : Fd}
    (hs : mainStep p accept fork = some (p', ptr)) (hph : phase p' = .forked fd) (ht : Tested p) :
    (∃ pid, p.pc = .fork ∧ fork = some pid) ∨
    p.pc ≠ .accept ∧ p.pc ≠ .fork ∧ phase p = .forked fd ∧ p'.children = p.children ∧ p'.childpid = p.childpid := by
  have hchildpid := ht.childpid
  cases hpc : p.pc
  all_goals simp only [mainStep, hpc] at hs
  case fork =>
    cases fork with
    | some pid =>
      exact .inl ⟨pid, rfl, rfl⟩
    | none =>
      cases hs
      simp [phase] at hph
  case testFailed =>
    cases hs
    have hne := hchildpid (.inl hpc)
    by_cases hneg : p.childpid < 0
    · simp [phase, hneg] at hph
    · refine .inr ⟨by simp, by simp, ?_, rfl, rfl⟩
      simpa [phase, hneg, hpc] using hph
  case testChild =>
    cases hs
    refine .inr ⟨by simp, by simp, ?_, rfl, rfl⟩
    have hne := hchildpid (.inr hpc)
    simpa [phase, hne, hpc] using hph
  case printf =>
    cases hs
    exact .inr ⟨by simp, by simp, by simpa [phase, hpc] using hph, rfl, rfl⟩
  case accept =>
    cases accept <;> cases hs <;> simp only [phase] at hph <;> split at hph <;> cases hph
  case exited => cases hs
  case testCount =>
    cases hs
    by_cases hlt : p.clientcount < 10 <;> simp [phase, hlt, hpc] at hph
  case testConnfd =>
    cases hs
    by_cases hneg : p.connfd < 0 <;> simp [phase, hneg] at hph
  case testErrno =>
    cases hs
    by_cases herrno : p.errno = EINTR <;> simp [phase, herrno] at hph
  all_goals
    cases hs
    cases hph

theorem handlerStep_children {pid : Pid} {ptr : List Event} (hs : handlerStep p pid = some (p', ptr)) :
    (p'.pc = p.pc ∧ p'.connfd = p.connfd ∧ p'.childpid = p.childpid) ∧
    (p'.children = p.children ∧ p'.zombies = p.zombies ∨
      pid ∈ p.zombies ∧ p'.children = p.children.erase pid ∧ p'.zombies = p.zombies.erase pid) := by
  unfold handlerStep at hs
  split at hs
  · cases hs
  · split at hs
    · split at hs
      · rename_i hz
        cases hs
        exact ⟨⟨rfl, rfl, rfl⟩, .inr ⟨hz, rfl, rfl⟩⟩
      · cases hs
    · split at hs <;> cases hs <;> exact ⟨⟨rfl, rfl, rfl⟩, .inl ⟨rfl, rfl⟩⟩
  all_goals
    cases hs
    exact ⟨⟨rfl, rfl, rfl⟩, .inl ⟨rfl, rfl⟩⟩

theorem phase_congr (hpc : p'.pc = p.pc) (hconnfd : p'.connfd = p.connfd) (hchildpid : p'.childpid = p.childpid) :
    phase p' = phase p := by
  unfold phase
  rw [hpc, hconnfd, hchildpid]

/-! ## The invariant -/

structure Sound (sockfd : Fd) (tr : List (ForkServer.Event ChildCall)) (s : Server) : Prop where
  serving : Serving sockfd (IsChild sockfd) (phase s.parent) tr s.kernel
  tested : Tested s.parent
  /-- A process with a table is a child that has not exited. -/
  kids : ∀ pid c, s.kernel.children pid = some c → pid ∈ s.parent.children \ s.parent.zombies
  counts : ∃ ptr, Counts ptr s.parent
  /-- The others are nine at most. -/
  newest : ∀ fd, phase s.parent = .forked fd → (s.parent.children.erase s.parent.childpid.toNat).card ≤ 9 ∧
    ∀ c, s.kernel.children s.parent.childpid.toNat = some c → c.conn = s.kernel.accepted - 1

theorem sound_start (sockfd : Fd) (connfd childpid errno : Int) :
    Sound sockfd [] (Server.start sockfd connfd childpid errno) := by
  refine ⟨serving_start sockfd _,
    ⟨by simp [Server.start, Http.start, phase, Phase.holds], by simp [Server.start, Http.start]⟩,
    by simp [Server.start, ForkServer.start], ⟨[], counts_start connfd childpid errno⟩, ?_⟩
  simp [Server.start, Http.start, phase]

/-- With a connection in hand there is room for one more child. -/
theorem Counts.children_le_nine {ptr : List Event} (h : Counts ptr p) {fd : Fd} (hph : phase p = .accepted fd) :
    p.children.card ≤ 9 := by
  have hpc : p.pc ≠ .exited := by
    intro hpc
    simp [phase, hpc] at hph
  have hcount := h.count hpc
  have hlimit := h.limit hpc
  by_cases hadm : p.pc.admitting = true
  · have hroom := h.room hadm
    omega
  · have hcounted : p.counted = 1 := by
      unfold phase at hph
      unfold State.counted
      split at hph <;> (try split at hph) <;> simp_all [Pc.admitting]
    omega

namespace Sound

theorem main (h : Sound sockfd tr s) {accept : Except Int Nat} {fork : Option Pid} {a : ClientAnswers}
    {ptr : List Event} (hidle : s.parent.handler = .idle) (hs : mainStep s.parent accept fork = some (p', ptr))
    (he : effect sockfd s accept fork a = some (k', es)) : Sound sockfd (tr ++ es) ⟨p', k'⟩ := by
  obtain ⟨hserving, htested⟩ := main_serving h.serving h.tested hs he
  obtain ⟨ptr₀, hcounts⟩ := h.counts
  obtain ⟨-, -, hz, -, hcases⟩ := mainStep_cases hs
  have hsub : s.parent.children ⊆ p'.children := by
    rcases hcases with ⟨-, -, rfl, -⟩ | ⟨-, rfl, -⟩ | ⟨-, pid', -, -, -, rfl⟩ | ⟨hch, -⟩
    · exact Finset.Subset.refl _
    · exact Finset.Subset.refl _
    · exact Finset.subset_insert pid' _
    · rw [hch]
  have hkeep : ∀ pid c, s.kernel.children pid = some c → pid ∈ p'.children \ p'.zombies := by
    intro pid c hc
    obtain ⟨hmem, hnz⟩ := Finset.mem_sdiff.1 (h.kids pid c hc)
    exact Finset.mem_sdiff.2 ⟨hsub hmem, by rwa [hz]⟩
  have hkernel := effect_children he
  refine ⟨hserving, htested, ?_, ⟨_, hcounts.main hidle hs⟩, ?_⟩
  · intro pid c hc
    rcases hkernel with ⟨hsame, -⟩ | ⟨pid', c', hpc, rfl, hupdate, -, -⟩
    · simp only [hsame] at hc
      exact hkeep pid c hc
    · obtain ⟨hnew, hinsert, -⟩ := mainStep_fork hpc hs
      simp only [hupdate, Function.update_apply] at hc
      split at hc
      · rename_i hpid
        subst hpid
        refine Finset.mem_sdiff.2 ⟨by simp [hinsert], ?_⟩
        rw [hz]
        exact fun hzombie => hnew (hcounts.zombies hzombie)
      · exact hkeep pid c hc
  · intro fd hph
    rcases main_forked hs hph h.tested with ⟨pid, hpc, rfl⟩ | ⟨hpc, hpc', hph', hch, hpid⟩
    · obtain ⟨hnew, hinsert, hchildpid⟩ := mainStep_fork hpc hs
      have hhand : phase s.parent = .accepted s.parent.connfd.toNat := by simp [phase, hpc]
      have hnine := hcounts.children_le_nine hhand
      have hnat : p'.childpid.toNat = pid := by simp [hchildpid]
      simp only [hnat, hinsert, Finset.erase_insert hnew]
      refine ⟨hnine, fun c hc => ?_⟩
      rcases hkernel with ⟨hsame, -⟩ | ⟨pid', c', -, hfork, hupdate, hconn, haccepted⟩
      · -- this pid was free
        simp only [hsame] at hc
        exact absurd (Finset.mem_sdiff.1 (h.kids pid c hc)).1 hnew
      · obtain rfl := Option.some.inj hfork
        simp only [hupdate, Function.update_self, Option.some.injEq] at hc
        rw [← hc, hconn, haccepted]
    · obtain ⟨hnine, hlast⟩ := h.newest fd hph'
      rcases hkernel with ⟨hsame, haccepted⟩ | ⟨pid', c', hfork, -⟩
      · simp only [hch, hpid, hsame, haccepted hpc]
        exact ⟨hnine, hlast⟩
      · exact absurd hfork hpc'

theorem parent (h : Sound sockfd tr s) (hpc : p'.pc = s.parent.pc) (hconnfd : p'.connfd = s.parent.connfd)
    (hchildpid : p'.childpid = s.parent.childpid) (hchildren : p'.children ⊆ s.parent.children)
    (hkids : ∀ pid c, s.kernel.children pid = some c → pid ∈ p'.children \ p'.zombies)
    (hcounts : ∃ ptr, Counts ptr p') : Sound sockfd tr ⟨p', s.kernel⟩ := by
  have hphase : phase p' = phase s.parent := phase_congr hpc hconnfd hchildpid
  refine ⟨hphase ▸ h.serving, ⟨?_, ?_⟩, hkids, hcounts, ?_⟩
  · rw [hphase, hconnfd]
    exact h.tested.connfd
  · rw [hpc, hchildpid]
    exact h.tested.childpid
  · intro fd hph
    obtain ⟨hnine, hlast⟩ := h.newest fd (hphase ▸ hph)
    rw [hchildpid]
    exact ⟨(Finset.card_le_card (Finset.erase_subset_erase _ hchildren)).trans hnine, hlast⟩

theorem handler (h : Sound sockfd tr s) {pid : Pid} {ptr : List Event}
    (hs : handlerStep s.parent pid = some (p', ptr)) : Sound sockfd tr ⟨p', s.kernel⟩ := by
  obtain ⟨ptr₀, hcounts⟩ := h.counts
  obtain ⟨⟨hpc, hconnfd, hchildpid⟩, hcases⟩ := handlerStep_children hs
  refine h.parent hpc hconnfd hchildpid ?_ ?_ ⟨_, hcounts.handler hs⟩
  · rcases hcases with ⟨hch, -⟩ | ⟨-, hch, -⟩
    · rw [hch]
    · rw [hch]
      exact Finset.erase_subset _ _
  · intro pid' c hc
    have hmem := Finset.mem_sdiff.1 (h.kids pid' c hc)
    rcases hcases with ⟨hch, hz⟩ | ⟨hzombie, hch, hz⟩
    · rw [hch, hz]
      exact Finset.mem_sdiff.2 hmem
    · have hne : pid' ≠ pid := by
        rintro rfl
        exact hmem.2 hzombie
      rw [hch, hz]
      exact Finset.mem_sdiff.2 ⟨Finset.mem_erase.2 ⟨hne, hmem.1⟩, fun hz' => hmem.2 (Finset.mem_of_mem_erase hz')⟩

theorem child (h : Sound sockfd tr s) {pid : Pid} (hr : s.kernel.run pid = some (k', es)) :
    Sound sockfd (tr ++ es) ⟨s.parent, k'⟩ := by
  have hserving := h.serving.run hr
  unfold Kernel.run at hr
  split at hr
  · rename_i conn files call todo exits hchild
    cases hr
    refine ⟨hserving, h.tested, ?_, h.counts, ?_⟩
    · intro pid' c hc
      simp only [Function.update_apply] at hc
      split at hc
      · rename_i hpid
        exact hpid ▸ h.kids pid _ hchild
      · exact h.kids pid' c hc
    · intro fd hph
      obtain ⟨hnine, hlast⟩ := h.newest fd hph
      refine ⟨hnine, fun c hc => ?_⟩
      simp only [Function.update_apply] at hc
      split at hc
      · rename_i hpid
        rw [hpid] at hlast
        cases hc
        have hnewest : conn = s.kernel.accepted - 1 := hlast ⟨conn, files, call :: todo, exits⟩ hchild
        exact hnewest
      · exact hlast c hc
  · cases hr

theorem exit (h : Sound sockfd tr s) {pid : Pid} {ptr : List Event} (he : s.kernel.exit pid = some (k', es))
    (hs : Http.step s.parent (.childExit pid) = some (p', ptr)) : Sound sockfd (tr ++ es) ⟨p', k'⟩ := by
  have hserving := h.serving.exit he
  obtain ⟨ptr₀, hcounts⟩ := h.counts
  have hcounts' := step_counts hcounts hs
  simp only [Http.step] at hs
  split at hs
  · cases hs
    unfold Kernel.exit at he
    split at he
    · rename_i conn files hchild
      cases he
      refine ⟨hserving, ⟨h.tested.connfd, h.tested.childpid⟩, ?_, ⟨_, hcounts'⟩, ?_⟩
      · intro pid' c hc
        simp only [Function.update_apply] at hc
        split at hc
        · cases hc
        · rename_i hpid
          obtain ⟨hmem, hnz⟩ := Finset.mem_sdiff.1 (h.kids pid' c hc)
          exact Finset.mem_sdiff.2 ⟨hmem, by simp [hpid, hnz]⟩
      · intro fd hph
        obtain ⟨hnine, hlast⟩ := h.newest fd hph
        refine ⟨hnine, fun c hc => ?_⟩
        simp only [Function.update_apply] at hc
        split at hc
        · cases hc
        · exact hlast c hc
    · cases he
  · cases hs

end Sound

/-- **One step** of the system. -/
theorem server_step_sound {m : Move} (h : Sound sockfd tr s) (hs : s.step sockfd m = some (s', es)) :
    Sound sockfd (tr ++ es) s' := by
  cases m with
  | main accept fork a =>
    simp only [Server.step, Http.step, Option.bind_eq_bind, Option.bind_eq_some_iff] at hs
    obtain ⟨⟨p', ptr⟩, hmain, ⟨k', es'⟩, he, hs⟩ := hs
    cases hs
    split at hmain
    · rename_i hidle
      exact h.main hidle hmain he
    · cases hmain
  | handler pid =>
    simp only [Server.step, Http.step, Option.bind_eq_bind, Option.bind_eq_some_iff] at hs
    obtain ⟨⟨p', ptr⟩, hhandler, hs⟩ := hs
    cases hs
    rw [List.append_nil]
    exact h.handler hhandler
  | deliver | childStop =>
    obtain ⟨ptr₀, hcounts⟩ := h.counts
    simp only [Server.step, Option.bind_eq_bind, Option.bind_eq_some_iff] at hs
    obtain ⟨⟨p', ptr⟩, hparent, hs⟩ := hs
    cases hs
    have hcounts' := step_counts hcounts hparent
    simp only [Http.step] at hparent
    rw [List.append_nil]
    (try split at hparent)
    all_goals
      cases hparent
      try exact h.parent rfl rfl rfl (Finset.Subset.refl _) h.kids ⟨_, hcounts'⟩
  | child pid =>
    simp only [Server.step, Option.bind_eq_bind, Option.bind_eq_some_iff] at hs
    obtain ⟨⟨k', es'⟩, hrun, hs⟩ := hs
    cases hs
    exact h.child hrun
  | exit pid =>
    simp only [Server.step, Option.bind_eq_bind, Option.bind_eq_some_iff] at hs
    obtain ⟨⟨k', es'⟩, he, ⟨p', ptr⟩, hparent, hs⟩ := hs
    cases hs
    exact h.exit he hparent

theorem sound_of_run {connfd childpid errno : Int}
    (hrun : Reactive.Run (Server.step sockfd) (fun _ _ _ => True) (Server.start sockfd connfd childpid errno) tr s) :
    Sound sockfd tr s := by
  refine Reactive.Run.invariant (Sound sockfd) (sound_start sockfd connfd childpid errno) ?_ hrun
  intro tr s m s' es ih _ hs
  exact server_step_sound ih hs

/-! ## The results -/

/-- **No process has a connection of another.** In every state the system comes to, whatever the order of the
steps: at the head of the loop the parent's table is the listening socket alone; a child has the
listening socket and its own connection, if it still has them; and two children never have one connection. -/
theorem server_isolates {connfd childpid errno : Int}
    (hrun : Reactive.Run (Server.step sockfd) (fun _ _ _ => True) (Server.start sockfd connfd childpid errno) tr s) :
    (s.parent.pc = .testCount → s.kernel.files = table sockfd none) ∧
    (∀ pid c, s.kernel.children pid = some c → ∀ fd f, c.files fd = some f →
      fd = sockfd ∧ f = .listener ∨ f = .conn c.conn) ∧
    ∀ pid pid' c c', s.kernel.children pid = some c → s.kernel.children pid' = some c' → c.conn = c'.conn →
      pid = pid' := by
  have h := sound_of_run hrun
  refine ⟨?_, h.serving.own, h.serving.distinct⟩
  intro hpc
  have hidle : phase s.parent = .idle := by simp [phase, hpc]
  rw [h.serving.files, hidle]
  rfl

/-- A client connects; its process is forked and closes the listening socket, the parent goes on, and `recv` fails. -/
def oneClient : List Move :=
  let answers : ClientAnswers := ⟨zeroBuffer, none, frameFrom 0 (by decide), fun _ => 0⟩
  List.replicate 5 (.main (.ok 4) none answers) ++ .main (.ok 4) (some 100) answers :: .child 100 ::
    List.replicate 4 (.main (.ok 4) none answers) ++ [.child 100]

/-- The run of it. -/
theorem run_oneClient : ∃ s tr, Reactive.Run (Server.step 3) (fun _ _ _ => True) (Server.start 3 0 0 0) tr s ∧
    s.parent.pc = .testCount ∧ Forked 0 tr ∧ hits 0 tr = [.client .recv] ∧ s.kernel.Open 0 := by
  obtain ⟨s, hexec⟩ : ∃ s, Reactive.exec (Server.step 3) (Server.start 3 0 0 0) oneClient = some (s,
      [.accepted 0, .forked 100 0, .call 100 (some .listener) .closeListener,
        .call 100 (some (.conn 0)) (.client .recv)]) := ⟨_, rfl⟩
  have hrun := Reactive.Run.exec (fun _ _ _ => trivial) .start hexec
  cases hexec
  exact ⟨_, _, hrun, rfl, ⟨100, by simp⟩, rfl, .inr ⟨100, _, 4, rfl, rfl⟩⟩

theorem server_isolates_one : ∃ s tr, Reactive.Run (Server.step 3) (fun _ _ _ => True) (Server.start 3 0 0 0) tr s ∧
    s.parent.pc = .testCount ∧ s.kernel.files = table 3 none := by
  obtain ⟨s, tr, hrun, hpc, -⟩ := run_oneClient
  exact ⟨s, tr, hrun, hpc, (server_isolates hrun).1 hpc⟩

theorem card_le_of_children {S : Finset Nat} {P : Finset Pid}
    (hS : ∀ n ∈ S, ∃ pid ∈ P, ∃ c, k.children pid = some c ∧ c.conn = n) : S.card ≤ P.card := by
  choose! pid hmem child hchild hconn using hS
  refine Finset.card_le_card_of_injOn pid hmem ?_
  intro n hn m hm heq
  have hn' := hchild n hn
  have hm' := hchild m hm
  rw [heq, hm', Option.some.injEq] at hn'
  rw [← hconn n hn, ← hconn m hm, hn']

/-- **Ten connections at most are open**, in all processes together, at any time. -/
theorem server_open_le {connfd childpid errno : Int}
    (hrun : Reactive.Run (Server.step sockfd) (fun _ _ _ => True) (Server.start sockfd connfd childpid errno) tr s)
    (S : Finset Nat) (hS : ∀ n ∈ S, s.kernel.Open n) : S.card ≤ 10 := by
  have h := sound_of_run hrun
  obtain ⟨ptr, hcounts⟩ := h.counts
  have hcases := fun n hn => h.serving.open_cases (hS n hn)
  have hchildren : ∀ pid c, s.kernel.children pid = some c → pid ∈ s.parent.children :=
    fun pid c hc => (Finset.mem_sdiff.1 (h.kids pid c hc)).1
  -- all but the newest connection belong to processes
  have hothers : ∀ n ∈ S.erase (s.kernel.accepted - 1), ∃ pid c, s.kernel.children pid = some c ∧ c.conn = n := by
    intro n hn
    obtain ⟨hne, hmem⟩ := Finset.mem_erase.1 hn
    rcases hcases n hmem with ⟨fd, -, rfl⟩ | hchild
    · exact absurd rfl hne
    · exact hchild
  have herase : S.card ≤ (S.erase (s.kernel.accepted - 1)).card + 1 := by
    have := Finset.pred_card_le_card_erase (s := S) (a := s.kernel.accepted - 1)
    omega
  cases hph : phase s.parent with
  | quit | idle =>
    refine (card_le_of_children (k := s.kernel) (P := s.parent.children) fun n hn => ?_).trans hcounts.unreaped_le
    rcases hcases n hn with ⟨fd, hfd, -⟩ | ⟨pid, c, hc, hconn⟩
    · simp [hph, Phase.holds] at hfd
    · exact ⟨pid, hchildren pid c hc, c, hc, hconn⟩
  | accepted fd =>
    have hle := card_le_of_children (k := s.kernel) (S := S.erase (s.kernel.accepted - 1))
      (P := s.parent.children) fun n hn => by
        obtain ⟨pid, c, hc, hconn⟩ := hothers n hn
        exact ⟨pid, hchildren pid c hc, c, hc, hconn⟩
    have hnine := hcounts.children_le_nine hph
    omega
  | forked fd =>
    obtain ⟨hnine, hlast⟩ := h.newest fd hph
    have hle := card_le_of_children (k := s.kernel) (S := S.erase (s.kernel.accepted - 1))
      (P := s.parent.children.erase s.parent.childpid.toNat) fun n hn => by
        obtain ⟨pid, c, hc, hconn⟩ := hothers n hn
        refine ⟨pid, Finset.mem_erase.2 ⟨?_, hchildren pid c hc⟩, c, hc, hconn⟩
        rintro rfl
        exact (Finset.mem_erase.1 hn).1 (hconn ▸ hlast c hc)
    omega

theorem server_open_le_one : ∃ s tr, Reactive.Run (Server.step 3) (fun _ _ _ => True) (Server.start 3 0 0 0) tr s ∧
    s.kernel.Open 0 ∧ ({0} : Finset Nat).card ≤ 10 := by
  obtain ⟨s, tr, hrun, -, -, -, hopen⟩ := run_oneClient
  exact ⟨s, tr, hrun, hopen, server_open_le hrun {0} (by simpa using hopen)⟩

end CHell.Http
