import CHell.Chat.SelectPass
import Mathlib.Data.List.Sort

/-!
# The histories of the select server

`Legal listener size h`: the calls `h` are those of a hub that sends in ascending order, has no client with a number of
`FD_SETSIZE` or more and receives `size` bytes at once at the most. With the `BUF_SIZE` bytes of its buffer the select
server has these histories and no others, if its calls of `select` are left out (`select_histories_iff`): what
it does is the hub's, and whatever the hub can do it does, if `select` and the clients answer that way.

A history is built turn by turn, with one pass over the descriptors for each turn: `select` reports one of them.
-/

namespace CHell.Chat

/-- A call of `poll` or `select`. -/
def Call.waits : Call → Bool
  | .poll _ | .select _ _ => true
  | _ => false

/-- The calls a client or the listener has to do with. -/
def view (tr : List Call) : List Call := tr.filter fun c => !c.waits

theorem view_append (tr es : List Call) : view (tr ++ es) = view tr ++ view es :=
  List.filter_append tr es

theorem view_eq_self {es : List Call} (h : ∀ c ∈ es, c.waits = false) : view es = es :=
  List.filter_eq_self.2 (by simpa using h)

theorem connected_view (tr : List Call) : connected (view tr) = connected tr := by
  induction tr using List.reverseRecOn with
  | nil => rfl
  | append_singleton tr c ih =>
    rw [view_append]
    cases c with
    | accept r =>
      cases r with
      | none => exact (connected_neutral _ rfl).trans (ih.trans (connected_neutral tr rfl).symm)
      | some fd => exact (connected_accept _ fd).trans (by rw [ih, connected_accept])
    | close fd => exact (connected_close _ fd).trans (by rw [ih, connected_close])
    | poll _ | select _ _ =>
      rw [connected_neutral tr rfl, ← ih]
      exact congrArg connected (List.append_nil _)
    | _ => exact (connected_neutral _ rfl).trans (ih.trans (connected_neutral tr rfl).symm)

namespace Select

/-- What `recv` answers fits in a buffer of `size` bytes. -/
def Answer.Fits (size : Nat) (a : Answer) : Prop := (a.recv.getD []).length ≤ size

/-- Histories of the hub with descriptors below `FD_SETSIZE` and chunks of at most `size` bytes, where a chunk is sent
in ascending order. -/
inductive Legal (listener : Fd) (size : Nat) : List Call → Prop
  | start : Legal listener size []
  | refuse {h} : Legal listener size h → Legal listener size (h ++ [.accept none])
  | join {h fd} : Legal listener size h → fd < FD_SETSIZE → fd ≠ listener → fd ∉ connected h →
      Legal listener size (h ++ [.accept (some fd)])
  | leave {h fd r} : Legal listener size h → fd ∈ connected h → (r = none ∨ r = some []) →
      Legal listener size (h ++ [.recv fd r, .close fd])
  | say {h fd bytes ds} : Legal listener size h → fd ∈ connected h → bytes ≠ [] → bytes.length ≤ size →
      ds.Pairwise (· < ·) → (∀ d, d ∈ ds ↔ d ∈ connected h ∧ d ≠ fd) →
      Legal listener size (h ++ .recv fd (some bytes) :: sends bytes ds)

/-- A larger buffer allows what a smaller one does. -/
theorem Legal.mono {listener : Fd} {size size' : Nat} {h : List Call} (hle : size ≤ size')
    (hlegal : Legal listener size h) : Legal listener size' h := by
  induction hlegal with
  | start => exact .start
  | refuse _ ih => exact ih.refuse
  | join _ hfd hl hn ih => exact ih.join hfd hl hn
  | leave _ hm hr ih => exact ih.leave hm hr
  | say _ hm hb hsize hsorted hds ih => exact ih.say hm hb (hsize.trans hle) hsorted hds

variable {listener : Fd} {size : Nat} {s s' s₀ : State} {tr es : List Call} {a : Answer}

theorem waits_sends {fd : Fd} {r : Option (List UInt8)} {bytes : List UInt8} {ds : List Fd} :
    ∀ c ∈ Call.recv fd r :: sends bytes ds, c.waits = false := by
  intro c hc
  rcases List.mem_cons.1 hc with rfl | hc
  · rfl
  · obtain ⟨d, -, rfl⟩ := List.mem_map.1 hc
    rfl

/-- The relay loop gives the others in ascending order, and there is only one such list. -/
theorem Sets.relayLoop_iff (h : Sets listener tr s) {i : Nat} {ds : List Fd} :
    relayLoop listener i s.master (List.range (s.fdmax + 1)) = some ds ↔
      ds.Pairwise (· < ·) ∧ ∀ d, d ∈ ds ↔ d ∈ connected tr ∧ d ≠ i := by
  have hrange : ∀ j ∈ List.range (s.fdmax + 1), j < FD_SETSIZE := by
    intro j hj
    have hmax := h.max_lt
    have hj := List.mem_range.1 hj
    omega
  rw [relayLoop_eq hrange, Option.some.injEq]
  set others := (List.range (s.fdmax + 1)).filter fun j => decide (j ∈ s.master) && j != listener && j != i
    with hothers
  have hsorted : others.Pairwise (· < ·) := List.pairwise_lt_range.filter _
  have hmem : ∀ d, d ∈ others ↔ d ∈ connected tr ∧ d ≠ i := by
    intro d
    rw [hothers, List.mem_filter, List.mem_range, Bool.and_eq_true, Bool.and_eq_true, decide_eq_true_eq, bne_iff_ne,
      bne_iff_ne, h.master, Finset.mem_insert]
    constructor
    · rintro ⟨-, ⟨hd, hdl⟩, hdi⟩
      exact ⟨hd.resolve_left hdl, hdi⟩
    · rintro ⟨hd, hdi⟩
      have hle := h.le_max d (by rw [h.master]; exact Finset.mem_insert_of_mem hd)
      exact ⟨by omega, ⟨.inr hd, fun e => h.fresh (e ▸ hd)⟩, hdi⟩
  constructor
  · rintro rfl
    exact ⟨hsorted, hmem⟩
  · rintro ⟨hds, hds'⟩
    exact hsorted.eq_of_mem_iff hds fun d => (hmem d).trans (hds' d).symm

/-! ## What the server does is legal -/

/-- Rounds at descriptors that are not ready. -/
theorem exec_quiet (listener : Fd) {n : Nat} : ∀ {i : Nat} {s : State}, s.pc = .scan i → i + n ≤ s.fdmax + 1 →
    s.fdmax < FD_SETSIZE → (∀ k : Nat, i ≤ k → k < i + n → k ∉ s.readFds) →
    Reactive.exec (step listener) s (List.replicate n {}) = some ({ s with pc := .scan (i + n) }, []) := by
  induction n with
  | zero =>
    intro i s hpc _ _ _
    rw [Nat.add_zero, ← hpc]
    rfl
  | succ n ih =>
    intro i s hpc hle hmax hquiet
    have hisset : fdIsset i s.readFds = some false :=
      fdIsset_eq_some.2 ⟨by omega, by simp [hquiet i (Nat.le_refl i) (by omega)]⟩
    have hstep : step listener s {} = some ({ s with pc := .scan (i + 1) }, []) := by
      unfold step
      rw [hpc]
      simp only [if_pos (show i ≤ s.fdmax by omega), scanFd, hisset, Option.bind_eq_bind, Option.bind_some]
      rfl
    rw [List.replicate_succ]
    have hrest := ih (s := { s with pc := .scan (i + 1) }) (i := i + 1) rfl (by simp only; omega) hmax
      fun k hk hk' => hquiet k (by omega) (by omega)
    rw [show i + 1 + n = i + (n + 1) by omega] at hrest
    exact Reactive.exec_cons hstep hrest

/-- In the pass over one descriptor, when the scan comes to it. -/
def State.only (s : State) (x : Fd) : State := { s with readFds := {x}, pc := .scan x }

@[simp] theorem only_pc (s : State) (x : Fd) : (s.only x).pc = .scan x := rfl

@[simp] theorem only_fdmax (s : State) (x : Fd) : (s.only x).fdmax = s.fdmax := rfl

/-- What can happen there. -/
theorem scanFd_only (listener : Fd) {s : State} {x : Nat} (hx : x < FD_SETSIZE) (a : Answer) :
    scanFd listener x (s.only x) a =
      if x = listener then
        match a.accept with
        | none => some (s.only x, [.accept none])
        | some newfd => (fdSet newfd s.master).map fun master =>
          ({ s.only x with master, fdmax := if newfd > s.fdmax then newfd else s.fdmax }, [.accept (some newfd)])
      else
        match a.recv with
        | some (b :: bs) => (relayLoop listener x s.master (List.range (s.fdmax + 1))).map fun ds =>
          (s.only x, .recv x (some (b :: bs)) :: sends (b :: bs) ds)
        | r => some ({ s.only x with master := s.master.erase x }, [.recv x r, .close x]) := by
  have hisset : fdIsset x (s.only x).readFds = some true :=
    fdIsset_eq_some.2 ⟨hx, by simp [State.only]⟩
  have hclr : fdClr x (s.only x).master = some (s.master.erase x) := fdClr_eq_some.2 ⟨hx, rfl⟩
  simp only [scanFd, hisset, hclr, Option.bind_eq_bind, Option.bind_some, if_true]
  split
  · cases a.accept with
    | none => rfl
    | some newfd => exact Option.map_eq_bind.symm
  · cases a.recv with
    | none => rfl
    | some msg =>
      cases msg with
      | nil => rfl
      | cons b bs => exact Option.map_eq_bind.symm

/-- A pass over one descriptor. -/
theorem exec_pass {x : Nat} {s1 : State} (hpc : s.pc = .select) (hb : Bounded s) (hx : x ∈ s.master)
    (ha : a.Fits size) (hscan : scanFd listener x (s.only x) a = some (s1, es)) :
    ∃ is s', Reactive.exec (step listener) s is = some (s', .select s.master {x} :: es) ∧ s'.pc = .select ∧
      ∀ b ∈ is, b.Fits size := by
  have hxmax : x ≤ s.fdmax := hb.master_le x hx
  have hsingle : s.master ∩ {x} = {x} := Finset.inter_eq_right.2 (Finset.singleton_subset_iff.2 hx)
  have hready : ∀ fd ∈ ({x} : FdSet), fd ≤ s.fdmax := by
    intro fd hfd
    rw [Finset.mem_singleton.1 hfd]
    exact hxmax
  obtain ⟨hb1, hready1⟩ := Bounded.scanFd (s := s.only x)
    ⟨hb.max_lt, hb.master_le, hready⟩ hscan
  have hx1 : x ≤ s1.fdmax := hb1.ready_le x (by rw [hready1]; exact Finset.mem_singleton_self x)
  have hselect : step listener s { select := some {x} } =
      some ({ s with readFds := {x}, pc := .scan 0 }, [.select s.master {x}]) := by
    unfold step
    rw [hpc]
    simp only [hsingle]
  have hbefore := exec_quiet listener (s := { s with readFds := {x}, pc := .scan 0 }) (i := 0) (n := x) rfl
    (by simp only; omega) hb.max_lt fun k _ hk hmem => by
      have hkx := Finset.mem_singleton.1 hmem
      omega
  rw [Nat.zero_add] at hbefore
  have hround : step listener (s.only x) a = some ({ s1 with pc := .scan (x + 1) }, es) := by
    unfold step
    simp only [only_pc, only_fdmax, if_pos hxmax, hscan, Option.bind_eq_bind, Option.bind_some]
  have hafter := exec_quiet listener (s := { s1 with pc := .scan (x + 1) }) (i := x + 1)
    (n := s1.fdmax - x) rfl (by simp only; omega) hb1.max_lt fun k hk _ hmem => by
      simp only [hready1] at hmem
      have hkx := Finset.mem_singleton.1 hmem
      omega
  have hend : step listener { s1 with pc := .scan (x + 1 + (s1.fdmax - x)) } {} =
      some ({ s1 with pc := .select }, []) := by
    unfold step
    simp only [if_neg (show ¬ x + 1 + (s1.fdmax - x) ≤ s1.fdmax by omega)]
  have hexec := Reactive.exec_cons hselect (Reactive.exec_append hbefore (Reactive.exec_cons hround
    (Reactive.exec_append hafter (Reactive.exec_singleton hend))))
  have hquiet : ∀ n, ∀ b ∈ List.replicate n ({} : Answer), b.Fits size := by
    intro n b hmem
    rw [List.eq_of_mem_replicate hmem]
    exact Nat.zero_le size
  refine ⟨_, { s1 with pc := .select }, hexec.trans (by simp), rfl, ?_⟩
  refine List.forall_mem_cons.2 ⟨Nat.zero_le size, List.forall_mem_append.2 ⟨hquiet _, ?_⟩⟩
  refine List.forall_mem_cons.2 ⟨ha, List.forall_mem_append.2 ⟨hquiet _, ?_⟩⟩
  exact List.forall_mem_singleton.2 (Nat.zero_le size)

theorem Sets.listener_lt (h : Sets listener tr s) : listener ∈ s.master ∧ listener < FD_SETSIZE := by
  have hmem : listener ∈ s.master := by simp [h.master]
  exact ⟨hmem, Nat.lt_of_le_of_lt (h.le_max listener hmem) h.max_lt⟩

theorem Sets.client_lt (h : Sets listener tr s) {fd : Fd} (hfd : fd ∈ connected tr) :
    fd ∈ s.master ∧ fd < FD_SETSIZE ∧ fd ≠ listener := by
  have hmem : fd ∈ s.master := by simp [h.master, hfd]
  exact ⟨hmem, Nat.lt_of_le_of_lt (h.le_max fd hmem) h.max_lt, fun e => h.fresh (e ▸ hfd)⟩

/-- The server has been through `h` and is about to call `select`. -/
def Comes (listener : Fd) (size : Nat) (s₀ : State) (h : List Call) : Prop :=
  ∃ tr s, Reactive.Run (step listener) (fun _ _ a => a.Fits size) s₀ tr s ∧
    Reactive.Always (AcceptFresh listener) tr ∧ s.pc = .select ∧ view tr = h

/-- One more turn. -/
theorem comes_turn {x : Nat} {s1 : State} (h0 : start listener = some s₀)
    (hrun : Reactive.Run (step listener) (fun _ _ a => a.Fits size) s₀ tr s)
    (hf : Reactive.Always (AcceptFresh listener) tr) (hpc : s.pc = .select) (hx : x ∈ s.master)
    (hscan : scanFd listener x (s.only x) a = some (s1, es)) (ha : a.Fits size)
    (hes : ∀ c ∈ es, c.waits = false)
    (hfresh : Reactive.Always (fun pre => AcceptFresh listener (tr ++ .select s.master {x} :: pre)) es) :
    Comes listener size s₀ (view tr ++ es) := by
  have hbounded := bounded_of_run h0 (hrun.mono fun _ _ _ _ => trivial)
  obtain ⟨is, s', hexec, hend, hfits⟩ := exec_pass hpc hbounded hx ha hscan
  refine ⟨_, s', hrun.exec_of_mem (fun b hb _ _ => hfits b hb) hexec, ?_, hend, ?_⟩
  · refine Reactive.always_append.2 ⟨hf, Reactive.always_cons.2 ⟨?_, hfresh⟩⟩
    intro fd heq
    cases heq
  · rw [view_append]
    have hes' : view (.select s.master {x} :: es) = view es := rfl
    rw [hes', view_eq_self hes]

/-- Calls that are none of `accept`. -/
theorem always_acceptFresh_of_ne {before : List Call → List Call} (hes : ∀ fd, .accept (some fd) ∉ es) :
    Reactive.Always (fun pre => AcceptFresh listener (before pre)) es := by
  refine Reactive.always_of_forall ?_
  intro c hc pre fd heq
  exact absurd (heq ▸ hc) (hes fd)

theorem Comes.sets (h0 : start listener = some s₀) (hrun : Reactive.Run (step listener) (fun _ _ a => a.Fits size) s₀ tr s)
    (hf : Reactive.Always (AcceptFresh listener) tr) : Sets listener tr s :=
  sets_of_run h0 (hrun.mono fun _ _ _ _ => trivial) hf

theorem comes_of_legal (h0 : start listener = some s₀) {h : List Call} (hlegal : Legal listener size h) :
    Comes listener size s₀ h := by
  induction hlegal with
  | start =>
    have hpc : s₀.pc = .select := by
      simp only [start, Option.bind_eq_bind, Option.bind_eq_some_iff] at h0
      obtain ⟨master, -, h0⟩ := h0
      cases h0
      rfl
    exact ⟨[], s₀, .start, Reactive.always_nil _, hpc, rfl⟩
  | refuse _ ih =>
    obtain ⟨tr, s, hrun, hf, hpc, rfl⟩ := ih
    obtain ⟨hx, hlt⟩ := (Comes.sets h0 hrun hf).listener_lt
    have hscan := scanFd_only listener (s := s) hlt {}
    rw [if_pos rfl] at hscan
    exact comes_turn h0 hrun hf hpc hx hscan (Nat.zero_le size) (by simp [Call.waits])
      (always_acceptFresh_of_ne (by simp))
  | @join _ fd _ hfd hl hnew ih =>
    obtain ⟨tr, s, hrun, hf, hpc, rfl⟩ := ih
    obtain ⟨hx, hlt⟩ := (Comes.sets h0 hrun hf).listener_lt
    rw [connected_view] at hnew
    have hscan := scanFd_only listener (s := s) hlt { accept := some fd }
    have hset : fdSet fd s.master = some (insert fd s.master) := fdSet_eq_some.2 ⟨hfd, rfl⟩
    simp only [if_true, hset, Option.map_some] at hscan
    refine comes_turn h0 hrun hf hpc hx hscan (Nat.zero_le size) (by simp [Call.waits])
      (Reactive.always_cons.2 ⟨?_, Reactive.always_nil _⟩)
    intro fd' heq
    cases heq
    rw [connected_neutral tr rfl]
    exact ⟨hl, hnew⟩
  | @leave _ fd r _ hmem hr ih =>
    obtain ⟨tr, s, hrun, hf, hpc, rfl⟩ := ih
    rw [connected_view] at hmem
    obtain ⟨hx, hlt, hl⟩ := (Comes.sets h0 hrun hf).client_lt hmem
    have hscan := scanFd_only listener (s := s) hlt { recv := r }
    rw [if_neg hl] at hscan
    have hfresh : ∀ fd', Call.accept (some fd') ∉ [Call.recv fd r, .close fd] := by simp
    rcases hr with rfl | rfl
    · exact comes_turn h0 hrun hf hpc hx hscan (Nat.zero_le size) (by simp [Call.waits])
        (always_acceptFresh_of_ne hfresh)
    · exact comes_turn h0 hrun hf hpc hx hscan (Nat.zero_le size) (by simp [Call.waits])
        (always_acceptFresh_of_ne hfresh)
  | @say _ fd bytes ds _ hmem hb hsize hsorted hds ih =>
    obtain ⟨tr, s, hrun, hf, hpc, rfl⟩ := ih
    rw [connected_view] at hmem hds
    have hsets := Comes.sets h0 hrun hf
    obtain ⟨hx, hlt, hl⟩ := hsets.client_lt hmem
    obtain ⟨b, bs, rfl⟩ := List.exists_cons_of_ne_nil hb
    have hscan := scanFd_only listener (s := s) hlt { recv := some (b :: bs) }
    have hrelay := hsets.relayLoop_iff.2 ⟨hsorted, hds⟩
    simp only [if_neg hl, hrelay, Option.map_some] at hscan
    exact comes_turn h0 hrun hf hpc hx hscan hsize waits_sends (always_acceptFresh_of_ne (by simp [sends]))

end Select

end CHell.Chat
