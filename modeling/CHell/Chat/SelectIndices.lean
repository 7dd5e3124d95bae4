import CHell.Chat.SelectPass

/-!
# The indices of `FD_SET`, `FD_CLR` and `FD_ISSET`

`fdCalls` are the macros a step of the select server executes, with their indices: a step of the model is defined
exactly if they are all below `FD_SETSIZE` (`step_isSome_iff`).

The indices are descriptors up to `fdmax`, which stay in range by themselves, and what `accept` returned, which goes
to `FD_SET` as it is: `multi-chat-v1.c` makes its table larger for another client, this server does not ask whether
its sets have room for one.
-/

namespace CHell.Chat.Select

/-- A macro, with its index. -/
inductive FdCall
  | set (i : Nat)
  | clr (i : Nat)
  | isset (i : Nat)
deriving DecidableEq

@[simp] def FdCall.index : FdCall → Nat
  | .set i | .clr i | .isset i => i

section Code

variable (listener : Fd)

/-- Before the loop (:110). -/
def startCalls : List FdCall := [.set listener]

/-- In the body of the scan loop, at index `i` (:122-160). -/
def scanCalls (i : Nat) (s : State) (a : Answer) : List FdCall :=
  .isset i ::
    if i ∈ s.readFds then
      if i = listener then
        match a.accept with
        | none => []
        | some newfd => [.set newfd]
      else
        match a.recv with
        | some (_ :: _) => (List.range (s.fdmax + 1)).map .isset
        | _ => [.clr i]
    else []

def fdCalls (s : State) (a : Answer) : List FdCall :=
  match s.pc with
  | .scan i => if i ≤ s.fdmax then scanCalls listener i s a else []
  | _ => []

/-- What `accept` returns, in a step that calls it. -/
def accepted (s : State) (a : Answer) : Option Fd :=
  match s.pc with
  | .scan i => if i ≤ s.fdmax ∧ i ∈ s.readFds ∧ i = listener then a.accept else none
  | _ => none

end Code

def InRange (calls : List FdCall) : Prop := ∀ c ∈ calls, c.index < FD_SETSIZE

@[simp] theorem inRange_nil : InRange [] := by simp [InRange]

@[simp] theorem inRange_cons {c : FdCall} {calls : List FdCall} :
    InRange (c :: calls) ↔ c.index < FD_SETSIZE ∧ InRange calls := List.forall_mem_cons

variable {listener : Fd} {s s' : State} {a : Answer}

/-! ## The macros of the model -/

theorem lt_of_relayLoop {sender : Fd} {master : FdSet} : ∀ {js : List Nat} {ds : List Fd},
    relayLoop listener sender master js = some ds → ∀ j ∈ js, j < FD_SETSIZE
  | [], _, _ => by simp
  | j :: js, ds, h => by
    simp only [relayLoop, Option.bind_eq_bind, Option.bind_eq_some_iff] at h
    obtain ⟨b, hb, ds', hds, -⟩ := h
    exact List.forall_mem_cons.2 ⟨(fdIsset_eq_some.1 hb).1, lt_of_relayLoop hds⟩

theorem relayLoop_isSome_iff {sender : Fd} {master : FdSet} {js : List Nat} :
    (relayLoop listener sender master js).isSome = true ↔ InRange (js.map .isset) := by
  have hmap : InRange (js.map .isset) ↔ ∀ j ∈ js, j < FD_SETSIZE := by simp [InRange]
  rw [hmap]
  constructor
  · intro h
    obtain ⟨ds, hds⟩ := Option.isSome_iff_exists.1 h
    exact lt_of_relayLoop hds
  · intro h
    rw [relayLoop_eq h, Option.isSome_some]

/-- A round of the scan is defined exactly if its macros are in range. -/
theorem scanFd_isSome_iff {i : Nat} : (scanFd listener i s a).isSome = true ↔ InRange (scanCalls listener i s a) := by
  unfold scanFd scanCalls
  rw [inRange_cons, FdCall.index]
  by_cases hi : i < FD_SETSIZE
  · have hisset : fdIsset i s.readFds = some (decide (i ∈ s.readFds)) := fdIsset_eq_some.2 ⟨hi, rfl⟩
    rw [hisset, Option.bind_eq_bind, Option.bind_some, and_iff_right hi]
    by_cases hready : i ∈ s.readFds
    · rw [if_pos hready, if_pos (decide_eq_true hready)]
      by_cases hl : i = listener
      · rw [if_pos hl, if_pos hl]
        cases a.accept with
        | none => simp
        | some newfd => by_cases hnew : newfd < FD_SETSIZE <;> simp [fdSet, FdCall.index, hnew]
      · rw [if_neg hl, if_neg hl]
        match a.recv with
        | none => simp [fdClr, FdCall.index, hi]
        | some [] => simp [fdClr, FdCall.index, hi]
        | some (b :: bs) =>
          have hrelay : (relayLoop listener i s.master (List.range (s.fdmax + 1))).isSome = true ↔
              InRange ((List.range (s.fdmax + 1)).map .isset) := relayLoop_isSome_iff
          rw [← hrelay]
          cases relayLoop listener i s.master (List.range (s.fdmax + 1)) <;> simp
    · simp [hready]
  · have hisset : fdIsset i s.readFds = none := by simp [fdIsset, hi]
    simp [hisset, hi]

theorem step_isSome_iff (hpc : s.pc ≠ .exited) :
    (step listener s a).isSome = true ↔ InRange (fdCalls listener s a) := by
  unfold step fdCalls
  cases hs : s.pc with
  | select => cases a.select <;> simp
  | scan i =>
    by_cases hle : i ≤ s.fdmax
    · simp only [if_pos hle]
      rw [← scanFd_isSome_iff]
      cases scanFd listener i s a <;> simp
    · simp [if_neg hle]
  | exited => exact absurd hs hpc

/-! ## Which runs stay in range -/

/-- A round of the scan in a bounded state: only what `accept` returns can be out of range. -/
theorem Bounded.scanCalls_iff (h : Bounded s) {i : Nat} (hle : i ≤ s.fdmax) :
    InRange (scanCalls listener i s a) ↔
      (i ∈ s.readFds ∧ i = listener → ∀ fd : Nat, a.accept = some fd → fd < FD_SETSIZE) := by
  have hi : i < FD_SETSIZE := Nat.lt_of_le_of_lt hle h.max_lt
  rw [scanCalls, inRange_cons, FdCall.index, and_iff_right hi]
  by_cases hready : i ∈ s.readFds
  · by_cases hl : i = listener
    · rw [if_pos hready, if_pos hl, forall_prop_of_true ⟨hready, hl⟩]
      cases a.accept <;> simp
    · rw [if_pos hready, if_neg hl]
      refine iff_of_true ?_ fun hc => absurd hc.2 hl
      split
      · intro c hc
        obtain ⟨j, hj, rfl⟩ := List.mem_map.1 hc
        have hj := List.mem_range.1 hj
        have hmax := h.max_lt
        rw [FdCall.index]
        omega
      · simp [hi]
  · simp [hready]

theorem Bounded.inRange_iff (h : Bounded s) :
    InRange (fdCalls listener s a) ↔ ∀ fd : Nat, accepted listener s a = some fd → fd < FD_SETSIZE := by
  unfold fdCalls accepted
  cases s.pc with
  | select => simp
  | exited => simp
  | scan i =>
    by_cases hle : i ≤ s.fdmax
    · simp only [hle, true_and]
      rw [if_pos trivial, h.scanCalls_iff hle]
      by_cases hc : i ∈ s.readFds ∧ i = listener
      · rw [if_pos hc, forall_prop_of_true hc]
      · rw [if_neg hc]
        simp [hc]
    · simp [hle]

/-- Every macro the server executes, given these answers, has an index of the set. -/
def IndicesInRange (listener : Fd) (is : List Answer) : Prop :=
  InRange (startCalls listener) ∧ ∀ s₀, start listener = some s₀ →
    Reactive.Each (step listener) (fun s a => InRange (fdCalls listener s a)) s₀ is

/-- **Which runs stay inside the sets**: those in which the listener and every descriptor `accept` returns are below
`FD_SETSIZE`. -/
theorem select_indices_iff (listener : Fd) (is : List Answer) :
    IndicesInRange listener is ↔ listener < FD_SETSIZE ∧ ∀ s₀, start listener = some s₀ →
      Reactive.Each (step listener) (fun s a => ∀ fd : Nat, accepted listener s a = some fd → fd < FD_SETSIZE)
        s₀ is := by
  refine and_congr (by simp [startCalls]) (forall₂_congr fun s₀ h0 => ?_)
  refine Reactive.each_iff Bounded ?_ ?_ (bounded_start h0)
  · exact fun s i s' es hb hs => hb.step hs
  · exact fun s i hb => hb.inRange_iff

/-- What `accept` returns is not open. -/
def FreshAccepts (listener : Fd) (is : List Answer) : Prop :=
  ∀ s₀, start listener = some s₀ →
    Reactive.Each (step listener) (fun s a => ∀ fd, accepted listener s a = some fd → fd ∉ s.master) s₀ is

/-- `accept` returns 1024. -/
def client1024 : List Answer := [{ select := some {3} }, {}, {}, {}, { accept := some 1024 }]

/-- **There is no bit 1024 in the set.** -/
theorem select_indices_1024 :
    ¬ ∀ (listener : Fd) (is : List Answer), listener < FD_SETSIZE → FreshAccepts listener is →
      IndicesInRange listener is := by
  intro hclaim
  -- three rounds of the scan, up to the listener
  have hscan : ∀ C : State → Answer → Prop, Reactive.Each (step 3) C ⟨{3}, ∅, 3, .select⟩ client1024 ↔
      C ⟨{3}, ∅, 3, .select⟩ { select := some {3} } ∧ C ⟨{3}, {3}, 3, .scan 0⟩ {} ∧ C ⟨{3}, {3}, 3, .scan 1⟩ {} ∧
        C ⟨{3}, {3}, 3, .scan 2⟩ {} ∧ C ⟨{3}, {3}, 3, .scan 3⟩ { accept := some 1024 } := by
    intro C
    have hselect : step 3 ⟨{3}, ∅, 3, .select⟩ { select := some {3} } =
        some (⟨{3}, {3}, 3, .scan 0⟩, [.select {3} {3}]) := rfl
    have h0 : step 3 ⟨{3}, {3}, 3, .scan 0⟩ {} = some (⟨{3}, {3}, 3, .scan 1⟩, []) := rfl
    have h1 : step 3 ⟨{3}, {3}, 3, .scan 1⟩ {} = some (⟨{3}, {3}, 3, .scan 2⟩, []) := rfl
    have h2 : step 3 ⟨{3}, {3}, 3, .scan 2⟩ {} = some (⟨{3}, {3}, 3, .scan 3⟩, []) := rfl
    rw [client1024, Reactive.each_cons hselect, Reactive.each_cons h0, Reactive.each_cons h1, Reactive.each_cons h2,
      Reactive.each_singleton]
  have hfresh : FreshAccepts 3 client1024 := by
    intro s₀ h0
    cases h0
    refine (hscan _).2 ?_
    simp [accepted]
  have hrange := (hscan _).1 ((hclaim 3 client1024 (by decide) hfresh).2 _ rfl)
  have hbit := hrange.2.2.2.2 (.set 1024) (by decide)
  exact absurd hbit (by decide)

end CHell.Chat.Select
