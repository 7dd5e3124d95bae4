import CHell.Chat.SelectIndices
import Mathlib.Data.Finset.Card

/-!
# How many clients the select server can have

`accept` returns the lowest number that is not open (`LowestFree`), and the descriptors that are open besides the
server's are all below `FD_SETSIZE`. Then the numbers in use have no gaps, and whether the next one is below
`FD_SETSIZE` is a question of how many there are.
-/

namespace CHell.Chat.Select

variable {listener : Fd} {s s' : State} {a : Answer}

/-- `accept` returns the lowest number that is not open, where `others` are open besides the server's. -/
def LowestFree (others : Finset Fd) (opened : Finset Fd) (fd : Nat) : Prop :=
  fd ∉ opened ∪ others ∧ ∀ k < fd, k ∈ opened ∪ others

/-- The lowest free number is in range as long as the open ones are fewer than `n`. -/
theorem LowestFree.lt_iff {others opened : Finset Fd} {fd : Nat} (h : LowestFree others opened fd)
    (hdisj : Disjoint opened others) {n : Nat} (hlt : ∀ k : Nat, k ∈ opened ∪ others → k < n) :
    fd < n ↔ opened.card + others.card < n := by
  rw [← Finset.card_union_of_disjoint hdisj]
  constructor
  · intro hfd
    have hsub : opened ∪ others ⊆ (Finset.range n).erase fd := by
      intro k hk
      exact Finset.mem_erase.2 ⟨fun e => h.1 (e ▸ hk), Finset.mem_range.2 (hlt k hk)⟩
    have hle := Finset.card_le_card hsub
    rw [Finset.card_erase_of_mem (Finset.mem_range.2 hfd), Finset.card_range] at hle
    omega
  · intro hcard
    by_contra hge
    have hsub : Finset.range n ⊆ opened ∪ others := by
      intro k hk
      have hk := Finset.mem_range.1 hk
      exact h.2 k (by omega)
    have hle := Finset.card_le_card hsub
    rw [Finset.card_range] at hle
    omega

/-- The server's descriptors are not the others. -/
structure Roomy (others : Finset Fd) (s : State) : Prop where
  bounded : Bounded s
  disjoint : Disjoint s.master others

theorem Roomy.step {others : Finset Fd} (h : Roomy others s) {es : List Call}
    (hlow : ∀ fd, accepted listener s a = some fd → LowestFree others s.master fd)
    (hs : Select.step listener s a = some (s', es)) : Roomy others s' := by
  refine ⟨h.bounded.step hs, ?_⟩
  rcases step_cases hs with ⟨-, -, rfl, -⟩ | ⟨-, ready, -, rfl, -⟩ | ⟨i, hpc, hle, s1, hscan, rfl⟩ | ⟨i, -, -, rfl, -⟩
  · exact h.disjoint
  · exact h.disjoint
  · rcases scanFd_cases hscan with ⟨-, rfl, -⟩ | ⟨-, -, -, rfl, -⟩ | ⟨hi, hl, newfd, hacc, -, rfl, -⟩ |
      ⟨-, -, bytes, ds, -, -, -, rfl, -⟩ | ⟨-, -, -, rfl, -⟩
    · exact h.disjoint
    · exact h.disjoint
    · have hnew : accepted listener s a = some newfd := by
        subst hl
        simp only [accepted, hpc]
        rw [if_pos ⟨hle, hi, trivial⟩, hacc]
      have hnot := (hlow newfd hnew).1
      rw [Finset.mem_union, not_or] at hnot
      exact Finset.disjoint_insert_left.2 ⟨hnot.2, h.disjoint⟩
    · exact h.disjoint
    · exact h.disjoint.mono_left (Finset.erase_subset _ _)
  · exact h.disjoint

/-- **How many clients the server can have.** If `accept` returns the lowest free number and the other open
descriptors are below `FD_SETSIZE`, the macros stay in range if and only if, whenever it returns one, the listener,
the clients and the other open descriptors are fewer than `FD_SETSIZE`: with the three standard ones that is for the
first 1020 clients. -/
theorem select_capacity_iff (listener : Fd) (others : Finset Fd) (is : List Answer) (hl : listener ∉ others)
    (hothers : ∀ fd : Nat, fd ∈ others → fd < FD_SETSIZE)
    (hlow : ∀ s₀, start listener = some s₀ → Reactive.Each (step listener)
      (fun s a => ∀ fd, accepted listener s a = some fd → LowestFree others s.master fd) s₀ is) :
    IndicesInRange listener is ↔ listener < FD_SETSIZE ∧ ∀ s₀, start listener = some s₀ →
      Reactive.Each (step listener)
        (fun s a => (accepted listener s a).isSome → s.master.card + others.card < FD_SETSIZE) s₀ is := by
  refine and_congr (by simp [startCalls]) (forall₂_congr fun s₀ h0 => ?_)
  have hroomy : Roomy others s₀ := by
    refine ⟨bounded_start h0, ?_⟩
    simp only [start, Option.bind_eq_bind, Option.bind_eq_some_iff] at h0
    obtain ⟨master, hset, h0⟩ := h0
    obtain ⟨-, rfl⟩ := fdSet_eq_some.1 hset
    cases h0
    simpa using hl
  refine Reactive.each_iff_of (Roomy others) ?_ ?_ hroomy (hlow s₀ h0)
  · exact fun s a s' es h hlow hs => h.step hlow hs
  · intro s a h hlow
    rw [h.bounded.inRange_iff]
    cases hacc : accepted listener s a with
    | none => simp
    | some fd =>
      have hlt : ∀ k : Nat, k ∈ s.master ∪ others → k < FD_SETSIZE := by
        intro k hk
        rcases Finset.mem_union.1 hk with hk | hk
        · exact Nat.lt_of_le_of_lt (h.bounded.master_le k hk) h.bounded.max_lt
        · exact hothers k hk
      have hiff := (hlow fd hacc).lt_iff h.disjoint hlt
      simpa using hiff

/-- Client 4 comes, where 0, 1 and 2 are open besides. -/
def client4 : List Answer := [{ select := some {3} }, {}, {}, {}, { accept := some 4 }]

theorem select_capacity_iff_client4 : IndicesInRange 3 client4 := by
  -- three rounds of the scan, up to the listener
  have hscan : ∀ C : State → Answer → Prop, Reactive.Each (step 3) C ⟨{3}, ∅, 3, .select⟩ client4 ↔
      C ⟨{3}, ∅, 3, .select⟩ { select := some {3} } ∧ C ⟨{3}, {3}, 3, .scan 0⟩ {} ∧ C ⟨{3}, {3}, 3, .scan 1⟩ {} ∧
        C ⟨{3}, {3}, 3, .scan 2⟩ {} ∧ C ⟨{3}, {3}, 3, .scan 3⟩ { accept := some 4 } := by
    intro C
    have hselect : step 3 ⟨{3}, ∅, 3, .select⟩ { select := some {3} } =
        some (⟨{3}, {3}, 3, .scan 0⟩, [.select {3} {3}]) := rfl
    have h0 : step 3 ⟨{3}, {3}, 3, .scan 0⟩ {} = some (⟨{3}, {3}, 3, .scan 1⟩, []) := rfl
    have h1 : step 3 ⟨{3}, {3}, 3, .scan 1⟩ {} = some (⟨{3}, {3}, 3, .scan 2⟩, []) := rfl
    have h2 : step 3 ⟨{3}, {3}, 3, .scan 2⟩ {} = some (⟨{3}, {3}, 3, .scan 3⟩, []) := rfl
    rw [client4, Reactive.each_cons hselect, Reactive.each_cons h0, Reactive.each_cons h1, Reactive.each_cons h2,
      Reactive.each_singleton]
  refine (select_capacity_iff 3 {0, 1, 2} client4 (by decide) (by decide) ?_).2 ⟨by decide, ?_⟩
  · intro s₀ h0
    cases h0
    refine (hscan _).2 ?_
    simp only [accepted]
    have hfree : LowestFree {0, 1, 2} {3} 4 := ⟨by decide, by decide⟩
    simpa using hfree
  · intro s₀ h0
    cases h0
    refine (hscan _).2 ?_
    simp [accepted, FD_SETSIZE]

end CHell.Chat.Select
