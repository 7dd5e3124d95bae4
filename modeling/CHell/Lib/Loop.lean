import Mathlib.Data.List.Basic
import Mathlib.Data.Finset.Card

/-!
# `while` loops

The body of a loop maps the loop's state either to the next state (`inl`) or to the value the
loop is left with (`inr`: the condition failed, or a `break` or `return` was met).

* `loop body n s` runs at most `n` rounds; `none` says that they did not suffice.
* `Returns body s r`: some number of rounds suffices, and `r` is the value.
* `not_returns_of_invariant`: how to show that a loop is not left.
* `runLoop` is the loop as a total function, for a body that decreases a measure.
* `returns_iff_of_finite`: a loop that goes on from `k` states only needs `k + 1` rounds at most, or
  never ends.
* `logged` is the loop with a log of what its rounds do.
-/

namespace Loop

variable {σ ρ ε : Type*}

/-- At most `n` rounds of the loop. -/
def loop (body : σ → σ ⊕ ρ) : Nat → σ → Option ρ
  | 0, _ => none
  | n + 1, s =>
    match body s with
    | .inl s' => loop body n s'
    | .inr r => some r

/-- The loop is left, with value `r`. -/
def Returns (body : σ → σ ⊕ ρ) (s : σ) (r : ρ) : Prop := ∃ n, loop body n s = some r

variable {body : σ → σ ⊕ ρ} {s s' : σ} {r r' : ρ}

theorem loop_succ_of_some : ∀ {n : Nat} {s : σ}, loop body n s = some r → loop body (n + 1) s = some r
  | 0, _, h => by cases h
  | n + 1, s, h => by
    rw [loop] at h ⊢
    cases hb : body s with
    | inl s' => rw [hb] at h; exact loop_succ_of_some h
    | inr r' => rw [hb] at h; exact h

theorem loop_mono {n m : Nat} (hnm : n ≤ m) (h : loop body n s = some r) : loop body m s = some r := by
  induction hnm with
  | refl => exact h
  | step _ ih => exact loop_succ_of_some ih

theorem loop_eq_none_of_le {n m : Nat} (hnm : n ≤ m) (h : loop body m s = none) : loop body n s = none := by
  by_contra hne
  obtain ⟨r, hr⟩ := Option.ne_none_iff_exists'.1 hne
  rw [loop_mono hnm hr] at h
  cases h

theorem Returns.of_exit (h : body s = .inr r) : Returns body s r := ⟨1, by rw [loop, h]⟩

theorem Returns.of_next (h : body s = .inl s') (hr : Returns body s' r) : Returns body s r := by
  obtain ⟨n, hn⟩ := hr
  exact ⟨n + 1, by rw [loop, h]; exact hn⟩

/-- A loop is left with one value only. -/
theorem Returns.unique (h : Returns body s r) (h' : Returns body s r') : r = r' := by
  obtain ⟨n, hn⟩ := h
  obtain ⟨m, hm⟩ := h'
  have h1 := loop_mono (Nat.le_max_left n m) hn
  have h2 := loop_mono (Nat.le_max_right n m) hm
  exact Option.some.inj (h1.symm.trans h2)

/-- A loop that returns was left in some state. -/
theorem Returns.exists_exit (h : Returns body s r) : ∃ s', body s' = .inr r := by
  obtain ⟨n, hn⟩ := h
  induction n generalizing s with
  | zero => cases hn
  | succ n ih =>
    rw [loop] at hn
    split at hn
    · exact ih hn
    · rename_i hexit
      cases hn
      exact ⟨s, hexit⟩

/-- A loop whose rounds lead from states in `P` to states in `P` is never left. -/
theorem not_returns_of_invariant {P : σ → Prop} (hP : ∀ s, P s → ∃ s', body s = .inl s' ∧ P s') (h : P s) :
    ¬ ∃ r, Returns body s r := by
  rintro ⟨r, n, hn⟩
  induction n generalizing s with
  | zero => cases hn
  | succ n ih =>
    obtain ⟨s', hb, hs'⟩ := hP s h
    rw [loop, hb] at hn
    exact ih hs' hn

/-- **The loop as a function**, for a body that decreases `μ`. -/
def runLoop (body : σ → σ ⊕ ρ) (μ : σ → Nat) (hμ : ∀ s s', body s = .inl s' → μ s' < μ s) (s : σ) : ρ :=
  match _h : body s with
  | .inl s' => runLoop body μ hμ s'
  | .inr r => r
termination_by μ s
decreasing_by exact hμ _ _ _h

theorem runLoop_returns {μ : σ → Nat} {hμ : ∀ s s', body s = .inl s' → μ s' < μ s} (s : σ) :
    Returns body s (runLoop body μ hμ s) := by
  induction hm : μ s using Nat.strongRecOn generalizing s with
  | _ m ih =>
    rw [runLoop]
    split
    · rename_i s' hb
      exact Returns.of_next hb (ih (μ s') (hm ▸ hμ s s' hb) s' rfl)
    · rename_i r hb
      exact Returns.of_exit hb

theorem runLoop_eq_iff {μ : σ → Nat} {hμ : ∀ s s', body s = .inl s' → μ s' < μ s} :
    runLoop body μ hμ s = r ↔ Returns body s r :=
  ⟨fun h => h ▸ runLoop_returns s, fun h => (runLoop_returns s).unique h⟩

/-! ## Loops that go on from finitely many states -/

/-- The state after `k` rounds, unless the loop was left before. -/
def after (body : σ → σ ⊕ ρ) : Nat → σ → Option σ
  | 0, s => some s
  | k + 1, s =>
    match body s with
    | .inl s' => after body k s'
    | .inr _ => none

theorem after_add (k m : Nat) (s : σ) : after body (k + m) s = (after body k s).bind (after body m) := by
  induction k generalizing s with
  | zero => rw [Nat.zero_add, after, Option.bind_some]
  | succ k ih =>
    rw [Nat.add_right_comm, after, after]
    cases body s with
    | inl s' => exact ih s'
    | inr r => rfl

theorem loop_eq_none_iff {n : Nat} : loop body n s = none ↔ ∃ t, after body n s = some t := by
  induction n generalizing s with
  | zero => simp [loop, after]
  | succ n ih =>
    rw [loop, after]
    cases body s with
    | inl s' => exact ih
    | inr r => simp

/-- A state that comes again comes again and again. -/
theorem after_cycle {k : Nat} (h : after body k s = some s) (m : Nat) : after body (m * k) s = some s := by
  induction m with
  | zero => rw [Nat.zero_mul, after]
  | succ m ih => rw [Nat.succ_mul, after_add, ih, Option.bind_some, h]

theorem loop_eq_none_of_cycle {k : Nat} (hk : 0 < k) (h : after body k s = some s) (n : Nat) :
    loop body n s = none := by
  have hle : n ≤ n * k := Nat.le_mul_of_pos_right n hk
  exact loop_eq_none_of_le hle (loop_eq_none_iff.2 ⟨s, after_cycle h n⟩)

/-- The same state after `i` rounds and after `j`. -/
theorem loop_eq_none_of_repeat {i j : Nat} {u : σ} (hij : i < j) (hi : after body i s = some u)
    (hj : after body j s = some u) (n : Nat) : loop body n s = none := by
  obtain ⟨k, rfl⟩ : ∃ k, j = i + (k + 1) := ⟨j - i - 1, by omega⟩
  rw [after_add, hi, Option.bind_some] at hj
  have hmany : loop body (i + n) s = none := by
    rw [loop_eq_none_iff, after_add, hi, Option.bind_some]
    exact loop_eq_none_iff.1 (loop_eq_none_of_cycle (Nat.succ_pos k) hj n)
  exact loop_eq_none_of_le (Nat.le_add_left n i) hmany

/-- **Among more rounds than there are states a state comes twice.** If the loop only goes on from states
in `F`, and `F.card + 1` rounds do not suffice, then it is never left. -/
theorem loop_eq_none_of_finite (F : Finset σ) (hF : ∀ s s', body s = .inl s' → s ∈ F)
    (h : loop body (F.card + 1) s = none) (n : Nat) : loop body n s = none := by
  obtain ⟨t, ht⟩ := loop_eq_none_iff.1 h
  -- the states that are passed on the way
  have hpassed : ∀ k ∈ Finset.range (F.card + 1), ∃ t ∈ F, after body k s = some t := by
    intro k hk
    have hlt := Finset.mem_range.1 hk
    obtain ⟨j, hj⟩ : ∃ j, F.card + 1 = k + (j + 1) := ⟨F.card - k, by omega⟩
    rw [hj, after_add, Option.bind_eq_some_iff] at ht
    obtain ⟨u, hu, hgoes⟩ := ht
    refine ⟨u, ?_, hu⟩
    rw [after] at hgoes
    cases hb : body u with
    | inl u' => exact hF u u' hb
    | inr r => simp [hb] at hgoes
  have hmaps : Set.MapsTo (fun k => (after body k s).getD s) (Finset.range (F.card + 1)) F := by
    intro k hk
    obtain ⟨u, hu, hk⟩ := hpassed k hk
    simpa [hk] using hu
  obtain ⟨i, hi, j, hj, hne, heq⟩ := Finset.exists_ne_map_eq_of_card_lt_of_maps_to (by simp) hmaps
  obtain ⟨u, -, hu⟩ := hpassed i hi
  obtain ⟨v, -, hv⟩ := hpassed j hj
  obtain rfl : u = v := by simpa [hu, hv] using heq
  rcases Nat.lt_or_gt_of_ne hne with hlt | hlt
  · exact loop_eq_none_of_repeat hlt hu hv n
  · exact loop_eq_none_of_repeat hlt hv hu n

/-- So `F.card + 1` rounds tell what the loop returns, and whether it does. -/
theorem returns_iff_of_finite (F : Finset σ) (hF : ∀ s s', body s = .inl s' → s ∈ F) :
    Returns body s r ↔ loop body (F.card + 1) s = some r := by
  constructor
  · rintro ⟨n, hn⟩
    cases hl : loop body (F.card + 1) s with
    | none =>
      rw [loop_eq_none_of_finite F hF hl n] at hn
      cases hn
    | some r' => rw [Returns.unique ⟨n, hn⟩ ⟨_, hl⟩]
  · exact fun h => ⟨_, h⟩

/-! ## Loops with a log -/

/-- The loop that adds to a log what `obs` says of each round. -/
def logged (body : σ → σ ⊕ ρ) (obs : σ → List ε) : σ × List ε → (σ × List ε) ⊕ (ρ × List ε)
  | (s, log) =>
    match body s with
    | .inl s' => .inl (s', log ++ obs s)
    | .inr r => .inr (r, log ++ obs s)

variable {obs : σ → List ε} {log : List ε}

theorem logged_of_next (h : body s = .inl s') : logged body obs (s, log) = .inl (s', log ++ obs s) := by
  rw [logged, h]

theorem logged_of_exit (h : body s = .inr r) : logged body obs (s, log) = .inr (r, log ++ obs s) := by
  rw [logged, h]

/-- The log changes nothing. -/
theorem Returns.of_logged {log' : List ε} (h : Returns (logged body obs) (s, log) (r, log')) : Returns body s r := by
  obtain ⟨n, hn⟩ := h
  induction n generalizing s log with
  | zero => cases hn
  | succ n ih =>
    cases hb : body s with
    | inl s' =>
      rw [loop, logged_of_next hb] at hn
      exact .of_next hb (ih hn)
    | inr r' =>
      rw [loop, logged_of_exit hb] at hn
      cases hn
      exact .of_exit hb

/-- It takes as many rounds as the loop without it. -/
theorem loop_logged_eq_none {n : Nat} : loop (logged body obs) n (s, log) = none ↔ loop body n s = none := by
  induction n generalizing s log with
  | zero => simp [loop]
  | succ n ih =>
    cases hb : body s with
    | inl s' => rw [loop, loop, logged_of_next hb, hb]; exact ih
    | inr r => simp [loop, logged_of_exit hb, hb]

theorem logged_returns_iff_of_finite (F : Finset σ) (hF : ∀ s s', body s = .inl s' → s ∈ F) {x : ρ × List ε} :
    Returns (logged body obs) (s, log) x ↔ loop (logged body obs) (F.card + 1) (s, log) = some x := by
  constructor
  · rintro ⟨n, hn⟩
    cases hl : loop (logged body obs) (F.card + 1) (s, log) with
    | none =>
      have hnone := loop_eq_none_of_finite F hF (loop_logged_eq_none.1 hl) n
      rw [loop_logged_eq_none.2 hnone] at hn
      cases hn
    | some x' => rw [Returns.unique ⟨n, hn⟩ ⟨_, hl⟩]
  · exact fun h => ⟨_, h⟩

end Loop
