import Mathlib.Data.List.Basic

/-!
# Computations that leave a trace

A `Traced ε α` is what a computation did, in order, and what it came to: a value, or `none` if it
went wrong behind its last event.

`Spec P out x c os v` says at once when `x` does only what `P` allows (exactly under the condition
`c`), and what it then outputs and returns. The rules follow the constructs of the language:
`Spec.pure`, `Spec.emit`, `Spec.bind`, and `lift_some_bind` for what leaves no trace.

`Ends P d Q x` is a triple: `x` does only what `P` allows and comes to a value in `Q`, and it goes wrong
only where `d` admits that. With `d` false it is total correctness, with `d` true partial correctness.
`loop` is a `while` loop of such computations; `Ends.loop` is its rule, with an invariant and a variant, and
`loop_eq_of_variant` says that rounds beyond the variant change nothing.
-/

structure Traced (ε α : Type*) where
  events : List ε
  value : Option α

namespace Traced

universe u v w

variable {ε : Type u} {α β : Type v} {ω : Type w}

instance : Monad (Traced ε) where
  pure a := ⟨[], some a⟩
  bind x f :=
    match x.value with
    | none => ⟨x.events, none⟩
    | some a => ⟨x.events ++ (f a).events, (f a).value⟩

/-- Do one thing. -/
def emit (e : ε) : Traced ε PUnit := ⟨[e], some ⟨⟩⟩

/-- Something that leaves no trace, and may go wrong. -/
def lift (o : Option α) : Traced ε α := ⟨[], o⟩

/-- `if (o) f(o);` -/
def ifPresent (o : Option α) (f : α → Traced ε PUnit) : Traced ε PUnit :=
  match o with
  | some a => f a
  | none => pure ⟨⟩

theorem bind_of_some {x : Traced ε α} {f : α → Traced ε β} {a : α} (h : x.value = some a) :
    x >>= f = ⟨x.events ++ (f a).events, (f a).value⟩ := by
  simp only [Bind.bind, h]

theorem bind_of_none {x : Traced ε α} {f : α → Traced ε β} (h : x.value = none) : x >>= f = ⟨x.events, none⟩ := by
  simp only [Bind.bind, h]

@[simp] theorem lift_some_bind (a : α) (f : α → Traced ε β) : lift (some a) >>= f = f a := by
  rw [bind_of_some rfl]
  rfl

@[simp] theorem emit_bind (e : ε) (f : PUnit → Traced ε β) : emit e >>= f = ⟨e :: (f ⟨⟩).events, (f ⟨⟩).value⟩ := rfl

@[simp] theorem pure_bind_eq (a : α) (f : α → Traced ε β) : (pure a : Traced ε α) >>= f = f a := rfl

@[simp] theorem pure_events (a : α) : (pure a : Traced ε α).events = [] := rfl

@[simp] theorem pure_value (a : α) : (pure a : Traced ε α).value = some a := rfl

/-- Only what `P` allows is done. -/
def All (P : ε → Prop) (x : Traced ε α) : Prop := ∀ e ∈ x.events, P e

theorem all_bind {P : ε → Prop} {x : Traced ε α} {f : α → Traced ε β} :
    (x >>= f).All P ↔ x.All P ∧ ∀ a, x.value = some a → (f a).All P := by
  cases hv : x.value with
  | none => simp [bind_of_none hv, All]
  | some a => simp [bind_of_some hv, All, or_imp, forall_and]

/-- `x` does only what `P` allows if and only if `c`, and then it outputs `os` and returns `v`. -/
structure Spec (P : ε → Prop) (out : ε → Option ω) (x : Traced ε α) (c : Prop) (os : List ω) (v : α) : Prop where
  all : x.All P ↔ c
  value : c → x.value = some v
  out : c → x.events.filterMap out = os

variable {P : ε → Prop} {out : ε → Option ω} {x : Traced ε α} {f : α → Traced ε β} {c c' : Prop}
  {os os' : List ω} {v : α} {w : β}

theorem Spec.congr (h : Spec P out x c os v) (hc : c ↔ c') : Spec P out x c' os v :=
  ⟨h.all.trans hc, fun h' => h.value (hc.2 h'), fun h' => h.out (hc.2 h')⟩

theorem Spec.pure (v : α) : Spec P out (pure v) True [] v :=
  ⟨⟨fun _ => trivial, fun _ e he => by cases he⟩, fun _ => rfl, fun _ => rfl⟩

theorem Spec.emit {e : ε} {o : ω} (he : P e) (ho : out e = some o) : Spec P out (emit e) True [o] ⟨⟩ := by
  refine ⟨⟨fun _ => trivial, fun _ d hd => ?_⟩, fun _ => rfl, fun _ => ?_⟩
  · rw [List.mem_singleton.1 hd]
    exact he
  · simp [Traced.emit, ho]

/-- One after the other. -/
theorem Spec.bind (hx : Spec P out x c os v) (hf : Spec P out (f v) c' os' w) :
    Spec P out (x >>= f) (c ∧ c') (os ++ os') w := by
  refine ⟨?_, ?_, ?_⟩
  · rw [all_bind, hx.all, ← hf.all]
    refine and_congr_right fun hc => ?_
    rw [hx.value hc]
    simp
  · rintro ⟨hc, hc'⟩
    rw [bind_of_some (hx.value hc)]
    exact hf.value hc'
  · rintro ⟨hc, hc'⟩
    rw [bind_of_some (hx.value hc), List.filterMap_append, hx.out hc, hf.out hc']

/-! ## Triples -/

def Ends (P : ε → Prop) (d : Prop) (Q : α → Prop) (x : Traced ε α) : Prop :=
  x.All P ∧ match x.value with
    | some a => Q a
    | none => d

variable {d : Prop} {Q : α → Prop} {R : β → Prop}

theorem Ends.of_value (h : Ends P d Q x) (hv : x.value = some v) : Q v := by
  simpa [hv] using h.2

/-- The value is known, and so is whether there is one. -/
theorem Ends.value_eq {o : Option α} (h : Ends P (o = none) (fun a => o = some a) x) : x.value = o := by
  cases hv : x.value with
  | none => simpa [hv, eq_comm] using h.2
  | some a => exact (h.of_value hv).symm

theorem Ends.mono {Q' : α → Prop} (h : Ends P d Q x) (hQ : ∀ a, Q a → Q' a) : Ends P d Q' x := by
  refine ⟨h.1, ?_⟩
  cases hv : x.value with
  | none => simpa [hv] using h.2
  | some a => exact hQ a (h.of_value hv)

theorem Ends.trivial (x : Traced ε α) : Ends (fun _ => True) True (fun _ => True) x := by
  refine ⟨fun _ _ => True.intro, ?_⟩
  split <;> exact True.intro

theorem Ends.pure {a : α} (h : Q a) : Ends P d Q (pure a) := ⟨by simp [All, Pure.pure], h⟩

theorem Ends.emit {e : ε} {Q : PUnit → Prop} (he : P e) (h : Q ⟨⟩) : Ends P d Q (emit e) :=
  ⟨by simpa [All, Traced.emit] using he, h⟩

theorem Ends.lift {o : Option α} (h : ∀ a, o = some a → Q a) (hd : o = none → d) : Ends P d Q (lift o) := by
  refine ⟨by simp [All, Traced.lift], ?_⟩
  cases o with
  | none => exact hd rfl
  | some a => exact h a rfl

theorem Ends.bind (hx : Ends P d Q x) (hf : ∀ a, Q a → Ends P d R (f a)) : Ends P d R (x >>= f) := by
  cases hv : x.value with
  | none =>
    rw [bind_of_none hv]
    exact ⟨hx.1, by simpa [hv] using hx.2⟩
  | some a =>
    have ha := hf a (hx.of_value hv)
    rw [bind_of_some hv]
    refine ⟨?_, ha.2⟩
    intro e he
    rcases List.mem_append.1 he with he | he
    · exact hx.1 e he
    · exact ha.1 e he

/-! ## Loops -/

/-- At most `n` rounds of a loop: a round leads to the next state (`inl`) or leaves the loop with a value. -/
def loop {σ ρ : Type v} (body : σ → Traced ε (σ ⊕ ρ)) : Nat → σ → Traced ε ρ
  | 0, _ => ⟨[], none⟩
  | n + 1, s => do
    match ← body s with
    | .inl s' => loop body n s'
    | .inr r => Pure.pure r

section
variable {σ ρ : Type v} {body : σ → Traced ε (σ ⊕ ρ)} {Q : ρ → Prop}

/-- **The rule for loops.** A round keeps `I` and decreases `μ`, or leaves the loop with a value in `Q`. -/
theorem Ends.loop (I : σ → Prop) (μ : σ → Nat)
    (hbody : ∀ s, I s → Ends P d (Sum.elim (fun s' => I s' ∧ μ s' < μ s) Q) (body s)) :
    ∀ {n : Nat} {s : σ}, I s → μ s < n → Ends P d Q (loop body n s)
  | 0, _, _, hn => by omega
  | n + 1, s, hs, hn => by
    refine (hbody s hs).bind ?_
    rintro (s' | r) h
    · have hlt : μ s' < μ s := h.2
      exact Ends.loop I μ hbody h.1 (by omega)
    · exact .pure h

/-- If every round decreases `μ`, more than `μ s` rounds are as good as any number beyond. -/
theorem loop_eq_of_variant (μ : σ → Nat) (hμ : ∀ s s', (body s).value = some (.inl s') → μ s' < μ s) :
    ∀ {n m : Nat} {s : σ}, μ s < n → μ s < m → Traced.loop body n s = Traced.loop body m s
  | 0, _, _, hn, _ => by omega
  | _ + 1, 0, _, _, hm => by omega
  | n + 1, m + 1, s, hn, hm => by
    rw [Traced.loop, Traced.loop]
    cases hv : (body s).value with
    | none => rw [bind_of_none hv, bind_of_none hv]
    | some t =>
      rw [bind_of_some hv, bind_of_some hv]
      cases t with
      | inl s' =>
        have hlt := hμ s s' hv
        have hrest : Traced.loop body n s' = Traced.loop body m s' := loop_eq_of_variant μ hμ (by omega) (by omega)
        simp only [hrest]
      | inr r => rfl

end

end Traced
