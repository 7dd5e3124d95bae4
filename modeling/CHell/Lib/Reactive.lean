import Mathlib.Data.List.Basic

/-!
# Reactive programs: runs and what holds along them

A program that talks to its environment is a partial step function: from a state and an
*answer* of the environment (the results of the system calls the step makes) to the next
state and the events it emits. `none` means the step cannot be taken.

`Run step C s₀ tr s`: started in `s₀`, the program can have emitted the history `tr` and be
in `s`, where every step taken meets the condition `C` (on the history so far, the state and
the answer). Every theorem about all runs is proved with `Run.invariant`: an invariant of
history and state, shown once for the start and once for one step.

`Always Q tr` says that each event of a history was allowed, by `Q`, by the events before it.
-/

namespace Reactive

variable {σ ι ε : Type*}

/-- Histories and states a program reaches from `s₀` by steps that meet `C`. -/
inductive Run (step : σ → ι → Option (σ × List ε)) (C : List ε → σ → ι → Prop) (s₀ : σ) :
    List ε → σ → Prop
  | start : Run step C s₀ [] s₀
  | next {tr s i s' es} : Run step C s₀ tr s → C tr s i → step s i = some (s', es) →
      Run step C s₀ (tr ++ es) s'

variable {step : σ → ι → Option (σ × List ε)} {C : List ε → σ → ι → Prop} {s₀ : σ}

/-- **The invariant rule.** -/
theorem Run.invariant (I : List ε → σ → Prop) (h0 : I [] s₀)
    (hs : ∀ tr s i s' es, I tr s → C tr s i → step s i = some (s', es) → I (tr ++ es) s')
    {tr : List ε} {s : σ} (h : Run step C s₀ tr s) : I tr s := by
  induction h with
  | start => exact h0
  | next _ hc ht ih => exact hs _ _ _ _ _ ih hc ht

theorem Run.mono {D : List ε → σ → ι → Prop} (hCD : ∀ tr s i, C tr s i → D tr s i) {tr : List ε} {s : σ}
    (h : Run step C s₀ tr s) : Run step D s₀ tr s := by
  induction h with
  | start => exact .start
  | next _ hc ht ih => exact .next ih (hCD _ _ _ hc) ht

/-- Take the given answers one after the other. -/
def exec (step : σ → ι → Option (σ × List ε)) : σ → List ι → Option (σ × List ε)
  | s, [] => some (s, [])
  | s, i :: is =>
    match step s i with
    | none => none
    | some (s', es) =>
      match exec step s' is with
      | none => none
      | some (s'', es') => some (s'', es ++ es')

/-- What the first step did and what the others did. -/
theorem exec_cons_eq_some {i : ι} {is : List ι} {s s'' : σ} {tr : List ε} :
    exec step s (i :: is) = some (s'', tr) ↔
      ∃ s' es es', step s i = some (s', es) ∧ exec step s' is = some (s'', es') ∧ es ++ es' = tr := by
  constructor
  · intro h
    rw [exec] at h
    split at h
    · cases h
    · rename_i s' es hstep
      split at h
      · cases h
      · rename_i s2 es' hrest
        cases h
        exact ⟨s', es, es', hstep, hrest, rfl⟩
  · rintro ⟨s', es, es', hstep, hrest, rfl⟩
    rw [exec, hstep]
    simp only [hrest]

theorem exec_cons {i : ι} {is : List ι} {s s' s'' : σ} {es es' : List ε} (h : step s i = some (s', es))
    (h' : exec step s' is = some (s'', es')) : exec step s (i :: is) = some (s'', es ++ es') :=
  exec_cons_eq_some.2 ⟨s', es, es', h, h', rfl⟩

theorem exec_singleton {i : ι} {s s' : σ} {es : List ε} (h : step s i = some (s', es)) :
    exec step s [i] = some (s', es) :=
  exec_cons_eq_some.2 ⟨s', es, [], h, rfl, List.append_nil es⟩

theorem exec_append {is is' : List ι} {s s' s'' : σ} {es es' : List ε} (h : exec step s is = some (s', es))
    (h' : exec step s' is' = some (s'', es')) : exec step s (is ++ is') = some (s'', es ++ es') := by
  induction is generalizing s es with
  | nil => cases h; exact h'
  | cons i is ih =>
    obtain ⟨s1, es1, es2, hstep, hrest, rfl⟩ := exec_cons_eq_some.1 h
    rw [List.cons_append, List.append_assoc]
    exact exec_cons hstep (ih hrest)

/-- A run goes on with the steps `exec` takes, if the condition allows these answers. -/
theorem Run.exec_of_mem {is : List ι} (hC : ∀ i ∈ is, ∀ tr s, C tr s i) {tr es : List ε} {s s' : σ}
    (hr : Run step C s₀ tr s) (he : exec step s is = some (s', es)) : Run step C s₀ (tr ++ es) s' := by
  induction is generalizing tr s es with
  | nil =>
    cases he
    rwa [List.append_nil]
  | cons i is ih =>
    obtain ⟨hi, his⟩ := List.forall_mem_cons.1 hC
    obtain ⟨s1, es1, es2, hstep, hrest, rfl⟩ := exec_cons_eq_some.1 he
    rw [← List.append_assoc]
    exact ih his (.next hr (hi _ _) hstep) hrest

theorem Run.exec (hC : ∀ tr s i, C tr s i) {is : List ι} {tr es : List ε} {s s' : σ}
    (hr : Run step C s₀ tr s) (he : exec step s is = some (s', es)) : Run step C s₀ (tr ++ es) s' :=
  hr.exec_of_mem (fun i _ tr s => hC tr s i) he

/-- The program where it may only take steps whose events are all allowed. -/
def guard (ok : ε → Bool) (step : σ → ι → Option (σ × List ε)) (s : σ) (i : ι) : Option (σ × List ε) :=
  (step s i).filter fun r => r.2.all ok

theorem exec_guard {ok : ε → Bool} {is : List ι} {s s' : σ} {es : List ε} :
    exec (guard ok step) s is = some (s', es) ↔ exec step s is = some (s', es) ∧ ∀ e ∈ es, ok e = true := by
  induction is generalizing s es with
  | nil =>
    constructor
    · intro h
      cases h
      exact ⟨rfl, by simp⟩
    · exact fun h => h.1
  | cons i is ih =>
    have hguard : ∀ s1 es1, guard ok step s i = some (s1, es1) ↔
        step s i = some (s1, es1) ∧ ∀ e ∈ es1, ok e = true := by
      intro s1 es1
      rw [guard, Option.filter_eq_some_iff, List.all_eq_true]
    simp only [exec_cons_eq_some, hguard, ih]
    constructor
    · rintro ⟨s1, es1, es2, ⟨hstep, h1⟩, ⟨hrest, h2⟩, rfl⟩
      exact ⟨⟨s1, es1, es2, hstep, hrest, rfl⟩, List.forall_mem_append.2 ⟨h1, h2⟩⟩
    · rintro ⟨⟨s1, es1, es2, hstep, hrest, rfl⟩, hall⟩
      obtain ⟨h1, h2⟩ := List.forall_mem_append.1 hall
      exact ⟨s1, es1, es2, ⟨hstep, h1⟩, ⟨hrest, h2⟩, rfl⟩

/-- **Two programs in lockstep**: `R` relates their states, `S` what they emit. If each step keeps them related, and is taken by
both or by none, so do their executions. -/
theorem exec_lockstep {σ' ι' ε' κ : Type*} {step' : σ' → ι' → Option (σ' × List ε')} {f : κ → ι} {g : κ → ι'}
    (R : σ → σ' → Prop) (S : List ε → List ε' → Prop) (hnil : S [] [])
    (happend : ∀ es es' ds ds', S es es' → S ds ds' → S (es ++ ds) (es' ++ ds'))
    {is : List κ} (hstep : ∀ i ∈ is, ∀ s s', R s s' →
      Option.Rel (fun r r' => R r.1 r'.1 ∧ S r.2 r'.2) (step s (f i)) (step' s' (g i)))
    {s : σ} {s' : σ'} (h : R s s') :
    Option.Rel (fun r r' => R r.1 r'.1 ∧ S r.2 r'.2) (exec step s (is.map f)) (exec step' s' (is.map g)) := by
  induction is generalizing s s' with
  | nil => exact .some ⟨h, hnil⟩
  | cons i is ih =>
    have hfirst := hstep i List.mem_cons_self s s' h
    have hrest : ∀ {t t'}, R t t' →
        Option.Rel (fun r r' => R r.1 r'.1 ∧ S r.2 r'.2) (exec step t (is.map f)) (exec step' t' (is.map g)) :=
      ih fun j hj => hstep j (List.mem_cons_of_mem i hj)
    rw [List.map_cons, List.map_cons, exec, exec]
    generalize step s (f i) = o at hfirst
    generalize step' s' (g i) = o' at hfirst
    cases hfirst with
    | none => exact .none
    | @some r r' hr =>
      obtain ⟨t, es⟩ := r
      obtain ⟨t', es'⟩ := r'
      have hdone := hrest hr.1
      simp only
      generalize exec step t (is.map f) = q at hdone
      generalize exec step' t' (is.map g) = q' at hdone
      cases hdone with
      | none => exact .none
      | some hq => exact .some ⟨hq.1, happend _ _ _ _ hr.2 hq.2⟩

/-! ## Conditions on the steps of an execution -/

/-- Each of the steps `exec` takes meets `C`. -/
def Each (step : σ → ι → Option (σ × List ε)) (C : σ → ι → Prop) : σ → List ι → Prop
  | _, [] => True
  | s, i :: is => C s i ∧ ∀ s' es, step s i = some (s', es) → Each step C s' is

theorem each_cons {C : σ → ι → Prop} {i : ι} {is : List ι} {s s' : σ} {es : List ε} (h : step s i = some (s', es)) :
    Each step C s (i :: is) ↔ C s i ∧ Each step C s' is := by
  simp [Each, h]

theorem each_singleton {C : σ → ι → Prop} {i : ι} {s : σ} : Each step C s [i] ↔ C s i := by simp [Each]

/-- A condition on the answers alone. -/
theorem each_of_forall {C : σ → ι → Prop} {is : List ι} (h : ∀ i ∈ is, ∀ s, C s i) : ∀ s, Each step C s is := by
  induction is with
  | nil => exact fun s => trivial
  | cons i is ih =>
    obtain ⟨hi, his⟩ := List.forall_mem_cons.1 h
    exact fun s => ⟨hi s, fun s' es _ => ih his s'⟩

/-- Several conditions are met step by step if and only if each one is. -/
theorem each_forall {α : Type*} {P : α → Prop} {C : α → σ → ι → Prop} {is : List ι} {s : σ} :
    Each step (fun s i => ∀ x, P x → C x s i) s is ↔ ∀ x, P x → Each step (C x) s is := by
  induction is generalizing s with
  | nil => simp [Each]
  | cons i is ih =>
    constructor
    · rintro ⟨hc, hrest⟩ x hx
      exact ⟨hc x hx, fun s' es h => ih.1 (hrest s' es h) x hx⟩
    · intro h
      exact ⟨fun x hx => (h x hx).1, fun s' es hs => ih.2 fun x hx => (h x hx).2 s' es hs⟩

/-- Conditions that come to the same while an invariant holds, which a third condition keeps. -/
theorem each_iff_of {A C D : σ → ι → Prop} (I : σ → Prop)
    (hs : ∀ s i s' es, I s → A s i → step s i = some (s', es) → I s') (h : ∀ s i, I s → A s i → (C s i ↔ D s i))
    {is : List ι} {s : σ} (hI : I s) (hA : Each step A s is) : Each step C s is ↔ Each step D s is := by
  induction is generalizing s with
  | nil => exact Iff.rfl
  | cons i is ih =>
    obtain ⟨hi, his⟩ := hA
    refine and_congr (h s i hI hi) ?_
    constructor
    · intro hrest s' es hstep
      exact (ih (hs s i s' es hI hi hstep) (his s' es hstep)).1 (hrest s' es hstep)
    · intro hrest s' es hstep
      exact (ih (hs s i s' es hI hi hstep) (his s' es hstep)).2 (hrest s' es hstep)

/-- Conditions that come to the same while an invariant holds. -/
theorem each_iff {C D : σ → ι → Prop} (I : σ → Prop) (hs : ∀ s i s' es, I s → step s i = some (s', es) → I s')
    (h : ∀ s i, I s → (C s i ↔ D s i)) {is : List ι} {s : σ} (hI : I s) : Each step C s is ↔ Each step D s is := by
  have htrue : Each step (fun _ _ => True) s is := each_of_forall (fun _ _ _ => trivial) s
  exact each_iff_of I (fun s i s' es hI _ => hs s i s' es hI) (fun s i hI _ => h s i hI) hI htrue

/-! ## Properties of histories -/

/-- Every event of the history is allowed by the events before it. -/
def Always (Q : List ε → ε → Prop) (tr : List ε) : Prop :=
  ∀ pre e post, tr = pre ++ e :: post → Q pre e

@[simp] theorem always_nil (Q : List ε → ε → Prop) : Always Q [] := by
  intro pre e post h; simp at h

theorem always_cons {Q : List ε → ε → Prop} {e : ε} {tr : List ε} :
    Always Q (e :: tr) ↔ Q [] e ∧ Always (fun pre => Q (e :: pre)) tr := by
  constructor
  · intro h
    exact ⟨h [] e tr rfl, fun pre e' post he => h (e :: pre) e' post (by rw [he]; rfl)⟩
  · rintro ⟨h0, h⟩ pre e' post he
    cases pre with
    | nil => obtain ⟨rfl, -⟩ := List.cons.inj he; exact h0
    | cons d pre =>
      rw [List.cons_append] at he
      obtain ⟨rfl, he'⟩ := List.cons.inj he
      exact h pre e' post he'

theorem always_append {Q : List ε → ε → Prop} {tr es : List ε} :
    Always Q (tr ++ es) ↔ Always Q tr ∧ Always (fun pre => Q (tr ++ pre)) es := by
  induction tr generalizing Q with
  | nil => simp
  | cons e tr ih =>
    rw [List.cons_append, always_cons, always_cons, ih, and_assoc]
    rfl

theorem Always.prefix {Q : List ε → ε → Prop} {tr es : List ε} (h : Always Q (tr ++ es)) :
    Always Q tr := (always_append.1 h).1

/-- Events that `Q` allows whatever came before. -/
theorem always_of_forall {Q : List ε → ε → Prop} {tr : List ε} (h : ∀ e ∈ tr, ∀ pre, Q pre e) :
    Always Q tr := by
  rintro pre e post rfl
  exact h e (by simp) pre

/-- The invariant rule under an assumption on the environment: what it has done up to any point of
the history satisfies `F`. -/
theorem Run.invariant_of_always {F : List ε → ε → Prop} (I : List ε → σ → Prop) (h0 : I [] s₀)
    (hs : ∀ tr s i s' es, I tr s → Always F (tr ++ es) → C tr s i → step s i = some (s', es) →
      I (tr ++ es) s')
    {tr : List ε} {s : σ} (h : Run step C s₀ tr s) (hf : Always F tr) : I tr s := by
  refine Run.invariant (fun tr s => Always F tr → I tr s) (fun _ => h0) ?_ h hf
  intro tr s i s' es ih hc ht hf
  exact hs tr s i s' es (ih hf.prefix) hf hc ht

/-- **Histories of runs.** If each step, from a state that satisfies the invariant, only
emits events that its history allows, the whole history is allowed. -/
theorem Run.always {Q : List ε → ε → Prop} (I : List ε → σ → Prop) (h0 : I [] s₀)
    (hs : ∀ tr s i s' es, I tr s → C tr s i → step s i = some (s', es) →
      I (tr ++ es) s' ∧ Always (fun pre => Q (tr ++ pre)) es)
    {tr : List ε} {s : σ} (h : Run step C s₀ tr s) : I tr s ∧ Always Q tr := by
  refine Run.invariant (fun tr s => I tr s ∧ Always Q tr) ⟨h0, always_nil Q⟩ ?_ h
  rintro tr s i s' es ⟨hi, ha⟩ hc ht
  obtain ⟨hi', he⟩ := hs tr s i s' es hi hc ht
  exact ⟨hi', always_append.2 ⟨ha, he⟩⟩

end Reactive
