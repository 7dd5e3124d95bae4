import Mathlib.Data.List.Basic

/-!
# Following an abstract machine

`Follows step next Ok s x is`: the program, from `s`, takes the inputs `is` one after the other, each
step is defined, and what it emits and where it leads is `Ok` for the abstract machine, which from
`x` goes on by `next`. `Along next C x is`: the abstract machine meets `C` at each of the inputs.

`follows_iff` is the rule for a program that follows as long as `C` is met, and only so long.
-/

namespace Refine

variable {σ α ι ε : Type*}

def Follows (step : σ → ι → Option (σ × List ε)) (next : α → ι → α) (Ok : α → ι → List ε → σ → Prop) :
    σ → α → List ι → Prop
  | _, _, [] => True
  | s, x, i :: is => ∃ s' es, step s i = some (s', es) ∧ Ok x i es s' ∧ Follows step next Ok s' (next x i) is

def Along (next : α → ι → α) (C : α → ι → Prop) : α → List ι → Prop
  | _, [] => True
  | x, i :: is => C x i ∧ Along next C (next x i) is

variable {step : σ → ι → Option (σ × List ε)} {next : α → ι → α} {Ok : α → ι → List ε → σ → Prop}
  {C : α → ι → Prop}

/-- **The simulation rule.** `I` relates the states; a step that meets `C` is defined, `Ok`, and keeps `I`; a
step that does not meet `C` is not `Ok`. -/
theorem follows_iff (I : σ → α → Prop)
    (hgood : ∀ s x i, I s x → C x i → ∃ s' es, step s i = some (s', es) ∧ Ok x i es s' ∧ I s' (next x i))
    (hbad : ∀ s x i s' es, I s x → step s i = some (s', es) → Ok x i es s' → C x i) :
    ∀ {is : List ι} {s : σ} {x : α}, I s x → (Follows step next Ok s x is ↔ Along next C x is)
  | [], _, _, _ => Iff.rfl
  | i :: is, s, x, hI => by
    constructor
    · rintro ⟨s', es, hstep, hok, hrest⟩
      have hC := hbad s x i s' es hI hstep hok
      obtain ⟨s2, es2, hstep2, -, hI'⟩ := hgood s x i hI hC
      rw [hstep] at hstep2
      cases hstep2
      exact ⟨hC, (follows_iff I hgood hbad hI').1 hrest⟩
    · rintro ⟨hC, hrest⟩
      obtain ⟨s', es, hstep, hok, hI'⟩ := hgood s x i hI hC
      exact ⟨s', es, hstep, hok, (follows_iff I hgood hbad hI').2 hrest⟩

end Refine
