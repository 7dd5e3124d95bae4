import Mathlib.Data.List.Nodup

/-!
# Filtering repeats as they come

A filter that remembers what it has let through: `firsts seen xs` is what it lets through of `xs`
when it has let through `seen` before. Started empty it computes `List.eraseDups`.
-/

namespace Dedup

variable {α β : Type*} [DecidableEq α] [DecidableEq β]

def firsts (seen : List α) : List α → List α
  | [] => []
  | x :: xs => if x ∈ seen then firsts seen xs else x :: firsts (seen ++ [x]) xs

theorem firsts_eq (seen xs : List α) : firsts seen xs = (xs.removeAll seen).eraseDups := by
  induction xs generalizing seen with
  | nil => rfl
  | cons x xs ih =>
    rw [firsts]
    by_cases hx : x ∈ seen
    · rw [if_pos hx, ih, List.cons_removeAll]
      simp [hx]
    · have hfilter : xs.removeAll (seen ++ [x]) = (xs.removeAll seen).filter fun b => !b == x := by
        simp only [List.removeAll, List.filter_filter]
        congr 1
        ext b
        by_cases hb : b = x <;> simp [hb]
      rw [if_neg hx, ih, hfilter, List.cons_removeAll]
      simp [hx, List.eraseDups_cons]

theorem firsts_nil_left (xs : List α) : firsts [] xs = xs.eraseDups := by
  rw [firsts_eq, List.removeAll_nil]

theorem nodup_append_firsts {seen : List α} (h : seen.Nodup) (xs : List α) :
    (seen ++ firsts seen xs).Nodup := by
  induction xs generalizing seen with
  | nil => simpa [firsts] using h
  | cons x xs ih =>
    rw [firsts]
    by_cases hx : x ∈ seen
    · rw [if_pos hx]
      exact ih h
    · rw [if_neg hx, List.append_cons]
      refine ih (List.nodup_append.2 ⟨h, List.nodup_singleton x, ?_⟩)
      intro a ha b hb hab
      exact hx (List.mem_singleton.1 hb ▸ hab ▸ ha)

/-- Renaming without collisions changes nothing. -/
theorem firsts_map {f : α → β} (hf : Function.Injective f) (seen xs : List α) :
    firsts (seen.map f) (xs.map f) = (firsts seen xs).map f := by
  induction xs generalizing seen with
  | nil => rfl
  | cons x xs ih =>
    rw [List.map_cons, firsts, firsts]
    by_cases hx : x ∈ seen
    · rw [if_pos hx, if_pos (List.mem_map_of_mem hx), ih]
    · rw [if_neg hx, if_neg fun h => hx ((List.mem_map_of_injective hf).1 h), List.map_cons, ← ih,
        List.map_append]
      rfl

end Dedup
