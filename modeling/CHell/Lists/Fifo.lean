import CHell.Lists.Player
import CHell.Lib.Refine

/-!
# The queue of `lnk_list_fifo.c`

| here | there |
| --- | --- |
| `push` | `push` (:19) |
| `pop`  | `pop` (:31), which gets the address of the caller's pointer |
| `step` | one call, by a caller that keeps the pointer `pop` updates |

A list that is never pushed to while it is empty is a queue (`fifo_queue_iff`). `pop` can empty it, and
`push` on NULL is not defined: it looks for the last node without a test that there is one.
-/

namespace CHell.Lists.Fifo

open Heap LinkedList

def push (m : Allocator Player) (h : Store Player) (player : Ptr) (name : String) (level : Int) : Option (Store Player) :=
  append m h player
    [fun p => { p with name := name }, fun p => { p with level := level }, fun p => { p with players := none }]

/-- The heap, `*player` and the value returned. -/
def pop (h : Store Player) (player : Ptr) : Option (Store Player × Ptr × Int) := do
  if player = none then
    some (h, player, 1)
  else
    let p ← get h player
    let h ← free h player
    some (h, p.players, p.level)

inductive Op
  | push (name : String) (level : Int)
  | pop
deriving DecidableEq

/-- The events are the values `pop` returns. -/
def step (m : Allocator Player) (s : State) : Op → Option (State × List Int)
  | .push name level => do
    let h ← push m s.heap s.player name level
    some ({ s with heap := h }, [])
  | .pop => do
    let (h, player, lvl) ← pop s.heap s.player
    some (⟨h, player⟩, [lvl])

/-! ## The queue -/

/-- What a queue holds after an operation. -/
def queueNext (q : List (String × Int)) : Op → List (String × Int)
  | .push name level => q ++ [(name, level)]
  | .pop => q.tail

/-- The nodes are the elements of the queue, and a `pop` returned the level of the oldest, if there was one. -/
def Queued (q : List (String × Int)) (op : Op) (returned : List Int) (s : State) : Prop :=
  printPlayer s.heap s.player = some (queueNext q op) ∧
    (op = .pop → ∀ oldest ∈ q.head?, returned = [oldest.2])

/-- There is a node to push behind. -/
def PushesBehind (q : List (String × Int)) (op : Op) : Prop := (∃ name level, op = .push name level) → q ≠ []

theorem push_null (m : Allocator Player) (h : Store Player) (name : String) (level : Int) :
    push m h none name level = none := rfl

theorem pop_holds {h : Store Player} {player : Ptr} {q : List (String × Int)} (hq : Holds h player q) :
    ∃ h' player' lvl, pop h player = some (h', player', lvl) ∧ Holds h' player' q.tail ∧
      ∀ oldest ∈ q.head?, lvl = oldest.2 := by
  obtain ⟨l, hl, rfl⟩ := hq
  cases l with
  | nil =>
    obtain rfl := path_nil.1 hl
    exact ⟨h, none, 1, rfl, ⟨[], rfl, rfl⟩, by simp⟩
  | cons x l =>
    obtain ⟨a, b⟩ := x
    have hnd := hl.nodup
    rw [List.map_cons, List.nodup_cons] at hnd
    obtain ⟨rfl, hb, hrest⟩ := hl
    refine ⟨h.set a .freed, b.players, b.level, ?_, ⟨l, hrest.congr ?_, rfl⟩, by simp⟩
    · simp [pop, hb, free_of_get hb]
    · intro x hx
      refine get_set_ne _ ?_
      rintro rfl
      exact hnd.1 (List.mem_map.2 ⟨x, hx, rfl⟩)

/-- **The list is a queue as long as nothing is pushed to the empty list**, and no longer. -/
theorem fifo_queue_iff (m : Allocator Player) (ops : List Op) :
    ∃ s, start m = some s ∧
      (Refine.Follows (step m) queueNext Queued s [("Humanz", 10)] ops ↔
        Refine.Along queueNext PushesBehind [("Humanz", 10)] ops) := by
  obtain ⟨s, hs, hq⟩ := start_holds m
  refine ⟨s, hs, Refine.follows_iff (fun s q => Holds s.heap s.player q) ?_ ?_ hq⟩
  · intro s q op hq hC
    cases op with
    | push name level =>
      obtain ⟨h', hpush, hq'⟩ : ∃ h', push m s.heap s.player name level = some h' ∧ Holds h' s.player (q ++ [(name, level)]) :=
        append_holds m hq (hC ⟨name, level, rfl⟩) fun _ => rfl
      refine ⟨{ s with heap := h' }, [], ?_, ⟨hq'.print, by simp⟩, hq'⟩
      simp [step, hpush]
    | pop =>
      obtain ⟨h', player', lvl, hpop, hq', hlvl⟩ := pop_holds hq
      refine ⟨⟨h', player'⟩, [lvl], ?_, ⟨hq'.print, ?_⟩, hq'⟩
      · simp [step, hpop]
      · intro _ oldest ho
        rw [hlvl oldest ho]
  · rintro s q op s' es hq hstep - ⟨name, level, rfl⟩ rfl
    obtain ⟨l, hl, hmap⟩ := hq
    rw [List.map_eq_nil_iff] at hmap
    subst hmap
    rw [step, path_nil.1 hl, push_null] at hstep
    cases hstep

/-- What `main` prints: Humanz first then Kano, and Kano only after the `pop`. -/
example :
    (do
      let m := bump ⟨"", 0, none⟩
      let s ← start m
      let (s, _) ← step m s (.push "Kano" 20)
      let first ← printPlayer s.heap s.player
      let (s, _) ← step m s .pop
      let second ← printPlayer s.heap s.player
      some (first, second)) = some ([("Humanz", 10), ("Kano", 20)], [("Kano", 20)]) := rfl

/-! ### The defect -/

/-- **A queue that was emptied cannot be pushed to.** -/
theorem fifo_push_after_pop :
    ¬ ∀ m ops s, start m = some s → Refine.Follows (step m) queueNext Queued s [("Humanz", 10)] ops := by
  intro hclaim
  obtain ⟨s', es, hpop, -, s'', es', hpush, -⟩ := hclaim (bump ⟨"", 0, none⟩) [.pop, .push "Kano" 20]
    ⟨[.live ⟨"Humanz", 10, none⟩], some 0⟩ rfl
  cases hpop
  cases hpush

end CHell.Lists.Fifo
