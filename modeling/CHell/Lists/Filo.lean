import CHell.Lists.Player
import CHell.Lib.Refine

/-!
# The stack of `lnk_list_filo.c`

| here | there |
| --- | --- |
| `push`       | `push` (:19) |
| `removeLazt` | `remove_lazt` (:32), which gets a copy of the caller's pointer |
| `step`       | one call; the caller's pointer stays what it is |

`none` is where the C has no defined behaviour, as in `Fifo.lean`.

The list is a stack until its only node is removed (`filo_stack_iff`): `remove_lazt` frees the node and cannot tell
the caller, whose pointer leads to the freed cell from then on.
-/

namespace CHell.Lists.Filo

open Heap LinkedList

def push (m : Allocator Player) (h : Store Player) (player : Ptr) (name : String) (level : Int) : Option (Store Player) :=
  append m h player
    [fun p => { p with level := level }, fun p => { p with name := name }, fun p => { p with players := none }]

/-- The heap and the value returned. -/
def removeLazt (h : Store Player) (player : Ptr) : Option (Store Player × Int) := do
  let p ← get h player
  if p.players = none then
    let h ← free h player
    some (h, 0)
  else
    -- while (current->players->players != NULL)
    let current ← seek Player.players h (fun c => (get h c.players).map fun n => n.players.isSome) player
    let c ← get h current
    let h ← free h c.players
    let h ← modify h current fun c => { c with players := none }
    some (h, 0)

inductive Op
  | push (name : String) (level : Int)
  | removeLazt
deriving DecidableEq

/-- The events are the values `remove_lazt` returns. -/
def step (m : Allocator Player) (s : State) : Op → Option (State × List Int)
  | .push name level => do
    let h ← push m s.heap s.player name level
    some ({ s with heap := h }, [])
  | .removeLazt => do
    let (h, r) ← removeLazt s.heap s.player
    some ({ s with heap := h }, [r])

/-! ## The stack -/

/-- What a stack holds after an operation, the most recent element last. -/
def stackNext (st : List (String × Int)) : Op → List (String × Int)
  | .push name level => st ++ [(name, level)]
  | .removeLazt => st.dropLast

/-- The nodes, read from the pointer the caller holds, are the elements of the stack. -/
def Stacked (st : List (String × Int)) (op : Op) (_returned : List Int) (s : State) : Prop :=
  printPlayer s.heap s.player = some (stackNext st op)

/-- What is removed is not the only element. -/
def RemovesAboveOthers (st : List (String × Int)) (op : Op) : Prop := op = .removeLazt → st.length ≠ 1

theorem exists_two_last {st : List (String × Int)} (hne : st ≠ []) (hlen : st.length ≠ 1) :
    ∃ st' e e', st = st' ++ [e, e'] := by
  obtain ⟨st, e', rfl⟩ := (List.eq_nil_or_concat' st).resolve_left hne
  obtain ⟨st, e, rfl⟩ := (List.eq_nil_or_concat' st).resolve_left (by rintro rfl; exact hlen rfl)
  exact ⟨st, e, e', List.append_assoc st [e] [e']⟩

theorem seek_penult {h : Store Player} {player : Ptr} {l : List (Nat × Player)} {a c : Nat} {b d : Player}
    (hl : Path Player.players h player ((l ++ [(a, b)]) ++ [(c, d)]) none) :
    seek Player.players h (fun c => (get h c.players).map fun n => n.players.isSome) player = some (some a) := by
  have hpoints := hl.next_mem
  obtain ⟨q, hfront, rfl, hd, hend⟩ := path_append.1 hl
  obtain ⟨m, -, rfl, -, hbc⟩ := path_append.1 hfront
  refine seek_of_path hfront ?_ ?_
  · intro x hx
    obtain ⟨y, hy, hxy⟩ := hfront.next_mem x hx
    obtain ⟨z, -, hyz⟩ := hpoints y hy
    rw [hxy, hfront.get_of_mem hy, Option.map_some, hyz]
    rfl
  · rw [path_nil.1 hbc, hd, Option.map_some, path_nil.1 hend]
    rfl

/-- With two nodes at least, the last one is freed and the one before it becomes the last. -/
theorem removeLazt_holds {h : Store Player} {player : Ptr} {st : List (String × Int)} {e e' : String × Int}
    (hst : Holds h player (st ++ [e, e'])) :
    ∃ h', removeLazt h player = some (h', 0) ∧ Holds h' player (st ++ [e]) := by
  obtain ⟨l, hl, hmap⟩ := hst
  obtain ⟨l, t, rfl, rfl, ht⟩ := List.map_eq_append_iff.1 hmap
  obtain ⟨⟨a, b⟩, t, rfl, rfl, ht'⟩ := List.map_eq_cons_iff.1 ht
  obtain ⟨⟨c, d⟩, t, rfl, rfl, ht''⟩ := List.map_eq_cons_iff.1 ht'
  obtain rfl := List.map_eq_nil_iff.1 ht''
  have hl' : Path Player.players h player ((l ++ [(a, b)]) ++ [(c, d)]) none := by rwa [List.append_assoc]
  have hb : get h (some a) = some b := hl'.get_of_mem (x := (a, b)) (by simp)
  have hd : get h (some c) = some d := hl'.get_of_mem (x := (c, d)) (by simp)
  have hac : a ≠ c := hl'.ne_of_mem (x := (a, b)) (by simp)
  have hbc : b.players = some c := by
    obtain ⟨m, -, -, -, hnext⟩ := path_append.1 hl
    exact hnext.1
  -- the first node is not the last one
  obtain ⟨p, hp, hmore⟩ : ∃ p, get h player = some p ∧ p.players ≠ none := by
    have hpoints := hl'.next_mem
    cases l with
    | nil => exact ⟨b, by rw [hl.1]; exact hb, by simp [hbc]⟩
    | cons x l =>
      obtain ⟨y, -, hy⟩ := hpoints x (by simp)
      exact ⟨x.2, by rw [hl.1]; exact hl.2.1, by simp [hy]⟩
  have hb' : get (h.set c .freed) (some a) = some b := (get_set_ne _ hac).trans hb
  refine ⟨(h.set c .freed).set a (.live { b with players := none }), ?_,
    l ++ [(a, { b with players := none })], ?_, by simp⟩
  · simp only [removeLazt, hp, if_neg hmore, seek_penult hl', hb, hbc, free_of_get hd, modify_of_get hb',
      Option.bind_eq_bind, Option.bind_some]
  · refine hl.replace_end ?_ ⟨rfl, get_set_self hb' _, rfl⟩
    intro x hx
    rw [get_set_ne _ (hl.ne_of_mem hx), get_set_ne _ (hl'.ne_of_mem (List.mem_append_left _ hx))]

theorem removeLazt_single {h : Store Player} {player : Ptr} {e : String × Int} (hst : Holds h player [e]) :
    ∃ h' a, removeLazt h player = some (h', 0) ∧ player = some a ∧ get h' player = none := by
  obtain ⟨l, hl, hmap⟩ := hst
  obtain ⟨⟨a, b⟩, t, rfl, rfl, ht⟩ := List.map_eq_cons_iff.1 hmap
  obtain rfl := List.map_eq_nil_iff.1 ht
  obtain ⟨rfl, hb, hend⟩ := hl
  refine ⟨h.set a .freed, a, ?_, rfl, get_set_freed h a⟩
  simp [removeLazt, hb, path_nil.1 hend, free_of_get hb]

/-- **The list is a stack as long as its only element is not removed**, and no longer. -/
theorem filo_stack_iff (m : Allocator Player) (ops : List Op) :
    ∃ s, start m = some s ∧
      (Refine.Follows (step m) stackNext Stacked s [("Humanz", 10)] ops ↔
        Refine.Along stackNext RemovesAboveOthers [("Humanz", 10)] ops) := by
  obtain ⟨s, hs, hst⟩ := start_holds m
  refine ⟨s, hs, Refine.follows_iff (fun s st => Holds s.heap s.player st ∧ st ≠ []) ?_ ?_ ⟨hst, by simp⟩⟩
  · rintro s st op ⟨hst, hne⟩ hC
    cases op with
    | push name level =>
      obtain ⟨h', hpush, hst'⟩ : ∃ h', push m s.heap s.player name level = some h' ∧ Holds h' s.player (st ++ [(name, level)]) :=
        append_holds m hst hne fun _ => rfl
      refine ⟨{ s with heap := h' }, [], ?_, hst'.print, hst', by simp [stackNext]⟩
      simp [step, hpush]
    | removeLazt =>
      obtain ⟨st, e, e', rfl⟩ := exists_two_last hne (hC rfl)
      obtain ⟨h', hremove, hst'⟩ := removeLazt_holds hst
      have hnext : stackNext (st ++ [e, e']) .removeLazt = st ++ [e] := by
        rw [stackNext, List.append_cons, List.dropLast_concat]
      refine ⟨{ s with heap := h' }, [0], ?_, ?_, ?_, ?_⟩
      · simp [step, hremove]
      · rw [Stacked, hnext]
        exact hst'.print
      · rw [hnext]
        exact hst'
      · rw [hnext]
        simp
  · rintro s st op s' es ⟨hst, -⟩ hstep hok rfl hlen
    obtain ⟨e, rfl⟩ := List.length_eq_one_iff.1 hlen
    obtain ⟨h', a, hremove, ha, hfreed⟩ := removeLazt_single hst
    simp only [step, hremove, Option.bind_eq_bind, Option.bind_some] at hstep
    cases hstep
    rw [ha] at hfreed
    rw [Stacked, printPlayer, ha, traverse_of_not_live hfreed] at hok
    cases hok

/-- What `main` prints: Humanz then Kano, and Humanz after the `remove_lazt`. -/
example :
    (do
      let m := bump ⟨"", 0, none⟩
      let s ← start m
      let (s, _) ← step m s (.push "Kano" 30)
      let first ← printPlayer s.heap s.player
      let (s, _) ← step m s .removeLazt
      let second ← printPlayer s.heap s.player
      some (first, second)) = some ([("Humanz", 10), ("Kano", 30)], [("Humanz", 10)]) := rfl

/-! ### The defect -/

/-- **The caller of a stack that was emptied holds a freed node.** -/
theorem filo_remove_only :
    ¬ ∀ m ops s, start m = some s →
      Refine.Along stackNext (fun st op => op = .removeLazt → st ≠ []) [("Humanz", 10)] ops →
      Refine.Follows (step m) stackNext Stacked s [("Humanz", 10)] ops := by
  intro hclaim
  obtain ⟨s', es, hremove, hprint, -⟩ := hclaim (bump ⟨"", 0, none⟩) [.removeLazt]
    ⟨[.live ⟨"Humanz", 10, none⟩], some 0⟩ rfl ⟨by simp, trivial⟩
  cases hremove
  cases hprint

end CHell.Lists.Filo
