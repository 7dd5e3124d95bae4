import CHell.Lists.Fifo

/-!
# The list of `lnk_list_v2.c`

| here | there |
| --- | --- |
| `Player`    | `player_t` |
| `printList` | `print_list` (:10) |
| `push`      | `push` (:18), with `malloc` succeeding |

`push` walks to the last node like its sibling in `lnk_list_fifo.c`, and then assigns `name`, `level` and `next`
of that node where the sibling assigns those of the new one (`push_overwrites`).
-/

namespace CHell.Lists.V2

open Heap LinkedList

structure Player where
  name : String
  level : Int
  next : Ptr
deriving DecidableEq

/-- What is printed of each node, in order. -/
def printList (h : Store Player) (player : Ptr) : Option (List (String × Int)) :=
  traverse Player.next (fun current => [(current.name, current.level)]) h player

def push (m : Allocator Player) (h : Store Player) (user : Ptr) (name : String) (level : Int) :
    Option (Store Player) := do
  -- while (current_user->next != NULL)
  let current_user ← seek Player.next h (fun p => some p.next.isSome) user
  let h ← modify (alloc m h) current_user fun p => { p with next := some (m.addr h) }
  let h ← modify h current_user fun p => { p with name := name }
  let h ← modify h current_user fun p => { p with level := level }
  modify h current_user fun p => { p with next := none }

/-- The nodes from the head on hold `q`. -/
def Holds (h : Store Player) (user : Ptr) (q : List (String × Int)) : Prop :=
  ∃ l, Path Player.next h user l none ∧ l.map (fun x => (x.2.name, x.2.level)) = q

variable {h : Store Player} {user : Ptr} {q : List (String × Int)}

theorem Holds.print (hq : Holds h user q) : printList h user = some q := by
  obtain ⟨l, hl, rfl⟩ := hq
  rw [printList, traverse_of_path hl, List.map_eq_flatMap]

/-- The last node is overwritten and stays the last; what `malloc` handed out is nowhere in the list. -/
theorem push_holds (m : Allocator Player) (hq : Holds h user q) (hne : q ≠ []) (name : String) (level : Int) :
    ∃ h', push m h user name level = some h' ∧ Holds h' user (q.dropLast ++ [(name, level)]) ∧
      get h' (some (m.addr h)) = some (m.content h) := by
  obtain ⟨l, hl, rfl⟩ := hq
  obtain ⟨l, a, b, rfl, hb⟩ := hl.exists_last (by rintro rfl; exact hne rfl)
  have hnew := ne_addr_of_get (m := m) hb
  have hb' : get (alloc m h) (some a) = some b := (get_alloc_ne m hnew).trans hb
  have hset : ∀ p, get ((alloc m h).set a (.live p)) (some a) = some p := get_set_self hb'
  refine ⟨(alloc m h).set a (.live ⟨name, level, none⟩), ?_, ⟨l ++ [(a, ⟨name, level, none⟩)], ?_, by simp⟩, ?_⟩
  · simp only [push, seek_last hl, modify_of_get hb', modify_of_get (hset _), List.set_set, Option.bind_eq_bind,
      Option.bind_some]
  · refine hl.replace_end ?_ ⟨rfl, hset _, rfl⟩
    intro x hx
    have hxnew := ne_addr_of_get (m := m) (hl.get_of_mem (List.mem_append_left _ hx))
    rw [get_set_ne _ (hl.ne_of_mem hx), get_alloc_ne m hxnew]
  · rw [get_set_ne _ (Ne.symm hnew), get_alloc_self]

/-- What `push` is for: the old elements, and behind them the new one. -/
def Appends (printed : Option (List (String × Int))) (q : List (String × Int)) (name : String) (level : Int) : Prop :=
  printed = some (q ++ [(name, level)])

/-- **`push` of `lnk_list_fifo.c` appends, this one never does.** It puts the new element in the place of the last. -/
theorem push_overwrites (m : Allocator Player) (mFifo : Allocator Lists.Player) {hFifo : Store Lists.Player}
    {player : Ptr} (hq : Holds h user q) (hqFifo : Lists.Holds hFifo player q) (hne : q ≠ []) (name : String) (level : Int) :
    (∃ h', Fifo.push mFifo hFifo player name level = some h' ∧ Appends (printPlayer h' player) q name level) ∧
      ∃ h', push m h user name level = some h' ∧ printList h' user = some (q.dropLast ++ [(name, level)]) ∧
        ¬ Appends (printList h' user) q name level := by
  constructor
  · obtain ⟨h', hpush, hq'⟩ : ∃ h', Fifo.push mFifo hFifo player name level = some h' ∧
        Lists.Holds h' player (q ++ [(name, level)]) := append_holds mFifo hqFifo hne fun _ => rfl
    exact ⟨h', hpush, hq'.print⟩
  · obtain ⟨h', hpush, hq', -⟩ := push_holds m hq hne name level
    refine ⟨h', hpush, hq'.print, ?_⟩
    rw [Appends, hq'.print]
    intro heq
    have hlen := congrArg List.length (Option.some.inj heq)
    have hpos := List.length_pos_iff.2 hne
    simp only [List.length_append, List.length_dropLast, List.length_singleton] at hlen
    omega

theorem push_overwrites_humanz :
    (∃ h', Fifo.push (bump ⟨"", 0, none⟩) [.live ⟨"Humanz", 10, none⟩] (some 0) "Kano" 20 = some h' ∧
      Appends (printPlayer h' (some 0)) [("Humanz", 10)] "Kano" 20) ∧
      ∃ h', push (bump ⟨"", 0, none⟩) [.live ⟨"Humanz", 10, none⟩] (some 0) "Kano" 20 = some h' ∧
        printList h' (some 0) = some ([("Humanz", 10)].dropLast ++ [("Kano", 20)]) ∧
        ¬ Appends (printList h' (some 0)) [("Humanz", 10)] "Kano" 20 :=
  push_overwrites (bump ⟨"", 0, none⟩) (bump ⟨"", 0, none⟩) ⟨[(0, ⟨"Humanz", 10, none⟩)], ⟨rfl, rfl, rfl⟩, rfl⟩
    ⟨[(0, ⟨"Humanz", 10, none⟩)], ⟨rfl, rfl, rfl⟩, rfl⟩ (by simp) "Kano" 20

/-- The list of `main`, had it ended with NULL: Humanz is gone and Kano is in his place. -/
theorem push_loses_humanz :
    ¬ ∀ (m : Allocator Player) (h : Store Player) (user : Ptr) (q : List (String × Int)) (name : String) (level : Int),
      Holds h user q → q ≠ [] →
        ∃ h', push m h user name level = some h' ∧ Appends (printList h' user) q name level := by
  intro hclaim
  obtain ⟨h', hpush, hprint⟩ := hclaim (bump ⟨"", 0, none⟩) [.live ⟨"Humanz", 10, none⟩] (some 0) [("Humanz", 10)]
    "Kano" 20 ⟨[(0, ⟨"Humanz", 10, none⟩)], ⟨rfl, rfl, rfl⟩, rfl⟩ (by simp)
  have hkano_in : push (bump ⟨"", 0, none⟩) [.live ⟨"Humanz", 10, none⟩] (some 0) "Kano" 20 =
      some [.live ⟨"Kano", 20, none⟩, .live ⟨"", 0, none⟩] := rfl
  rw [hkano_in] at hpush
  cases hpush
  have hkano : printList [.live ⟨"Kano", 20, none⟩, .live ⟨"", 0, none⟩] (some 0) = some [("Kano", 20)] := rfl
  rw [Appends, hkano] at hprint
  simp at hprint

end CHell.Lists.V2
