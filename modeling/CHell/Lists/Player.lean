import CHell.Lib.LinkedList

/-!
# The player lists of `lnk_list_fifo.c` and `lnk_list_filo.c`

| here | there |
| --- | --- |
| `Player`      | `player_t` |
| `printPlayer` | `print_player` (fifo:10, filo:10) |
| `start`       | `main` up to the first `push` (fifo:51-60, filo:51-60), with `malloc` succeeding |
| `append`      | `push` but for the order in which it assigns the fields (fifo:19, filo:19) |
| `modifyNext`  | an assignment through `current->players->` |

`none` is where the C has no defined behaviour: NULL or a cell not in use is dereferenced or freed, or the walk
to the end does not end. A `char *` is the text it points to, which nobody changes. `malloc` succeeds and answers
what an `Allocator` may answer.
-/

namespace CHell.Lists

open Heap LinkedList

structure Player where
  name : String
  level : Int
  players : Ptr
deriving DecidableEq

/-- A list as its caller knows it: the heap, and the pointer to the first node. -/
structure State where
  heap : Store Player
  player : Ptr
deriving DecidableEq

/-- What is printed of each node, in order. -/
def printPlayer (h : Store Player) (players : Ptr) : Option (List (String × Int)) :=
  traverse Player.players (fun current => [(current.name, current.level)]) h players

def modifyNext (h : Store Player) (current : Ptr) (f : Player → Player) : Option (Store Player) := do
  let c ← get h current
  modify h c.players f

/-- The last node gets a new one behind it, whose fields are assigned by `writes`, one after the other. -/
def append (m : Allocator Player) (h : Store Player) (player : Ptr) (writes : List (Player → Player)) :
    Option (Store Player) := do
  -- while (current->players != NULL)
  let current ← seek Player.players h (fun p => some p.players.isSome) player
  let h ← modify (alloc m h) current fun p => { p with players := some (m.addr h) }
  writes.foldlM (fun h f => modifyNext h current f) h

def start (m : Allocator Player) : Option State := do
  let player := some (m.addr [])
  let h ← modify (alloc m []) player fun p => { p with name := "Humanz" }
  let h ← modify h player fun p => { p with level := 10 }
  let h ← modify h player fun p => { p with players := none }
  some ⟨h, player⟩

variable {h : Store Player} {player : Ptr} {q : List (String × Int)} {l : List (Nat × Player)} {a c : Nat} {b d : Player}

theorem modifyNext_of_get (hb : get h (some a) = some b) (hn : b.players = some c) (hd : get h (some c) = some d)
    (f : Player → Player) : modifyNext h (some a) f = some (h.set c (.live (f d))) := by
  simp only [modifyNext, hb, hn, Option.bind_eq_bind, Option.bind_some]
  exact modify_of_get hd f

/-- Field after field of the next node. -/
theorem modifyNext_all (hb : get h (some a) = some b) (hn : b.players = some c) (hac : a ≠ c) (writes : List (Player → Player)) :
    ∀ {d : Player}, get h (some c) = some d →
      ∃ h', writes.foldlM (fun h f => modifyNext h (some a) f) h = some h' ∧
        get h' (some c) = some (writes.foldl (fun d f => f d) d) ∧
        ∀ a', a' ≠ c → get h' (some a') = get h (some a') := by
  induction writes generalizing h with
  | nil =>
    intro d hd
    exact ⟨h, rfl, hd, fun _ _ => rfl⟩
  | cons f writes ih =>
    intro d hd
    have hb' : get (h.set c (.live (f d))) (some a) = some b := (get_set_ne _ hac).trans hb
    obtain ⟨h', hfold, hc, hframe⟩ := ih hb' (get_set_self hd (f d))
    refine ⟨h', ?_, hc, fun a' hne => (hframe a' hne).trans (get_set_ne _ hne)⟩
    rw [List.foldlM_cons, modifyNext_of_get hb hn hd]
    exact hfold

/-! ## What a list holds -/

/-- The nodes from the head on hold `q`. -/
def Holds (h : Store Player) (player : Ptr) (q : List (String × Int)) : Prop :=
  ∃ l, Path Player.players h player l none ∧ l.map (fun x => (x.2.name, x.2.level)) = q

theorem Holds.print (hq : Holds h player q) : printPlayer h player = some q := by
  obtain ⟨l, hl, rfl⟩ := hq
  rw [printPlayer, traverse_of_path hl, List.map_eq_flatMap]

theorem start_holds (m : Allocator Player) : ∃ s, start m = some s ∧ Holds s.heap s.player [("Humanz", 10)] := by
  have hnew := get_alloc_self m []
  have hset : ∀ p, get ((alloc m []).set (m.addr []) (.live p)) (some (m.addr [])) = some p := get_set_self hnew
  have hstart : start m = some ⟨(alloc m []).set (m.addr []) (.live ⟨"Humanz", 10, none⟩), some (m.addr [])⟩ := by
    simp only [start, modify_of_get hnew, Option.bind_eq_bind, Option.bind_some, modify_of_get (hset _), List.set_set]
  exact ⟨_, hstart, [(m.addr [], ⟨"Humanz", 10, none⟩)], ⟨rfl, hset _, rfl⟩, rfl⟩

/-- The new node is at the end, with the fields that were assigned; the nodes in front of it are what they were. -/
theorem append_holds (m : Allocator Player) (hq : Holds h player q) (hne : q ≠ []) {writes : List (Player → Player)}
    {name : String} {level : Int} (hw : ∀ d, writes.foldl (fun d f => f d) d = ⟨name, level, none⟩) :
    ∃ h', append m h player writes = some h' ∧ Holds h' player (q ++ [(name, level)]) := by
  obtain ⟨l, hl, rfl⟩ := hq
  obtain ⟨l, a, b, rfl, hb⟩ := hl.exists_last (by rintro rfl; exact hne rfl)
  have hnew := ne_addr_of_get (m := m) hb
  have hb' : get (alloc m h) (some a) = some b := (get_alloc_ne m hnew).trans hb
  -- the last node points to the new one, which is not written yet
  have hlast := get_set_self hb' { b with players := some (m.addr h) }
  have hcell := (get_set_ne (.live { b with players := some (m.addr h) }) (Ne.symm hnew)).trans (get_alloc_self m h)
  obtain ⟨h', hfold, hc, hframe⟩ := modifyNext_all hlast rfl hnew writes hcell
  rw [hw] at hc
  refine ⟨h', ?_, l ++ [(a, { b with players := some (m.addr h) }), (m.addr h, ⟨name, level, none⟩)], ?_, by simp⟩
  · simp only [append, seek_last hl, modify_of_get hb', Option.bind_eq_bind, Option.bind_some]
    exact hfold
  · refine hl.replace_end ?_ ⟨rfl, (hframe a hnew).trans hlast, rfl, hc, rfl⟩
    intro x hx
    have hxnew := ne_addr_of_get (m := m) (hl.get_of_mem (List.mem_append_left _ hx))
    rw [hframe x.1 hxnew, get_set_ne _ (hl.ne_of_mem hx), get_alloc_ne m hxnew]

end CHell.Lists
