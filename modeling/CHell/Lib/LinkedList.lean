import CHell.Lib.Heap
import CHell.Lib.Loop

/-!
# Linked lists on a heap

A record carries the pointer to the next one, `next`. `Path next h p l q`: from `p` the pointers lead
through the records of `l`, each with its address, to `q`; a list is a path to NULL. Two loops go along
a path: one that stops at a node (`seekBody`), one that goes to the end (`nextBody`). Both go on from
cells in use only, so a heap of `k` cells bounds their rounds (`Loop.returns_iff_of_finite`).
-/

namespace LinkedList

open Heap

variable {β ε : Type*} {next : β → Ptr} {h h' : Store β} {p q r : Ptr} {l l' : List (Nat × β)} {a : Nat} {b : β}

def Path (next : β → Ptr) (h : Store β) : Ptr → List (Nat × β) → Ptr → Prop
  | p, [], q => p = q
  | p, (a, b) :: l, q => p = some a ∧ get h (some a) = some b ∧ Path next h (next b) l q

@[simp] theorem path_nil : Path next h p [] q ↔ p = q := Iff.rfl

@[simp] theorem path_cons :
    Path next h p ((a, b) :: l) q ↔ p = some a ∧ get h (some a) = some b ∧ Path next h (next b) l q := Iff.rfl

theorem path_append : Path next h p (l ++ l') r ↔ ∃ q, Path next h p l q ∧ Path next h q l' r := by
  induction l generalizing p with
  | nil => simp
  | cons x l ih =>
    obtain ⟨a, b⟩ := x
    simp only [List.cons_append, path_cons, ih]
    constructor
    · rintro ⟨hp, hb, q, hl, hl'⟩
      exact ⟨q, ⟨hp, hb, hl⟩, hl'⟩
    · rintro ⟨q, ⟨hp, hb, hl⟩, hl'⟩
      exact ⟨hp, hb, q, hl, hl'⟩

theorem Path.get_of_mem (hp : Path next h p l q) {x : Nat × β} (hx : x ∈ l) : get h (some x.1) = some x.2 := by
  induction l generalizing p with
  | nil => cases hx
  | cons y l ih =>
    obtain ⟨-, hb, hl⟩ := hp
    rcases List.mem_cons.1 hx with rfl | hx
    · exact hb
    · exact ih hl hx

/-- A list that is not empty has a last node. -/
theorem Path.exists_last (hp : Path next h p l q) (hne : l ≠ []) :
    ∃ l' a b, l = l' ++ [(a, b)] ∧ get h (some a) = some b := by
  obtain ⟨l', ⟨a, b⟩, rfl⟩ := (List.eq_nil_or_concat' l).resolve_left hne
  exact ⟨l', a, b, rfl, hp.get_of_mem (x := (a, b)) (by simp)⟩

/-- **Frame.** A path is as good in a heap that has the same records on it. -/
theorem Path.congr (hp : Path next h p l q) (he : ∀ x ∈ l, get h' (some x.1) = get h (some x.1)) :
    Path next h' p l q := by
  induction l generalizing p with
  | nil => exact hp
  | cons y l ih =>
    obtain ⟨hpa, hb, hl⟩ := hp
    exact ⟨hpa, (he y List.mem_cons_self).trans hb, ih hl fun x hx => he x (List.mem_cons_of_mem y hx)⟩

/-- There is one list at a pointer. -/
theorem Path.unique (hp : Path next h p l none) (hp' : Path next h p l' none) : l = l' := by
  induction l generalizing p l' with
  | nil =>
    cases l' with
    | nil => rfl
    | cons y l' =>
      obtain rfl := path_nil.1 hp
      cases hp'.1
  | cons x l ih =>
    obtain ⟨a, b⟩ := x
    obtain ⟨rfl, hb, hl⟩ := hp
    cases l' with
    | nil => cases hp'
    | cons y l' =>
      obtain ⟨a', b'⟩ := y
      obtain ⟨ha, hb', hl'⟩ := hp'
      cases ha
      rw [hb] at hb'
      cases hb'
      rw [ih hl hl']

/-- A list does not pass an address twice. -/
theorem Path.nodup (hp : Path next h p l none) : (l.map Prod.fst).Nodup := by
  induction l generalizing p with
  | nil => exact List.nodup_nil
  | cons x l ih =>
    obtain ⟨a, b⟩ := x
    obtain ⟨rfl, hb, hl⟩ := hp
    refine List.nodup_cons.2 ⟨?_, ih hl⟩
    intro hmem
    obtain ⟨⟨a', b'⟩, hx, heq⟩ := List.mem_map.1 hmem
    cases heq
    -- the list would start again at its own middle, with fewer nodes
    obtain ⟨pre, post, rfl⟩ := List.append_of_mem hx
    obtain ⟨q, -, hq⟩ := path_append.1 hl
    have hwhole : Path next h q ((a, b) :: (pre ++ (a, b') :: post)) none := ⟨hq.1, hb, hl⟩
    have hsame := hq.unique hwhole
    have hlen := congrArg List.length hsame
    simp only [List.length_cons, List.length_append] at hlen
    omega

/-- The end of a path is replaced, the records in front of it stay. -/
theorem Path.replace_end {t t' : List (Nat × β)} (hp : Path next h p (l ++ (a, b) :: t) q)
    (hl : ∀ x ∈ l, get h' (some x.1) = get h (some x.1)) (ht : Path next h' (some a) t' r) :
    Path next h' p (l ++ t') r := by
  obtain ⟨m, hfront, rfl, -⟩ := path_append.1 hp
  exact path_append.2 ⟨some a, hfront.congr hl, ht⟩

/-- The records of a list are at different addresses. -/
theorem Path.ne_of_mem {t : List (Nat × β)} (hp : Path next h p (l ++ (a, b) :: t) none) {x : Nat × β} (hx : x ∈ l) :
    x.1 ≠ a := by
  have hnd := hp.nodup
  rw [List.map_append, List.nodup_append] at hnd
  exact hnd.2.2 _ (List.mem_map_of_mem hx) a (by simp)

/-- Every node in front of another one points to a node. -/
theorem Path.next_mem {t : List (Nat × β)} (hp : Path next h p (l ++ (a, b) :: t) q) :
    ∀ x ∈ l, ∃ y ∈ l ++ [(a, b)], next x.2 = some y.1 := by
  induction l generalizing p with
  | nil => simp
  | cons x l ih =>
    obtain ⟨-, -, hrest⟩ := hp
    refine List.forall_mem_cons.2 ⟨?_, ?_⟩
    · cases l with
      | nil => exact ⟨(a, b), by simp, hrest.1⟩
      | cons y l => exact ⟨y, by simp, hrest.1⟩
    · intro z hz
      obtain ⟨y, hy, heq⟩ := ih hrest z hz
      exact ⟨y, List.mem_cons_of_mem x hy, heq⟩

/-! ## Going along -/

/-- The addresses handed out. A loop that reads the record at its pointer goes on from these only. -/
def pointers (h : Store β) : Finset Ptr := (Finset.range h.length).map ⟨some, Option.some_injective Nat⟩

theorem card_pointers (h : Store β) : (pointers h).card = h.length := by simp [pointers]

theorem mem_pointers (hb : get h p = some b) : p ∈ pointers h := by
  obtain ⟨a, rfl, ha⟩ := get_eq_some.1 hb
  simpa [pointers] using lt_of_get hb

/-- `while (cond) current = current->next;` where `cond` depends on the current record; `none` where the
condition or the record cannot be read. -/
def seekBody (next : β → Ptr) (h : Store β) (cond : β → Option Bool) (current : Ptr) : Ptr ⊕ Option Ptr :=
  match get h current with
  | none => .inr none
  | some b =>
    match cond b with
    | none => .inr none
    | some true => .inl (next b)
    | some false => .inr (some current)

/-- Where the loop stops, if it does. -/
def seek (next : β → Ptr) (h : Store β) (cond : β → Option Bool) (p : Ptr) : Option Ptr :=
  (Loop.loop (seekBody next h cond) (h.length + 1) p).join

theorem seek_bounded {cond : β → Option Bool} :
    ∀ s s', seekBody next h cond s = .inl s' → s ∈ pointers h := by
  intro s s' hs
  unfold seekBody at hs
  split at hs
  · cases hs
  · rename_i b hb
    exact mem_pointers hb

/-- The rounds suffice, if any number does. -/
theorem seek_eq_some {cond : β → Option Bool} :
    seek next h cond p = some q ↔ Loop.Returns (seekBody next h cond) p (some q) := by
  rw [Loop.returns_iff_of_finite (pointers h) seek_bounded, card_pointers, seek, Option.join_eq_some_iff]

/-- The loop passes the records that meet the condition and stops at the first that does not. -/
theorem seek_of_path {cond : β → Option Bool} (hp : Path next h p (l ++ [(a, b)]) q)
    (hl : ∀ x ∈ l, cond x.2 = some true) (hb : cond b = some false) : seek next h cond p = some (some a) := by
  rw [seek_eq_some]
  induction l generalizing p with
  | nil =>
    obtain ⟨rfl, hget, -⟩ := hp
    apply Loop.Returns.of_exit
    simp only [seekBody, hget, hb]
  | cons x l ih =>
    obtain ⟨c, d⟩ := x
    obtain ⟨rfl, hget, hrest⟩ := hp
    obtain ⟨hd, hl⟩ := List.forall_mem_cons.1 hl
    refine Loop.Returns.of_next ?_ (ih hrest hl)
    simp only [seekBody, hget, hd]

/-- `while (current->next != NULL)` stops at the last node. -/
theorem seek_last (hp : Path next h p (l ++ [(a, b)]) none) :
    seek next h (fun b => some (next b).isSome) p = some (some a) := by
  obtain ⟨m, -, hend⟩ := path_append.1 hp
  refine seek_of_path hp ?_ ?_
  · intro x hx
    obtain ⟨y, -, hy⟩ := hp.next_mem x hx
    rw [hy]
    rfl
  · rw [path_nil.1 hend.2.2]
    rfl

/-- `while (current != NULL) { ...; current = current->next; }` -/
def nextBody (next : β → Ptr) (h : Store β) (current : Ptr) : Ptr ⊕ Option Unit :=
  match current with
  | none => .inr (some ())
  | some a =>
    match get h (some a) with
    | none => .inr none
    | some b => .inl (next b)

theorem next_bounded : ∀ s s', nextBody next h s = .inl s' → s ∈ pointers h := by
  intro s s' hs
  cases s with
  | none => cases hs
  | some a =>
    simp only [nextBody] at hs
    split at hs
    · cases hs
    · rename_i b hb
      exact mem_pointers hb

/-- What `obs` says of the records on the way, if the loop comes to the end. -/
def traverse (next : β → Ptr) (obs : β → List ε) (h : Store β) (p : Ptr) : Option (List ε) :=
  match Loop.loop (Loop.logged (nextBody next h) fun current => (get h current).elim [] obs) (h.length + 1) (p, []) with
  | some (some (), log) => some log
  | _ => none

theorem traverse_eq_some {obs : β → List ε} {log : List ε} :
    traverse next obs h p = some log ↔
      Loop.Returns (Loop.logged (nextBody next h) fun current => (get h current).elim [] obs) (p, []) (some (), log) := by
  rw [Loop.logged_returns_iff_of_finite (pointers h) next_bounded, card_pointers, traverse]
  split
  · rename_i hl
    simp [hl]
  · rename_i hl
    simp only [reduceCtorEq, false_iff]
    exact hl log

theorem traverse_of_path {obs : β → List ε} (hp : Path next h p l none) :
    traverse next obs h p = some (l.flatMap fun x => obs x.2) := by
  rw [traverse_eq_some]
  suffices hlog : ∀ log, Loop.Returns (Loop.logged (nextBody next h) fun current => (get h current).elim [] obs)
      (p, log) (some (), log ++ l.flatMap fun x => obs x.2) from hlog []
  induction l generalizing p with
  | nil =>
    intro log
    obtain rfl := path_nil.1 hp
    have hend : nextBody next h none = .inr (some ()) := rfl
    apply Loop.Returns.of_exit
    rw [Loop.logged_of_exit hend]
    simp
  | cons x l ih =>
    intro log
    obtain ⟨a, b⟩ := x
    obtain ⟨rfl, hget, hrest⟩ := hp
    have hnext : nextBody next h (some a) = .inl (next b) := by simp only [nextBody, hget]
    refine Loop.Returns.of_next (Loop.logged_of_next hnext) ?_
    have hobs := ih hrest (log ++ obs b)
    simpa [hget] using hobs

/-- The loop does not come to the end of a list whose head is not in use. -/
theorem traverse_of_not_live {obs : β → List ε} (ha : get h (some a) = none) : traverse next obs h (some a) = none := by
  by_contra hne
  obtain ⟨log, hlog⟩ := Option.ne_none_iff_exists'.1 hne
  rw [traverse_eq_some] at hlog
  have hexit : nextBody next h (some a) = .inr none := by simp only [nextBody, ha]
  cases hlog.unique (.of_exit (Loop.logged_of_exit hexit))

end LinkedList
