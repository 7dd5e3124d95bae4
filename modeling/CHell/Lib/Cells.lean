import CHell.Lib.LinkedList
import Mathlib.Data.Finset.Card
import Mathlib.Data.Finset.Filter

/-!
# Which cells are in use

`live h` are the addresses that were handed out and not freed since. A write does not change them, `malloc` adds one and
`free` takes one away. So it is enough to count: a list that has as many nodes as there are cells in use has all of them
(`Path.live_eq`), and none is lost.
-/

namespace Heap

variable {β : Type*} {h h' : Store β} {p : Ptr} {a : Nat} {b : β}

def live (h : Store β) : Finset Nat := (Finset.range h.length).filter fun a => (get h (some a)).isSome

theorem mem_live : a ∈ live h ↔ ∃ b, get h (some a) = some b := by
  rw [live, Finset.mem_filter, Finset.mem_range, Option.isSome_iff_exists]
  exact and_iff_right_of_imp fun ⟨b, hb⟩ => lt_of_get hb

theorem live_congr (he : ∀ a, (get h' (some a)).isSome = (get h (some a)).isSome) : live h' = live h := by
  ext a
  rw [mem_live, mem_live, ← Option.isSome_iff_exists, ← Option.isSome_iff_exists, he]

theorem live_modify {f : β → β} (hm : modify h p f = some h') : live h' = live h := by
  obtain ⟨b, hb, -⟩ := Option.bind_eq_some_iff.1 hm
  obtain ⟨a, rfl, -⟩ := get_eq_some.1 hb
  rw [modify_of_get hb] at hm
  cases hm
  refine live_congr fun a' => ?_
  by_cases ha : a' = a
  · rw [ha, get_set_self hb, hb]
    rfl
  · rw [get_set_ne _ ha]

theorem addr_notMem_live (m : Allocator β) (h : Store β) : m.addr h ∉ live h := by
  rw [mem_live]
  rintro ⟨b, hb⟩
  exact ne_addr_of_get hb rfl

theorem live_alloc (m : Allocator β) (h : Store β) : live (alloc m h) = insert (m.addr h) (live h) := by
  ext a
  rw [Finset.mem_insert, mem_live, mem_live]
  by_cases ha : a = m.addr h
  · exact iff_of_true ⟨_, ha ▸ get_alloc_self m h⟩ (.inl ha)
  · rw [get_alloc_ne m ha, or_iff_right ha]

theorem card_live_alloc (m : Allocator β) (h : Store β) : (live (alloc m h)).card = (live h).card + 1 := by
  rw [live_alloc, Finset.card_insert_of_notMem (addr_notMem_live m h)]

theorem live_free (hf : free h (some a) = some h') : a ∈ live h ∧ live h' = (live h).erase a := by
  obtain ⟨b, hb⟩ : ∃ b, get h (some a) = some b := by
    match hc : h[a]? with
    | some (.live b) => exact ⟨b, get_some_iff.2 hc⟩
    | some .freed => simp [free, hc] at hf
    | none => simp [free, hc] at hf
  rw [free_of_get hb] at hf
  cases hf
  refine ⟨mem_live.2 ⟨b, hb⟩, ?_⟩
  ext a'
  rw [Finset.mem_erase, mem_live, mem_live]
  by_cases ha : a' = a
  · rw [ha, get_set_freed]
    simp
  · rw [get_set_ne _ ha, and_iff_right ha]

theorem card_live_free (hf : free h (some a) = some h') : (live h').card + 1 = (live h).card := by
  obtain ⟨hmem, hlive⟩ := live_free hf
  rw [hlive, Finset.card_erase_add_one hmem]

end Heap

namespace LinkedList

open Heap

variable {β : Type*} {next : β → Ptr} {h : Store β} {p : Ptr} {l : List (Nat × β)}

theorem Path.subset_live (hp : Path next h p l none) : (l.map Prod.fst).toFinset ⊆ live h := by
  intro a ha
  obtain ⟨x, hx, rfl⟩ := List.mem_map.1 (List.mem_toFinset.1 ha)
  exact mem_live.2 ⟨x.2, hp.get_of_mem hx⟩

theorem Path.card_eq (hp : Path next h p l none) : (l.map Prod.fst).toFinset.card = l.length := by
  rw [List.toFinset_card_of_nodup hp.nodup, List.length_map]

/-- **A list that is long enough has all cells in use.** -/
theorem Path.live_eq (hp : Path next h p l none) (hcard : (live h).card = l.length) :
    live h = (l.map Prod.fst).toFinset :=
  (Finset.eq_of_subset_of_card_le hp.subset_live (by rw [hcard, hp.card_eq])).symm

/-- What the list does not have is lost. -/
theorem Path.card_lost (hp : Path next h p l none) :
    (live h \ (l.map Prod.fst).toFinset).card + l.length = (live h).card := by
  rw [← hp.card_eq, Finset.card_sdiff_add_card_eq_card hp.subset_live]

/-- The walk to a node ends at one that does not meet the condition. -/
theorem seek_stops {cond : β → Option Bool} {q : Ptr} (hs : seek next h cond p = some q) :
    ∃ b, get h q = some b ∧ cond b = some false := by
  obtain ⟨s, hexit⟩ := (seek_eq_some.1 hs).exists_exit
  unfold seekBody at hexit
  split at hexit
  · cases hexit
  · rename_i b hb
    split at hexit
    · cases hexit
    · cases hexit
    · rename_i hcond
      cases hexit
      exact ⟨b, hb, hcond⟩

/-- The walk to a node reads the first one. -/
theorem seek_of_not_live {cond : β → Option Bool} (ha : get h p = none) : seek next h cond p = none := by
  by_contra hne
  obtain ⟨q, hq⟩ := Option.ne_none_iff_exists'.1 hne
  rw [seek_eq_some] at hq
  have hexit : seekBody next h cond p = .inr none := by simp only [seekBody, ha]
  cases hq.unique (.of_exit hexit)

theorem get_of_live_empty (he : live h = ∅) : get h p = none := by
  by_contra hne
  obtain ⟨b, hb⟩ := Option.ne_none_iff_exists'.1 hne
  obtain ⟨a, rfl, -⟩ := get_eq_some.1 hb
  have hmem : a ∈ live h := mem_live.2 ⟨b, hb⟩
  simp [he] at hmem

end LinkedList
