import CHell.Lib.Cells
import CHell.Lib.Reactive
import CHell.Lists.Fifo
import CHell.Lists.Filo
import CHell.Lists.V2

/-!
# What becomes of the cells the lists are made of

In any run of the queue the cells in use are the nodes of the list, no more and no less (`fifo_cells`). In a run of
the stack they are, too, until the only node is removed; from then on no cell is in use, and every call dereferences
the freed one (`filo_cells`). Each `push` of `lnk_list_v2.c` loses the cell it has got from `malloc`
(`pushes_lose`).
-/

namespace CHell.Lists

open Heap LinkedList

variable {m : Allocator Player} {h h' : Store Player} {player : Ptr} {q : List (String × Int)}

/-- The cells in use are the nodes of the list, which ends. -/
def Owned (h : Store Player) (player : Ptr) : Prop :=
  ∃ l, Path Player.players h player l none ∧ live h = (l.map Prod.fst).toFinset

/-- The list has an element for each cell in use. -/
def Counted (h : Store Player) (player : Ptr) (q : List (String × Int)) : Prop :=
  Holds h player q ∧ (live h).card = q.length

theorem Counted.owned (hc : Counted h player q) : Owned h player := by
  obtain ⟨⟨l, hl, rfl⟩, hcard⟩ := hc
  exact ⟨l, hl, hl.live_eq (by rw [hcard, List.length_map])⟩

theorem live_modifyNext {current : Ptr} {f : Player → Player} (hm : modifyNext h current f = some h') :
    live h' = live h := by
  obtain ⟨c, -, hm⟩ := Option.bind_eq_some_iff.1 hm
  exact live_modify hm

theorem card_live_append {writes : List (Player → Player)} (ha : append m h player writes = some h') :
    (live h').card = (live h).card + 1 := by
  obtain ⟨current, -, ha⟩ := Option.bind_eq_some_iff.1 ha
  obtain ⟨h1, hm, hw⟩ := Option.bind_eq_some_iff.1 ha
  have hwrites : ∀ (writes : List (Player → Player)) {h1 : Store Player},
      writes.foldlM (fun h f => modifyNext h current f) h1 = some h' → live h' = live h1 := by
    intro writes
    induction writes with
    | nil =>
      intro h1 hw
      cases hw
      rfl
    | cons f writes ih =>
      intro h1 hw
      rw [List.foldlM_cons] at hw
      obtain ⟨h2, hf, hw⟩ := Option.bind_eq_some_iff.1 hw
      rw [ih hw, live_modifyNext hf]
  rw [hwrites writes hw, live_modify hm, card_live_alloc]

theorem start_counted {s : State} (hs : start m = some s) : Counted s.heap s.player [("Humanz", 10)] := by
  obtain ⟨s', hs', hq⟩ := start_holds m
  obtain rfl := Option.some.inj (hs.symm.trans hs')
  refine ⟨hq, ?_⟩
  obtain ⟨h1, h1m, hs⟩ := Option.bind_eq_some_iff.1 hs
  obtain ⟨h2, h2m, hs⟩ := Option.bind_eq_some_iff.1 hs
  obtain ⟨h3, h3m, hs⟩ := Option.bind_eq_some_iff.1 hs
  cases hs
  rw [live_modify h3m, live_modify h2m, live_modify h1m, card_live_alloc]
  rfl

theorem Counted.append (hc : Counted h player q) (hne : q ≠ []) {writes : List (Player → Player)} {name : String}
    {level : Int} (hw : ∀ d, writes.foldl (fun d f => f d) d = ⟨name, level, none⟩)
    (ha : append m h player writes = some h') : Counted h' player (q ++ [(name, level)]) := by
  obtain ⟨h1, ha1, hq⟩ := append_holds m hc.1 hne hw
  obtain rfl := Option.some.inj (ha.symm.trans ha1)
  exact ⟨hq, by rw [card_live_append ha, hc.2, List.length_append, List.length_singleton]⟩

/-! ## The queue -/

theorem pop_counted (hc : Counted h player q) :
    ∃ h' player' lvl, Fifo.pop h player = some (h', player', lvl) ∧ Counted h' player' q.tail := by
  obtain ⟨h', player', lvl, hpop, hq', -⟩ := Fifo.pop_holds hc.1
  refine ⟨h', player', lvl, hpop, hq', ?_⟩
  have hcard := hc.2
  unfold Fifo.pop at hpop
  split at hpop
  · rename_i hnull
    cases hpop
    obtain ⟨l, hl, rfl⟩ := hc.1
    cases l with
    | nil => exact hcard
    | cons x l => exact absurd (hl.1.symm.trans hnull) (by simp)
  · obtain ⟨p, hp, hpop⟩ := Option.bind_eq_some_iff.1 hpop
    obtain ⟨h1, hfree, hpop⟩ := Option.bind_eq_some_iff.1 hpop
    cases hpop
    obtain ⟨a, rfl, -⟩ := get_eq_some.1 hp
    have hless := card_live_free hfree
    rw [List.length_tail]
    omega

/-- **The queue neither loses nor keeps a cell.** In every run the cells in use are the nodes of the list. -/
theorem fifo_cells {s₀ s : State} {tr : List Int} (h0 : start m = some s₀)
    (hrun : Reactive.Run (Fifo.step m) (fun _ _ _ => True) s₀ tr s) : Owned s.heap s.player := by
  obtain ⟨q, hc⟩ : ∃ q, Counted s.heap s.player q := by
    refine hrun.invariant (fun _ s => ∃ q, Counted s.heap s.player q) ⟨_, start_counted h0⟩ ?_
    rintro - s op s' es ⟨q, hc⟩ - hstep
    cases op with
    | push name level =>
      obtain ⟨h', hpush, hstep⟩ := Option.bind_eq_some_iff.1 hstep
      cases hstep
      have hne : q ≠ [] := by
        rintro rfl
        obtain ⟨l, hl, hnil⟩ := hc.1
        rw [List.map_eq_nil_iff] at hnil
        subst hnil
        rw [path_nil.1 hl, Fifo.push_null] at hpush
        cases hpush
      exact ⟨_, hc.append hne (fun _ => rfl) hpush⟩
    | pop =>
      obtain ⟨h', player', lvl, hpop, hc'⟩ := pop_counted hc
      simp only [Fifo.step, hpop, Option.bind_eq_bind, Option.bind_some] at hstep
      cases hstep
      exact ⟨_, hc'⟩
  exact hc.owned

/-- Kano comes, and Humanz goes. -/
theorem fifo_cells_kano : Owned [.freed, .live ⟨"Kano", 20, none⟩] (some 1) := by
  have h0 : start (bump ⟨"", 0, none⟩) = some ⟨[.live ⟨"Humanz", 10, none⟩], some 0⟩ := rfl
  have hpush : Fifo.step (bump ⟨"", 0, none⟩) ⟨[.live ⟨"Humanz", 10, none⟩], some 0⟩ (.push "Kano" 20) =
      some (⟨[.live ⟨"Humanz", 10, some 1⟩, .live ⟨"Kano", 20, none⟩], some 0⟩, []) := rfl
  have hpop : Fifo.step (bump ⟨"", 0, none⟩)
      ⟨[.live ⟨"Humanz", 10, some 1⟩, .live ⟨"Kano", 20, none⟩], some 0⟩ .pop =
      some (⟨[.freed, .live ⟨"Kano", 20, none⟩], some 1⟩, [10]) := rfl
  exact fifo_cells h0 (.next (.next .start trivial hpush) trivial hpop)

/-! ## The stack -/

theorem card_live_removeLazt (hst : Holds h player q) {r : Int} (hr : Filo.removeLazt h player = some (h', r)) :
    (live h').card + 1 = (live h).card := by
  obtain ⟨p, hp, hr⟩ := Option.bind_eq_some_iff.1 hr
  obtain ⟨a, rfl, -⟩ := get_eq_some.1 hp
  split at hr
  · obtain ⟨h1, hfree, hr⟩ := Option.bind_eq_some_iff.1 hr
    cases hr
    exact card_live_free hfree
  · rename_i hmore
    obtain ⟨current, hseek, hr⟩ := Option.bind_eq_some_iff.1 hr
    obtain ⟨c, hc, hr⟩ := Option.bind_eq_some_iff.1 hr
    obtain ⟨h1, hfree, hr⟩ := Option.bind_eq_some_iff.1 hr
    obtain ⟨h2, hm, hr⟩ := Option.bind_eq_some_iff.1 hr
    cases hr
    -- where the walk stops there is a next node
    have hnext : c.players ≠ none := by
      intro hnull
      obtain ⟨c', hc', hstop⟩ := seek_stops hseek
      obtain rfl := Option.some.inj (hc.symm.trans hc')
      rw [hnull, get_null] at hstop
      cases hstop
    obtain ⟨a', ha'⟩ := Option.ne_none_iff_exists'.1 hnext
    rw [ha'] at hfree
    rw [live_modify hm]
    exact card_live_free hfree

theorem removeLazt_counted {st : List (String × Int)} (hc : Counted h player st) (hne : st ≠ []) :
    ∃ h', Filo.removeLazt h player = some (h', 0) ∧ (live h').card + 1 = st.length ∧
      (st.length = 1 ∨ Counted h' player st.dropLast ∧ st.dropLast ≠ []) := by
  by_cases hlen : st.length = 1
  · obtain ⟨e, rfl⟩ := List.length_eq_one_iff.1 hlen
    obtain ⟨h', a, hremove, -, -⟩ := Filo.removeLazt_single hc.1
    exact ⟨h', hremove, (card_live_removeLazt hc.1 hremove).trans hc.2, .inl hlen⟩
  · obtain ⟨st, e, e', rfl⟩ := Filo.exists_two_last hne hlen
    obtain ⟨h', hremove, hst'⟩ := Filo.removeLazt_holds hc.1
    have hcard := (card_live_removeLazt hc.1 hremove).trans hc.2
    have hdrop : (st ++ [e, e']).dropLast = st ++ [e] := by rw [List.append_cons, List.dropLast_concat]
    refine ⟨h', hremove, hcard, .inr ⟨⟨by rw [hdrop]; exact hst', ?_⟩, by rw [hdrop]; simp⟩⟩
    simp only [List.length_append, List.length_cons, List.length_nil] at hcard
    rw [hdrop, List.length_append, List.length_singleton]
    omega

/-- **The stack loses no cell, but its caller may hold a freed one.** In every run the cells in use are the nodes of the
list, or there are none, the pointer is not NULL, and any further call reads a freed cell. -/
theorem filo_cells {s₀ s : State} {tr : List Int} (h0 : start m = some s₀)
    (hrun : Reactive.Run (Filo.step m) (fun _ _ _ => True) s₀ tr s) :
    Owned s.heap s.player ∨
      live s.heap = ∅ ∧ s.player ≠ none ∧ ∀ op, Filo.step m s op = none := by
  have hdead : ∀ {s : State}, live s.heap = ∅ → ∀ op, Filo.step m s op = none := by
    intro s hlive op
    have hget := get_of_live_empty (p := s.player) hlive
    cases op with
    | push name level => simp [Filo.step, Filo.push, Lists.append, seek_of_not_live hget]
    | removeLazt => simp [Filo.step, Filo.removeLazt, hget]
  have hcases : (∃ st, Counted s.heap s.player st ∧ st ≠ []) ∨ live s.heap = ∅ ∧ s.player ≠ none := by
    refine hrun.invariant (fun _ s => (∃ st, Counted s.heap s.player st ∧ st ≠ []) ∨ live s.heap = ∅ ∧ s.player ≠ none)
      (.inl ⟨_, start_counted h0, by simp⟩) ?_
    rintro - s op s' es hI - hstep
    rcases hI with ⟨st, hc, hne⟩ | ⟨hlive, -⟩
    · cases op with
      | push name level =>
        obtain ⟨h', hpush, hstep⟩ := Option.bind_eq_some_iff.1 hstep
        cases hstep
        exact .inl ⟨_, hc.append hne (fun _ => rfl) hpush, by simp⟩
      | removeLazt =>
        obtain ⟨h', hremove, hcard, hnext⟩ := removeLazt_counted hc hne
        simp only [Filo.step, hremove, Option.bind_eq_bind, Option.bind_some] at hstep
        cases hstep
        rcases hnext with hone | ⟨hc', hne'⟩
        · have hzero : (live h').card = 0 := by omega
          refine .inr ⟨Finset.card_eq_zero.1 hzero, ?_⟩
          obtain ⟨e, rfl⟩ := List.length_eq_one_iff.1 hone
          obtain ⟨h1, a, -, ha, -⟩ := Filo.removeLazt_single hc.1
          simp [ha]
        · exact .inl ⟨_, hc', hne'⟩
    · rw [hdead hlive] at hstep
      cases hstep
  rcases hcases with ⟨st, hc, -⟩ | ⟨hlive, hplayer⟩
  · exact .inl hc.owned
  · exact .inr ⟨hlive, hplayer, hdead hlive⟩

/-- Humanz is removed, and was the only one. -/
theorem filo_cells_emptied : Owned [.freed] (some 0) ∨
    live ([.freed] : Store Player) = ∅ ∧ (some 0 : Ptr) ≠ none ∧
      ∀ op, Filo.step (bump ⟨"", 0, none⟩) ⟨[.freed], some 0⟩ op = none := by
  have h0 : start (bump ⟨"", 0, none⟩) = some ⟨[.live ⟨"Humanz", 10, none⟩], some 0⟩ := rfl
  have hremove : Filo.step (bump ⟨"", 0, none⟩) ⟨[.live ⟨"Humanz", 10, none⟩], some 0⟩ .removeLazt =
      some (⟨[.freed], some 0⟩, [0]) := rfl
  exact filo_cells h0 (.next .start trivial hremove)

/-! ## The list that loses cells -/

namespace V2

variable {m : Allocator Player} {h h' : Store Player} {user : Ptr} {q : List (String × Int)}

theorem card_live_push {name : String} {level : Int} (hp : push m h user name level = some h') :
    (live h').card = (live h).card + 1 := by
  obtain ⟨current, -, hp⟩ := Option.bind_eq_some_iff.1 hp
  obtain ⟨h1, h1m, hp⟩ := Option.bind_eq_some_iff.1 hp
  obtain ⟨h2, h2m, hp⟩ := Option.bind_eq_some_iff.1 hp
  obtain ⟨h3, h3m, hp⟩ := Option.bind_eq_some_iff.1 hp
  rw [live_modify hp, live_modify h3m, live_modify h2m, live_modify h1m, card_live_alloc]

/-- Call after call of `push`. -/
def pushes (m : Allocator Player) (h : Store Player) (user : Ptr) (es : List (String × Int)) : Option (Store Player) :=
  es.foldlM (fun h e => push m h user e.1 e.2) h

/-- **Every push loses a cell.** However many elements are pushed to a non-empty list that ends with NULL, there is
never more than the last of them in it, in the place of the element that was the last before, and as many cells are
in use that the list does not have, on top of those it did not have before. -/
theorem pushes_lose (m : Allocator Player) {l : List (Nat × Player)} (hl : Path Player.next h user l none)
    (hne : l ≠ []) (es : List (String × Int)) :
    ∃ h' l', pushes m h user es = some h' ∧ Path Player.next h' user l' none ∧
      l'.map (fun x => (x.2.name, x.2.level)) =
        es.getLast?.elim (l.map fun x => (x.2.name, x.2.level))
          (fun e => (l.map fun x => (x.2.name, x.2.level)).dropLast ++ [e]) ∧
      (live h' \ (l'.map Prod.fst).toFinset).card = (live h \ (l.map Prod.fst).toFinset).card + es.length := by
  induction es generalizing h l with
  | nil => exact ⟨h, l, rfl, hl, rfl, rfl⟩
  | cons e es ih =>
    have hmap : (l.map fun x => (x.2.name, x.2.level)) ≠ [] := by simpa using hne
    obtain ⟨h1, hpush, ⟨l1, hl1, hq1⟩, -⟩ := push_holds m ⟨l, hl, rfl⟩ hmap e.1 e.2
    have hlen : l1.length = l.length := by
      have hlen1 := congrArg List.length hq1
      have hpos := List.length_pos_iff.2 hne
      simp only [List.length_map, List.length_append, List.length_dropLast, List.length_singleton] at hlen1
      omega
    have hne1 : l1 ≠ [] := by
      rintro rfl
      exact hne (List.length_eq_zero_iff.1 hlen.symm)
    obtain ⟨h', l', hpushes, hl', hq', hlost⟩ := ih hl1 hne1
    refine ⟨h', l', ?_, hl', ?_, ?_⟩
    · rw [pushes, List.foldlM_cons, hpush]
      exact hpushes
    · rw [hq', hq1]
      cases es with
      | nil => rfl
      | cons e' es =>
        rw [List.getLast?_cons_cons]
        cases hlast : (e' :: es).getLast? with
        | none => simp at hlast
        | some last => rw [Option.elim_some, Option.elim_some, List.dropLast_concat]
    · have hlost1 := hl1.card_lost
      have hlost0 := hl.card_lost
      rw [card_live_push hpush] at hlost1
      rw [hlost, List.length_cons]
      omega

/-- Two pushes to the list of `main`, had it ended with NULL. -/
theorem pushes_lose_two : ∃ h' l', pushes (bump ⟨"", 0, none⟩) [.live ⟨"Humanz", 10, none⟩] (some 0)
      [("Kano", 20), ("Humanz", 10)] = some h' ∧ Path Player.next h' (some 0) l' none ∧
    l'.map (fun x => (x.2.name, x.2.level)) = [("Humanz", 10)] ∧
    (live h' \ (l'.map Prod.fst).toFinset).card = 2 := by
  have hl : Path Player.next [.live ⟨"Humanz", 10, none⟩] (some 0) [(0, ⟨"Humanz", 10, none⟩)] none := ⟨rfl, rfl, rfl⟩
  obtain ⟨h', l', hpushes, hl', hcontent, hlost⟩ := pushes_lose (bump ⟨"", 0, none⟩) hl (by simp)
    [("Kano", 20), ("Humanz", 10)]
  exact ⟨h', l', hpushes, hl', hcontent, hlost⟩

end V2

end CHell.Lists
