import CHell.Chat.PollRuns

/-!
# How large the table of the poll server gets

`fd_size` is 5 to begin with, doubled when a client comes and finds the table full, and never made smaller
(`add_to_pfds`, `multi-chat-v1.c:68-78`). So it is known from the history: the least of 5, 10, 20, … that holds the
listener and the clients of the moment when there were most (`poll_table_size`).
-/

namespace CHell.Chat

variable {listener : Fd} {tr es pre : List Call} {H H' : Finset Fd}

theorem HubStep.neutral_dropLast (h : HubStep listener H es H') : ∀ c ∈ es.dropLast, c.neutral = true := by
  cases h with
  | leave => simp [Call.neutral]
  | say =>
    intro c hc
    rcases List.mem_cons.1 (List.mem_of_mem_dropLast hc) with rfl | hc
    · rfl
    · exact neutral_of_mem_sends hc
  | _ => simp

/-- In a turn of the hub the connections change with the last call, if at all. -/
theorem HubStep.connected_prefix (h : HubStep listener (Chat.connected tr) es H) (hpre : pre <+: es) :
    pre = es ∨ Chat.connected (tr ++ pre) = Chat.connected tr := by
  have hneutral := h.neutral_dropLast
  obtain ⟨post, rfl⟩ := hpre
  cases post with
  | nil => exact .inl (List.append_nil pre).symm
  | cons c post =>
    refine .inr (connected_neutrals tr fun d hd => hneutral d ?_)
    rw [List.dropLast_append_cons]
    exact List.mem_append_left _ hd

/-- A table of `n` entries has been large enough at all times. -/
def Fits (tr : List Call) (n : Nat) : Prop := ∀ pre, pre <+: tr → (connected pre).card + 1 ≤ n

theorem HubStep.fits_append (h : HubStep listener (Chat.connected tr) es H) {n : Nat} :
    Fits (tr ++ es) n ↔ Fits tr n ∧ (Chat.connected (tr ++ es)).card + 1 ≤ n := by
  constructor
  · intro hfits
    exact ⟨fun pre hpre => hfits pre (hpre.trans (List.prefix_append tr es)), hfits _ (List.prefix_refl _)⟩
  · rintro ⟨hfits, hlast⟩ pre hpre
    rcases List.prefix_or_prefix_of_prefix hpre (List.prefix_append tr es) with hle | ⟨mid, rfl⟩
    · exact hfits pre hle
    · rcases h.connected_prefix ((List.prefix_append_right_inj tr).1 hpre) with rfl | heq
      · exact hlast
      · rw [heq]
        exact hfits tr (List.prefix_refl tr)

namespace Poll

variable {mem : Nat → Pollfd} {s s' : State} {a : Answer}

/-- The size after a step. -/
theorem step_fdSize (hs : step mem listener s a = some (s', es)) :
    s'.fdSize = s.fdSize ∨ s'.fdSize = s.fdSize * 2 ∧ s.fdCount = s.fdSize ∧ s'.fdCount = s.fdCount + 1 := by
  rcases step_cases hs with ⟨-, -, rfl, -⟩ | ⟨-, rev, -, -, rfl, -⟩ | ⟨i, -, -, s1, hscan, rfl⟩ | ⟨i, -, -, rfl, -⟩
  · exact .inl rfl
  · exact .inl rfl
  · obtain ⟨e, -, hcase⟩ := scanEntry_cases hscan
    rcases hcase with ⟨-, rfl, -⟩ | ⟨-, -, -, rfl, -⟩ | ⟨-, -, newfd, -, hadd, -⟩ | ⟨-, -, bytes, -, -, rfl, -⟩ |
      ⟨-, -, -, hdel, -⟩
    · exact .inl rfl
    · exact .inl rfl
    · simp only [addToPfds, growPfds, Option.bind_eq_bind, Option.bind_eq_some_iff] at hadd
      obtain ⟨s2, hgrow, e', -, hadd⟩ := hadd
      cases hadd
      split at hgrow
      · rename_i hfull
        split at hgrow
        · cases hgrow
          exact .inr ⟨rfl, hfull, rfl⟩
        · cases hgrow
      · cases hgrow
        exact .inl rfl
    · exact .inl rfl
    · unfold delFromPfds at hdel
      split at hdel
      · obtain ⟨last, -, rfl⟩ := Option.map_eq_some_iff.1 hdel
        exact .inl rfl
      · cases hdel
  · exact .inl rfl

/-- The size is the least that has been large enough. -/
structure Grown (tr : List Call) (fdSize : Nat) : Prop where
  doubled : ∃ k, fdSize = 5 * 2 ^ k
  fits : Fits tr fdSize
  least : ∀ k, Fits tr (5 * 2 ^ k) → fdSize ≤ 5 * 2 ^ k

theorem grown_start : Grown [] 5 := by
  refine ⟨⟨0, rfl⟩, ?_, ?_⟩
  · intro pre hpre
    obtain rfl := List.prefix_nil.1 hpre
    decide
  · intro k _
    exact Nat.le_mul_of_pos_right 5 (Nat.two_pow_pos k)

theorem Grown.step (h : Grown tr s.fdSize) (ht : Table listener tr s) (ht' : Table listener (tr ++ es) s')
    (hstep : HubStep listener (connected tr) es H) (hs : Poll.step mem listener s a = some (s', es)) :
    Grown (tr ++ es) s'.fdSize := by
  obtain ⟨⟨k, hk⟩, hfits, hleast⟩ := h
  have hcount := ht.count
  have hcount' := ht'.count
  have hle' := ht'.shape.le
  rcases step_fdSize hs with hsame | ⟨hdouble, hfull, hmore⟩
  · rw [hsame] at hle' ⊢
    refine ⟨⟨k, hk⟩, hstep.fits_append.2 ⟨hfits, by omega⟩, ?_⟩
    intro j hj
    exact hleast j (hstep.fits_append.1 hj).1
  · refine ⟨⟨k + 1, by rw [hdouble, hk, Nat.pow_succ, Nat.mul_assoc]⟩, hstep.fits_append.2 ⟨?_, by omega⟩, ?_⟩
    · intro pre hpre
      exact (hfits pre hpre).trans (by omega)
    · intro j hj
      -- one entry more than `5 * 2 ^ k`
      have hlast := (hstep.fits_append.1 hj).2
      have hlt : 2 ^ k < 2 ^ j := by omega
      have hpow : 2 ^ (k + 1) ≤ 2 ^ j := Nat.pow_le_pow_right (by decide) ((Nat.pow_lt_pow_iff_right (by decide)).1 hlt)
      rw [Nat.pow_succ] at hpow
      omega

/-- **The size of the table is known from the history.** In every run: `fd_size` is 5, doubled some number of times;
there was always room for the listener and the clients; and no smaller size of this kind would have done. -/
theorem poll_table_size (hrun : Reactive.Run (Poll.step mem listener) (fun _ _ _ => True) (start mem listener) tr s)
    (hf : Reactive.Always (AcceptFresh listener) tr) :
    (∃ k, s.fdSize = 5 * 2 ^ k) ∧ Fits tr s.fdSize ∧ ∀ k, Fits tr (5 * 2 ^ k) → s.fdSize ≤ 5 * 2 ^ k := by
  have hboth : Table listener tr s ∧ Grown tr s.fdSize := by
    refine hrun.invariant_of_always (fun tr s => Table listener tr s ∧ Grown tr s.fdSize) ?_ ?_ hf
    · exact ⟨table_start, grown_start⟩
    · intro tr s a s' es ih hf' _ hs
      obtain ⟨⟨H, hstep⟩, htable⟩ := step_table ih.1 hf' hs
      exact ⟨htable, ih.2.step ih.1 htable hstep hs⟩
  exact ⟨hboth.2.doubled, hboth.2.fits, hboth.2.least⟩

/-- Five clients come, one in each pass. -/
def fiveClients : List Answer :=
  (List.range 5).flatMap fun j =>
    { poll := some fun k => if k = 0 then 1 else 0 } :: { accept := some (4 + j) } :: List.replicate (j + 2) {}

theorem poll_table_size_five : ∃ s tr, Reactive.Run (Poll.step zeroMem 3) (fun _ _ _ => True) (start zeroMem 3) tr s ∧
    (connected tr).card = 5 ∧ s.fdSize = 10 ∧ ¬ Fits tr (5 * 2 ^ 0) := by
  obtain ⟨s, hexec⟩ : ∃ s, Reactive.exec (Poll.step zeroMem 3) (start zeroMem 3) fiveClients = some
      (s, [.poll [(3, 1)], .accept (some 4), .poll [(3, 1), (4, 0)], .accept (some 5),
        .poll [(3, 1), (4, 0), (5, 0)], .accept (some 6), .poll [(3, 1), (4, 0), (5, 0), (6, 0)], .accept (some 7),
        .poll [(3, 1), (4, 0), (5, 0), (6, 0), (7, 0)], .accept (some 8)]) := ⟨_, rfl⟩
  have hrun := Reactive.Run.exec (fun _ _ _ => trivial) .start hexec
  have hsize : s.fdSize = 10 := by
    cases hexec
    rfl
  refine ⟨_, _, hrun, by decide, hsize, fun hfits => ?_⟩
  have hle := (poll_table_size hrun (by simp [Reactive.always_cons, AcceptFresh, connected])).2.2 0 hfits
  rw [hsize] at hle
  exact absurd hle (by decide)

end Poll

end CHell.Chat
