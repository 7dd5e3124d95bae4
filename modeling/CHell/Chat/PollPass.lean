import CHell.Chat.PollRuns

/-!
# One pass of the poll server

The pass goes through the table while `del_from_pfds` moves its last entry to the place of a client
that hung up, where the loop has been already: there is no `i--`. So an entry `poll` marked is served,
once, unless it is moved like that before its turn (`poll_pass_iff`).
-/

namespace CHell.Chat.Poll

variable {mem : Nat → Pollfd} {listener : Fd} {s s' : State} {fd : Fd} {i : Nat}

/-- The descriptors `poll` reported readable. -/
def marked (entries : List (Fd × Nat)) : List Fd := (entries.filter fun p => p.2 &&& POLLIN ≠ 0).map Prod.fst

/-- The step drops a client, and moves the entry of `fd`, the last one, from ahead of the loop to where
the loop is. -/
def MovesBack (listener : Fd) (fd : Fd) (s : State) (a : Answer) : Prop :=
  ∃ i e last, s.pc = .scan i ∧ i + 1 < s.fdCount ∧ s.pfds[i]? = some e ∧ e.readable = true ∧ e.fd ≠ listener ∧
    (a.recv = none ∨ a.recv = some []) ∧ s.pfds[s.fdCount - 1]? = some last ∧ last.fd = fd

/-! ## Where an entry is -/

/-- The entry of `fd` is marked and ahead: its turn is at `i` or later. -/
def Waiting (fd : Fd) (s : State) (i : Nat) : Prop :=
  ∃ k e, i ≤ k ∧ k < s.fdCount ∧ s.pfds[k]? = some e ∧ e.fd = fd ∧ e.readable = true

/-- No entry from `i` on is that of `fd`. -/
def Past (fd : Fd) (s : State) (i : Nat) : Prop :=
  ∀ k e, i ≤ k → k < s.fdCount → s.pfds[k]? = some e → e.fd ≠ fd

theorem Table.index_unique {tr : List Call} (h : Table listener tr s) {k l : Nat} {e e' : Pollfd}
    (hk : k < s.fdCount) (he : s.pfds[k]? = some e) (hl : l < s.fdCount) (he' : s.pfds[l]? = some e')
    (hfd : e.fd = e'.fd) : k = l := by
  obtain ⟨cs, hcs, hnd, -⟩ := h.listed
  have hk' := getElem_fds hk he
  have hl' := getElem_fds hl he'
  rw [← hcs] at hnd
  obtain ⟨hk', hgetk⟩ := List.getElem?_eq_some_iff.1 hk'
  obtain ⟨hl', hgetl⟩ := List.getElem?_eq_some_iff.1 hl'
  exact (hnd.getElem_inj_iff).1 (by rw [hgetk, hgetl, hfd])

theorem Table.index_listener {tr : List Call} (h : Table listener tr s) {k : Nat} {e : Pollfd} (hk : k < s.fdCount)
    (he : s.pfds[k]? = some e) (hfd : e.fd = listener) : k = 0 := by
  obtain ⟨cs, hcs, hnd, -⟩ := h.listed
  have hk' := getElem_fds hk he
  rw [hcs, hfd] at hk'
  cases k with
  | zero => rfl
  | succ k =>
    rw [List.getElem?_cons_succ] at hk'
    exact absurd (List.mem_of_getElem? hk') (List.nodup_cons.1 hnd).1

theorem Table.fresh {tr : List Call} (h : Table listener tr s) {newfd : Fd}
    (hf : AcceptFresh listener tr (.accept (some newfd))) {k : Nat} {e : Pollfd} (hk : k < s.fdCount)
    (he : s.pfds[k]? = some e) : e.fd ≠ newfd := by
  obtain ⟨hl, hn⟩ := hf newfd rfl
  obtain ⟨cs, hcs, -, hmem⟩ := h.listed
  have hk' := List.mem_of_getElem? (getElem_fds hk he)
  rw [hcs] at hk'
  rintro rfl
  rcases List.mem_cons.1 hk' with heq | hmem'
  · exact hl heq
  · exact hn ((hmem e.fd).1 hmem')

/-! ## One round of the loop -/

theorem scanEntry_served {a : Answer} {es : List Call} (hscan : scanEntry mem listener i s a = some (s', es)) :
    ∃ e, s.pfds[i]? = some e ∧ served listener es = if e.readable then [e.fd] else [] := by
  obtain ⟨e, he, hcase⟩ := scanEntry_cases hscan
  refine ⟨e, he, ?_⟩
  rcases hcase with ⟨hr, -, rfl⟩ | ⟨hr, rfl, -, -, rfl⟩ | ⟨hr, rfl, newfd, -, -, rfl⟩ | ⟨hr, -, bytes, -, -, -, rfl⟩ |
    ⟨hr, -, -, -, rfl⟩
  · simp [hr]
  · simp [hr, served, Call.serves]
  · simp [hr, served, Call.serves]
  · have hserved : served listener (.recv e.fd (some bytes) :: sends bytes (relayTo listener e.fd s)) =
        e.fd :: served listener (sends bytes (relayTo listener e.fd s)) := rfl
    rw [hserved, served_sends, hr, if_pos rfl]
  · simp [hr, served, Call.serves]

/-- What is behind the round's index stays there, except that the last entry goes when one is dropped; a new one
comes at the end. -/
theorem Past.round {a : Answer} {es : List Call} (hs : Shape s) (hi : i < s.fdCount)
    (hscan : scanEntry mem listener i s a = some (s', es)) (hnew : ∀ newfd, es = [.accept (some newfd)] → newfd ≠ fd)
    (hp : Past fd s (i + 1)) : Past fd s' (i + 1) := by
  obtain ⟨c, -, hcase⟩ := scanEntry_cases hscan
  intro k e hik hk he
  rcases hcase with ⟨-, rfl, -⟩ | ⟨-, -, -, rfl, -⟩ | ⟨-, -, newfd, -, hadd, rfl⟩ | ⟨-, -, bytes, -, -, rfl, -⟩ |
    ⟨-, -, -, hdel, -⟩
  · exact hp k e hik hk he
  · exact hp k e hik hk he
  · obtain ⟨-, hcount, -, -, hkeep, c', -, hlast⟩ := addToPfds_spec hs hadd
    by_cases hk' : k = s.fdCount
    · rw [hk', hlast] at he
      cases he
      exact hnew newfd rfl
    · rw [hkeep k (by omega)] at he
      exact hp k e hik (by omega) he
  · exact hp k e hik hk he
  · obtain ⟨-, -, hcount, -, hkeep, -⟩ := delFromPfds_spec hs hi hdel
    rw [hkeep k (by omega)] at he
    exact hp k e hik (by omega) he

theorem Past.not_movesBack (listener : Fd) (a : Answer) (hpc : s.pc = .scan i) (hp : Past fd s (i + 1)) :
    ¬ MovesBack listener fd s a := by
  rintro ⟨j, c, last, hj, hlt, -, -, -, -, hlast, hfd⟩
  rw [hpc] at hj
  cases hj
  exact hp (s.fdCount - 1) last (by omega) (by omega) hlast hfd

theorem MovesBack.round {a : Answer} {es : List Call} (hpc : s.pc = .scan i)
    (hscan : scanEntry mem listener i s a = some (s', es)) (h : MovesBack listener fd s a) :
    delFromPfds i s = some s' ∧ i + 1 < s.fdCount ∧ ∃ last, s.pfds[s.fdCount - 1]? = some last ∧ last.fd = fd := by
  obtain ⟨j, d, last, hj, hlt, hd, hr, hl, hrecv, hlast, hfd⟩ := h
  rw [hpc] at hj
  cases hj
  refine ⟨?_, hlt, last, hlast, hfd⟩
  obtain ⟨c, hc, hcase⟩ := scanEntry_cases hscan
  obtain rfl : c = d := Option.some.inj (hc.symm.trans hd)
  rcases hcase with ⟨hr', -⟩ | ⟨-, hl', -⟩ | ⟨-, hl', -⟩ | ⟨-, -, bytes, hb, hrecv', -⟩ | ⟨-, -, -, hdel, -⟩
  · rw [hr] at hr'
    cases hr'
  · exact absurd hl' hl
  · exact absurd hl' hl
  · rw [hrecv'] at hrecv
    simp [hb] at hrecv
  · exact hdel

/-- A marked entry ahead of the round stays there, unless the round moves it back. -/
theorem Waiting.kept {es : List Call} {a : Answer} (hs : Shape s) (hpc : s.pc = .scan i)
    (hi : i < s.fdCount) (hscan : scanEntry mem listener i s a = some (s', es)) (hw : Waiting fd s (i + 1))
    (hmove : ¬ MovesBack listener fd s a) : Waiting fd s' (i + 1) := by
  obtain ⟨k, e, hik, hk, he, hfd, hr⟩ := hw
  obtain ⟨c, hc, hcase⟩ := scanEntry_cases hscan
  rcases hcase with ⟨-, rfl, -⟩ | ⟨-, -, -, rfl, -⟩ | ⟨-, -, newfd, -, hadd, -⟩ | ⟨-, -, bytes, -, -, rfl, -⟩ |
    ⟨hr', hl, hrecv, hdel, -⟩
  · exact ⟨k, e, hik, hk, he, hfd, hr⟩
  · exact ⟨k, e, hik, hk, he, hfd, hr⟩
  · obtain ⟨-, hcount, -, -, hkeep, -⟩ := addToPfds_spec hs hadd
    exact ⟨k, e, hik, by omega, (hkeep k hk).trans he, hfd, hr⟩
  · exact ⟨k, e, hik, hk, he, hfd, hr⟩
  · obtain ⟨-, -, hcount, -, hkeep, -⟩ := delFromPfds_spec hs hi hdel
    have hk' : k ≠ s.fdCount - 1 := by
      rintro rfl
      exact hmove ⟨i, c, e, hpc, by omega, hc, hr', hl, hrecv, he, hfd⟩
    exact ⟨k, e, hik, by omega, (hkeep k (by omega)).trans he, hfd, hr⟩

/-- What a round at `i` does about the entry of `fd`, marked and ahead: it serves it, or it leaves it ahead,
or, by dropping another client, it moves it back. -/
theorem Waiting.round {tr es : List Call} {a : Answer} (ht : Table listener tr s) (hpc : s.pc = .scan i)
    (hi : i < s.fdCount) (hf : Reactive.Always (AcceptFresh listener) (tr ++ es))
    (hscan : scanEntry mem listener i s a = some (s', es)) (hw : Waiting fd s i) :
    (served listener es = [fd] ∧ Past fd s' (i + 1) ∧ ¬ MovesBack listener fd s a) ∨
    (fd ∉ served listener es ∧ Waiting fd s' (i + 1) ∧ ¬ MovesBack listener fd s a) ∨
    (fd ∉ served listener es ∧ Past fd s' (i + 1) ∧ MovesBack listener fd s a) := by
  obtain ⟨k, e, hik, hk, he, hfd, hr⟩ := hw
  obtain ⟨c, hc, hserved⟩ := scanEntry_served hscan
  by_cases hki : k = i
  · -- the turn of the entry itself
    subst hki
    obtain rfl : e = c := Option.some.inj (he.symm.trans hc)
    have hpast : Past fd s (k + 1) := by
      intro l d hl hlt hd hdfd
      have := ht.index_unique hk he hlt hd (hfd.trans hdfd.symm)
      omega
    have hnew : ∀ newfd, es = [.accept (some newfd)] → newfd ≠ fd := by
      rintro newfd rfl
      have hfresh := (Reactive.always_cons.1 (Reactive.always_append.1 hf).2).1
      rw [List.append_nil] at hfresh
      rw [← hfd]
      exact (ht.fresh hfresh hk he).symm
    exact Or.inl ⟨by rw [hserved, hr, if_pos rfl, hfd], hpast.round ht.shape hi hscan hnew, hpast.not_movesBack listener a hpc⟩
  · -- the turn of another one
    have hne : c.fd ≠ fd := by
      intro hcfd
      have := ht.index_unique hk he hi hc (hfd.trans hcfd.symm)
      omega
    have hnot : fd ∉ served listener es := by
      rw [hserved]
      split <;> simp [Ne.symm hne]
    by_cases hmove : MovesBack listener fd s a
    · obtain ⟨hdel, hlt, last, hlast, hlastfd⟩ := hmove.round hpc hscan
      obtain ⟨-, -, hcount, -, hkeep, -⟩ := delFromPfds_spec ht.shape hi hdel
      refine Or.inr (Or.inr ⟨hnot, ?_, hmove⟩)
      intro l d hl hlt' hd hdfd
      rw [hkeep l (by omega)] at hd
      have := ht.index_unique (by omega) hd (by omega) hlast (hdfd.trans hlastfd.symm)
      omega
    · have hwait : Waiting fd s (i + 1) := ⟨k, e, by omega, hk, he, hfd, hr⟩
      exact Or.inr (Or.inl ⟨hnot, hwait.kept ht.shape hpc hi hscan hmove, hmove⟩)

theorem Table.no_accept {tr es : List Call} {a : Answer} (h : Table listener tr s) (h1 : 1 ≤ i) (hi : i < s.fdCount)
    (hscan : scanEntry mem listener i s a = some (s', es)) : ∀ r, Call.accept r ∉ es := by
  intro r hmem
  obtain ⟨c, hc, hserved⟩ := scanEntry_served hscan
  have hl : listener ∈ served listener es := List.mem_filterMap.2 ⟨_, hmem, rfl⟩
  rw [hserved] at hl
  split at hl
  · have := h.index_listener hi hc (List.mem_singleton.1 hl).symm
    omega
  · cases hl

theorem Past.unserved {tr es : List Call} {a : Answer} (ht : Table listener tr s) (h1 : 1 ≤ i) (hi : i < s.fdCount)
    (hscan : scanEntry mem listener i s a = some (s', es)) (hp : Past fd s i) :
    fd ∉ served listener es ∧ Past fd s' (i + 1) := by
  obtain ⟨c, hc, hserved⟩ := scanEntry_served hscan
  have hne := hp i c (Nat.le_refl i) hi hc
  have hlater : Past fd s (i + 1) := fun k e hik => hp k e (by omega)
  refine ⟨?_, hlater.round ht.shape hi hscan ?_⟩
  · rw [hserved]
    split <;> simp [Ne.symm hne]
  · rintro newfd rfl
    exact absurd List.mem_cons_self (ht.no_accept h1 hi hscan _)

/-! ## The pass -/

/-- One pass of `for (;;)`: `poll`, and the loop over the entries up to the next `poll`. -/
structure Pass (mem : Nat → Pollfd) (listener : Fd) (s : State) (is : List Answer) (entries : List (Fd × Nat))
    (calls : List Call) (s' : State) : Prop where
  before : s.pc = .poll
  exec : Reactive.exec (step mem listener) s is = some (s', .poll entries :: calls)
  no_poll : ∀ entries, .poll entries ∉ calls
  after : s'.pc = .poll

theorem nil_of_poll {is : List Answer} {calls : List Call} (hpc : s.pc = .poll)
    (he : Reactive.exec (step mem listener) s is = some (s', calls)) (hno : ∀ entries, .poll entries ∉ calls)
    (hend : s'.pc = .poll) : is = [] ∧ calls = [] := by
  cases is with
  | nil =>
    cases he
    exact ⟨rfl, rfl⟩
  | cons a is =>
    obtain ⟨s1, es, es', hstep, hrest, rfl⟩ := Reactive.exec_cons_eq_some.1 he
    rcases step_poll_cases hpc hstep with ⟨-, rfl, -⟩ | ⟨rev, -, -, -, rfl⟩
    · cases is with
      | nil =>
        cases hrest
        cases hend
      | cons a is => cases hrest
    · exact absurd List.mem_cons_self (hno _)

/-- At the test `i < fd_count`: the rest of the pass is the round at `i` and what follows it, or nothing. -/
theorem rest_cases {is : List Answer} {calls : List Call} (hpc : s.pc = .scan i)
    (he : Reactive.exec (step mem listener) s is = some (s', calls)) (hno : ∀ entries, .poll entries ∉ calls)
    (hend : s'.pc = .poll) :
    ∃ a is', is = a :: is' ∧
      ((i < s.fdCount ∧ ∃ s1 es es', scanEntry mem listener i s a = some (s1, es) ∧
          step mem listener s a = some ({ s1 with pc := .scan (i + 1) }, es) ∧
          Reactive.exec (step mem listener) { s1 with pc := .scan (i + 1) } is' = some (s', es') ∧ calls = es ++ es' ∧
          ∀ entries, .poll entries ∉ es') ∨
        (s.fdCount ≤ i ∧ is' = [] ∧ calls = [])) := by
  cases is with
  | nil =>
    cases he
    rw [hpc] at hend
    cases hend
  | cons a is =>
    refine ⟨a, is, rfl, ?_⟩
    obtain ⟨s1, es, es', hstep, hrest, rfl⟩ := Reactive.exec_cons_eq_some.1 he
    have hno' : ∀ entries, .poll entries ∉ es' := fun entries hmem => hno entries (List.mem_append_right _ hmem)
    rcases step_scan_cases hpc hstep with ⟨hlt, s2, hscan, rfl⟩ | ⟨hle, rfl, rfl⟩
    · exact Or.inl ⟨hlt, s2, es, es', hscan, hstep, hrest, rfl, hno'⟩
    · obtain ⟨rfl, rfl⟩ := nil_of_poll rfl hrest hno' hend
      exact Or.inr ⟨hle, rfl, rfl⟩

/-- The rest of the pass for an entry that is behind: it is not served, and nothing of it is moved. -/
theorem Past.rest {is : List Answer} :
    ∀ {tr calls : List Call} {s : State} {i : Nat}, Table listener tr s → s.pc = .scan i → 1 ≤ i →
      Reactive.Always (AcceptFresh listener) (tr ++ calls) →
      Reactive.exec (step mem listener) s is = some (s', calls) → (∀ entries, .poll entries ∉ calls) → s'.pc = .poll →
      Past fd s i →
      fd ∉ served listener calls ∧ Reactive.Each (step mem listener) (fun s a => ¬ MovesBack listener fd s a) s is := by
  induction is with
  | nil =>
    intro tr calls s i _ hpc _ _ he hno hend _
    obtain ⟨a, is', his, -⟩ := rest_cases hpc he hno hend
    cases his
  | cons a is ih =>
    intro tr calls s i ht hpc h1 hf he hno hend hp
    have hlater : Past fd s (i + 1) := fun k e hik => hp k e (by omega)
    have hstay := hlater.not_movesBack listener a hpc
    obtain ⟨a', is', his, hcase⟩ := rest_cases hpc he hno hend
    cases his
    rcases hcase with ⟨hi, s1, es, es', hscan, hstep, hrest, rfl, hno'⟩ | ⟨hle, rfl, rfl⟩
    · rw [← List.append_assoc] at hf
      obtain ⟨-, ht'⟩ := step_table ht hf.prefix hstep
      obtain ⟨hnot, hp'⟩ := hp.unserved ht h1 hi hscan
      obtain ⟨hnot', heach⟩ := ih ht' rfl (by omega) hf hrest hno' hend hp'
      refine ⟨?_, (Reactive.each_cons hstep).2 ⟨hstay, heach⟩⟩
      rw [served_append, List.mem_append]
      exact fun hmem => hmem.elim hnot hnot'
    · exact ⟨by simp, hstay, fun s' es h => trivial⟩

/-- The rest of the pass for a marked entry that is ahead: it is served once, or moved back and not served. -/
theorem Waiting.rest {is : List Answer} :
    ∀ {tr calls : List Call} {s : State} {i : Nat}, Table listener tr s → s.pc = .scan i →
      Reactive.Always (AcceptFresh listener) (tr ++ calls) →
      Reactive.exec (step mem listener) s is = some (s', calls) → (∀ entries, .poll entries ∉ calls) → s'.pc = .poll →
      Waiting fd s i →
      ((served listener calls).count fd = 1 ↔
        Reactive.Each (step mem listener) (fun s a => ¬ MovesBack listener fd s a) s is) := by
  induction is with
  | nil =>
    intro tr calls s i _ hpc _ he hno hend _
    obtain ⟨a, is', his, -⟩ := rest_cases hpc he hno hend
    cases his
  | cons a is ih =>
    intro tr calls s i ht hpc hf he hno hend hw
    obtain ⟨a', is', his, hcase⟩ := rest_cases hpc he hno hend
    cases his
    rcases hcase with ⟨hi, s1, es, es', hscan, hstep, hrest, rfl, hno'⟩ | ⟨hle, rfl, rfl⟩
    · rw [← List.append_assoc] at hf
      obtain ⟨-, ht'⟩ := step_table ht hf.prefix hstep
      rw [Reactive.each_cons hstep, served_append, List.count_append]
      rcases hw.round ht hpc hi hf.prefix hscan with ⟨hes, hp, hstay⟩ | ⟨hes, hw', hstay⟩ | ⟨hes, hp, hmove⟩
      · obtain ⟨hnot, heach⟩ := Past.rest ht' rfl (by omega) hf hrest hno' hend hp
        rw [hes, List.count_singleton_self, List.count_eq_zero.2 hnot]
        exact ⟨fun _ => ⟨hstay, heach⟩, fun _ => rfl⟩
      · rw [List.count_eq_zero.2 hes, Nat.zero_add, ih ht' rfl hf hrest hno' hend hw']
        exact ⟨fun h => ⟨hstay, h⟩, fun h => h.2⟩
      · obtain ⟨hnot, -⟩ := Past.rest ht' rfl (by omega) hf hrest hno' hend hp
        rw [List.count_eq_zero.2 hes, List.count_eq_zero.2 hnot]
        exact ⟨fun h => absurd h (by simp), fun h => absurd hmove h.1⟩
    · obtain ⟨k, e, hik, hk, -⟩ := hw
      omega

theorem waiting_of_marked {rev : Nat → Nat} (pc : Pc)
    (h : fd ∈ marked (((pollWrite s.fdCount rev s.pfds).take s.fdCount).map fun e => (e.fd, e.revents))) :
    Waiting fd { s with pfds := pollWrite s.fdCount rev s.pfds, pc := pc } 0 := by
  obtain ⟨⟨fd', r⟩, hmem, rfl⟩ := List.mem_map.1 h
  obtain ⟨hmem, hr⟩ := List.mem_filter.1 hmem
  obtain ⟨e, he, heq⟩ := List.mem_map.1 hmem
  cases heq
  obtain ⟨k, hk⟩ := List.mem_iff_getElem?.1 he
  rw [List.getElem?_take] at hk
  split at hk
  · rename_i hlt
    exact ⟨k, e, Nat.zero_le k, hlt, hk, rfl, by simpa [Pollfd.readable] using hr⟩
  · cases hk

/-! ### Its end -/

theorem scanEntry_count {a : Answer} {es : List Call} (hs : Shape s) (hi : i < s.fdCount)
    (hscan : scanEntry mem listener i s a = some (s', es)) :
    (∀ entries, .poll entries ∉ es) ∧ s'.fdCount ≤ s.fdCount + 1 ∧
      ((∀ r, .accept r ∉ es) → s'.fdCount ≤ s.fdCount) := by
  obtain ⟨c, -, hcase⟩ := scanEntry_cases hscan
  rcases hcase with ⟨-, rfl, rfl⟩ | ⟨-, -, -, rfl, rfl⟩ | ⟨-, -, newfd, -, hadd, rfl⟩ | ⟨-, -, bytes, -, -, rfl, rfl⟩ |
    ⟨-, -, -, hdel, rfl⟩
  · simp
  · simp
  · obtain ⟨-, hcount, -⟩ := addToPfds_spec hs hadd
    exact ⟨by simp, by omega, fun h => absurd List.mem_cons_self (h (some newfd))⟩
  · simp [sends]
  · obtain ⟨-, -, hcount, -⟩ := delFromPfds_spec hs hi hdel
    exact ⟨by simp, by omega, fun _ => by omega⟩

theorem always_acceptFresh {tr es : List Call} (hf : Reactive.Always (AcceptFresh listener) tr)
    (hno : ∀ r, Call.accept r ∉ es) : Reactive.Always (AcceptFresh listener) (tr ++ es) := by
  refine Reactive.always_append.2 ⟨hf, Reactive.always_of_forall ?_⟩
  rintro c hc pre fd rfl
  exact absurd hc (hno _)

theorem scan_ends (mem : Nat → Pollfd) {is : List Answer} (hre : ∀ b ∈ is, b.realloc = true) :
    ∀ {tr : List Call} {s : State} {i : Nat}, Table listener tr s → Reactive.Always (AcceptFresh listener) tr →
      s.pc = .scan i → 1 ≤ i → s.fdCount + 1 < 2 ^ 30 → s.fdCount - i < is.length →
      ∃ n s' calls, Reactive.exec (step mem listener) s (is.take n) = some (s', calls) ∧
        (∀ entries, .poll entries ∉ calls) ∧ s'.pc = .poll := by
  induction is with
  | nil =>
    intro tr s i _ _ _ _ _ hlen
    simp at hlen
  | cons a is ih =>
    intro tr s i ht hf hpc h1 hroom hlen
    obtain ⟨ha, hre⟩ := List.forall_mem_cons.1 hre
    have hcount := ht.count
    obtain ⟨⟨s', es⟩, hstep⟩ : ∃ r, step mem listener s a = some r :=
      ht.progress (by simp [hpc]) ha (by intros; omega)
    rcases step_scan_cases hpc hstep with ⟨hi, s1, hscan, rfl⟩ | ⟨hle, rfl, rfl⟩
    · have hno := ht.no_accept h1 hi hscan
      obtain ⟨hpoll, -, hcount'⟩ := scanEntry_count ht.shape hi hscan
      have hf' := always_acceptFresh hf hno
      obtain ⟨-, ht'⟩ := step_table ht hf' hstep
      have hlt := hcount' hno
      rw [List.length_cons] at hlen
      obtain ⟨n, s', calls, hexec, hpoll', hend⟩ := ih hre ht' hf' rfl (by omega) (by simp only; omega) (by simp only; omega)
      refine ⟨n + 1, s', es ++ calls, ?_, ?_, hend⟩
      · rw [List.take_succ_cons]
        exact Reactive.exec_cons hstep hexec
      · intro entries hmem
        exact (List.mem_append.1 hmem).elim (hpoll entries) (hpoll' entries)
    · exact ⟨1, _, [], Reactive.exec_singleton hstep, by simp, rfl⟩

theorem scanEntry_accept {a : Answer} {es : List Call} (hscan : scanEntry mem listener i s a = some (s', es)) {newfd : Fd}
    (hmem : Call.accept (some newfd) ∈ es) : a.accept = some newfd ∧ es = [.accept (some newfd)] := by
  obtain ⟨c, -, hcase⟩ := scanEntry_cases hscan
  rcases hcase with ⟨-, -, rfl⟩ | ⟨-, -, -, -, rfl⟩ | ⟨-, -, fd, ha, -, rfl⟩ | ⟨-, -, bytes, -, -, -, rfl⟩ |
    ⟨-, -, -, -, rfl⟩
  · simp at hmem
  · simp at hmem
  · obtain rfl : newfd = fd := by simpa using hmem
    exact ⟨ha, rfl⟩
  · simp [sends] at hmem
  · simp at hmem

theorem round_acceptFresh {tr es : List Call} {a : Answer} (hf : Reactive.Always (AcceptFresh listener) tr)
    (hscan : scanEntry mem listener i s a = some (s', es))
    (hfresh : ∀ fd, a.accept = some fd → fd ≠ listener ∧ fd ∉ connected tr) :
    Reactive.Always (AcceptFresh listener) (tr ++ es) := by
  refine Reactive.always_append.2 ⟨hf, ?_⟩
  by_cases hacc : ∃ newfd, Call.accept (some newfd) ∈ es
  · obtain ⟨newfd, hmem⟩ := hacc
    obtain ⟨hans, rfl⟩ := scanEntry_accept hscan hmem
    refine Reactive.always_cons.2 ⟨?_, Reactive.always_nil _⟩
    rintro fd heq
    cases heq
    rw [List.append_nil]
    exact hfresh newfd hans
  · apply Reactive.always_of_forall
    rintro c hc pre fd rfl
    exact absurd ⟨fd, hc⟩ hacc

/-- **Every pass comes to its end**, with `realloc` succeeding and fewer than 2^30 entries. -/
theorem pass_ends {tr : List Call} {a : Answer} {rev : Nat → Nat} {is : List Answer} (ht : Table listener tr s)
    (hf : Reactive.Always (AcceptFresh listener) tr) (hpc : s.pc = .poll) (hrev : a.poll = some rev)
    (hroom : s.fdCount + 2 < 2 ^ 30) (hlen : s.fdCount + 1 < is.length) (hre : ∀ b ∈ is, b.realloc = true)
    (hfresh : ∀ b ∈ is, ∀ fd, b.accept = some fd → fd ≠ listener ∧ fd ∉ connected tr) :
    ∃ n entries calls s', Pass mem listener s (a :: is.take n) entries calls s' := by
  have h1 := ht.shape.one_le
  have hblock : s.fdCount ≤ s.pfds.length := ht.shape.le.trans ht.shape.block.ge
  obtain ⟨entries, s0, hstep, hpc0, hcount0⟩ : ∃ entries s0, step mem listener s a = some (s0, [.poll entries]) ∧
      s0.pc = .scan 0 ∧ s0.fdCount = s.fdCount := by
    simp only [step, hpc, hrev, if_pos hblock]
    exact ⟨_, _, rfl, rfl, rfl⟩
  have hf0 : Reactive.Always (AcceptFresh listener) (tr ++ [.poll entries]) := always_acceptFresh hf (by simp)
  obtain ⟨-, ht0⟩ := step_table ht hf0 hstep
  cases is with
  | nil => simp at hlen
  | cons b is =>
    obtain ⟨hb, hre⟩ := List.forall_mem_cons.1 hre
    have hcount := ht0.count
    obtain ⟨⟨s2, es⟩, hstep'⟩ : ∃ r, step mem listener s0 b = some r :=
      ht0.progress (by simp [hpc0]) hb (by intros; omega)
    rcases step_scan_cases hpc0 hstep' with ⟨hi, s1, hscan, rfl⟩ | ⟨hle, rfl, rfl⟩
    · obtain ⟨hpoll, hcount1, -⟩ := scanEntry_count ht0.shape hi hscan
      have hf1 := round_acceptFresh hf0 hscan fun fd hfd => by
        rw [connected_neutral tr rfl]
        exact hfresh b List.mem_cons_self fd hfd
      obtain ⟨-, ht1⟩ := step_table ht0 hf1 hstep'
      rw [List.length_cons] at hlen
      obtain ⟨n, s', calls, hexec, hpoll', hend⟩ := scan_ends mem hre ht1 hf1 rfl (Nat.le_refl 1)
        (by simp only; omega) (by simp only; omega)
      refine ⟨n + 1, entries, es ++ calls, s', hpc, ?_, ?_, hend⟩
      · rw [List.take_succ_cons]
        exact Reactive.exec_cons hstep (Reactive.exec_cons hstep' hexec)
      · intro entries hmem
        exact (List.mem_append.1 hmem).elim (hpoll entries) (hpoll' entries)
    · omega

/-- **Which passes serve all that is marked.** From any state a run comes to before `poll`: the pass ends, and in a pass
every marked descriptor is served exactly once if and only if no round, dropping a client, moves the entry of one
back. -/
theorem poll_pass_iff {tr : List Call}
    (hrun : Reactive.Run (step mem listener) (fun _ _ _ => True) (start mem listener) tr s)
    (hf : Reactive.Always (AcceptFresh listener) tr) (hpc : s.pc = .poll) :
    (∀ a rev (is : List Answer), a.poll = some rev → s.fdCount + 2 < 2 ^ 30 → s.fdCount + 1 < is.length →
      (∀ b ∈ is, b.realloc = true) → (∀ b ∈ is, ∀ fd, b.accept = some fd → fd ≠ listener ∧ fd ∉ connected tr) →
      ∃ n entries calls s', Pass mem listener s (a :: is.take n) entries calls s') ∧
    ∀ is entries calls s', Pass mem listener s is entries calls s' →
      Reactive.Always (AcceptFresh listener) (tr ++ .poll entries :: calls) →
      ((∀ fd ∈ marked entries, (served listener calls).count fd = 1) ↔
        Reactive.Each (step mem listener) (fun s a => ∀ fd ∈ marked entries, ¬ MovesBack listener fd s a) s is) := by
  have ht := table_of_run hrun hf
  refine ⟨fun a rev is hrev hroom hlen hre hfresh => pass_ends ht hf hpc hrev hroom hlen hre hfresh, ?_⟩
  rintro is entries calls s' ⟨-, hexec, hno, hend⟩ hf'
  rw [Reactive.each_forall]
  refine forall₂_congr fun fd hfd => ?_
  cases is with
  | nil => cases hexec
  | cons a is =>
    obtain ⟨s0, es, es', hstep, hrest, hcalls⟩ := Reactive.exec_cons_eq_some.1 hexec
    rw [List.append_cons] at hf'
    rcases step_poll_cases hpc hstep with ⟨-, rfl, rfl⟩ | ⟨rev, -, -, rfl, rfl⟩
    · cases is with
      | nil =>
        cases hrest
        cases hend
      | cons a is => cases hrest
    · cases hcalls
      obtain ⟨-, ht0⟩ := step_table ht hf'.prefix hstep
      have hw := waiting_of_marked (.scan 0) hfd
      rw [hw.rest ht0 rfl hf' hrest hno hend, Reactive.each_cons hstep]
      refine ⟨fun h => ⟨?_, h⟩, fun h => h.2⟩
      rintro ⟨i, e, last, hi, -⟩
      simp [hpc] at hi

/-- Clients 4 and 5 connect, one in each pass. -/
def connectTwo : List Answer :=
  [{ poll := some fun _ => 1 }, { accept := some 4 }, {}, {},
   { poll := some fun k => 1 - k }, { accept := some 5 }, {}, {}, {}]

/-- The table after that. -/
def twoConnected : State := ⟨[⟨3, 1, 1⟩, ⟨4, 1, 0⟩, ⟨5, 1, 0⟩, ⟨0, 0, 0⟩, ⟨0, 0, 0⟩], 3, 5, .poll⟩

/-- The system calls that led there. -/
def twoConnectedCalls : List Call := [.poll [(3, 1)], .accept (some 4), .poll [(3, 1), (4, 0)], .accept (some 5)]

theorem run_connectTwo : Reactive.Run (step zeroMem 3) (fun _ _ _ => True) (start zeroMem 3) twoConnectedCalls twoConnected := by
  have hexec : Reactive.exec (step zeroMem 3) (start zeroMem 3) connectTwo = some (twoConnected, twoConnectedCalls) := rfl
  exact Reactive.Run.exec (fun _ _ _ => trivial) .start hexec

/-- Both speak. -/
def bothSpeak : List Answer :=
  [{ poll := some fun k => if k = 0 then 0 else 1, recv := some [104] }, { recv := some [104] }, { recv := some [104] },
   { recv := some [105] }, { recv := some [105] }]

theorem poll_pass_iff_sample :
    (∃ n entries calls s', Pass zeroMem 3 twoConnected
      ({ poll := some fun k => k } :: (List.replicate 5 { recv := some [104] }).take n) entries calls s') ∧
    (served 3 [.recv 4 (some [104]), .send 5 [104], .recv 5 (some [105]), .send 4 [105]]).count 5 = 1 := by
  have hf : Reactive.Always (AcceptFresh 3) twoConnectedCalls := by
    simp [twoConnectedCalls, Reactive.always_cons, AcceptFresh, connected]
  refine ⟨(poll_pass_iff run_connectTwo hf rfl).1 _ _ _ rfl (by decide) (by decide) (by simp) (by simp), ?_⟩
  have hpass : Pass zeroMem 3 twoConnected bothSpeak [(3, 0), (4, 1), (5, 1)]
      [.recv 4 (some [104]), .send 5 [104], .recv 5 (some [105]), .send 4 [105]]
      ⟨[⟨3, 1, 0⟩, ⟨4, 1, 1⟩, ⟨5, 1, 1⟩, ⟨0, 0, 0⟩, ⟨0, 0, 0⟩], 3, 5, .poll⟩ := ⟨rfl, rfl, by simp, rfl⟩
  refine ((poll_pass_iff run_connectTwo hf rfl).2 _ _ _ _ hpass ?_).2 ?_ 5 (by decide)
  · simp [twoConnectedCalls, Reactive.always_cons, AcceptFresh, connected]
  · apply Reactive.each_of_forall
    rintro a ha s fd - ⟨i, e, last, -, -, -, -, -, hrecv, -⟩
    simp only [bothSpeak, List.mem_cons, List.not_mem_nil, or_false] at ha
    rcases ha with rfl | rfl | rfl | rfl | rfl <;> simp at hrecv

/-! ### The defect -/

/-- **A marked entry is skipped.** Clients 4 and 5 are both marked; 4 hangs up, the entry of 5 is moved to index 1, and
the loop goes on at 2. -/
theorem poll_pass_skips :
    ¬ ∀ mem listener tr s, Reactive.Run (step mem listener) (fun _ _ _ => True) (start mem listener) tr s →
      Reactive.Always (AcceptFresh listener) tr → ∀ is entries calls s', Pass mem listener s is entries calls s' →
      Reactive.Always (AcceptFresh listener) (tr ++ .poll entries :: calls) →
      ∀ fd ∈ marked entries, (served listener calls).count fd = 1 := by
  intro hclaim
  have hpass : Pass zeroMem 3 twoConnected [{ poll := some fun k => if k = 0 then 0 else 1 }, {}, { recv := some [] }, {}]
      [(3, 0), (4, 1), (5, 1)] [.recv 4 (some []), .close 4]
      ⟨[⟨3, 1, 0⟩, ⟨5, 1, 1⟩, ⟨5, 1, 1⟩, ⟨0, 0, 0⟩, ⟨0, 0, 0⟩], 2, 5, .poll⟩ := ⟨rfl, rfl, by simp, rfl⟩
  have hcount := hclaim _ _ _ _ run_connectTwo ?_ _ _ _ _ hpass ?_ 5 (by decide)
  · revert hcount
    decide
  · simp [twoConnectedCalls, Reactive.always_cons, AcceptFresh, connected]
  · simp [twoConnectedCalls, Reactive.always_cons, AcceptFresh, connected]

end CHell.Chat.Poll
