import CHell.Chat.Poll
import Mathlib.Data.Finset.Card

/-!
# The poll server keeps its table

`Table tr s`: the block has `fd_size` cells, `1 <= fd_count <= fd_size`, and the descriptors of
entries `0 .. fd_count-1` are the listener followed by the connected sockets of the history
`tr`, each once. `step_table` carries it through every step, growth and deletion in the middle
of a pass included, and shows on the way that each step is a hub step.
-/

namespace CHell.Chat.Poll

variable {mem : Nat → Pollfd} {listener : Fd} {s s' : State}

/-! ## The two table operations -/

/-- What `fd_count`, `fd_size` and the block have to do with each other. -/
structure Shape (s : State) : Prop where
  block : s.pfds.length = s.fdSize
  one_le : 1 ≤ s.fdCount
  le : s.fdCount ≤ s.fdSize

theorem Shape.withPc (h : Shape s) (pc : Pc) : Shape { s with pc := pc } := ⟨h.block, h.one_le, h.le⟩

theorem length_fds (h : Shape s) : s.fds.length = s.fdCount := by
  have h1 := h.block
  have h2 := h.le
  simp only [State.fds, List.length_map, List.length_take]
  omega

theorem getElem_fds {k : Nat} {e : Pollfd} (hk : k < s.fdCount) (he : s.pfds[k]? = some e) :
    s.fds[k]? = some e.fd := by
  simp [State.fds, hk, he]

/-- Growing keeps the cells there are; the ones it adds are fresh memory. -/
theorem growPfds_spec {r : Bool} (hs : Shape s) (h : growPfds mem r s = some s') :
    Shape s' ∧ s'.fdCount = s.fdCount ∧ s'.pc = s.pc ∧ s.fdCount < s'.fdSize ∧
      (∀ k < s.fdSize, s'.pfds[k]? = s.pfds[k]?) ∧
      (s.fdCount = s.fdSize → s'.pfds[s.fdCount]? = some (mem s.fdCount)) := by
  obtain ⟨hb, h1, hle⟩ := hs
  unfold growPfds at h
  split at h
  · rename_i hfull
    split at h
    · cases h
      have htake : s.pfds.take (s.fdSize * 2) = s.pfds := List.take_of_length_le (by omega)
      have hcells : reallocCells mem s.pfds (s.fdSize * 2) =
          s.pfds ++ (List.range' s.fdSize s.fdSize).map mem := by
        rw [reallocCells, htake, hb, show s.fdSize * 2 - s.fdSize = s.fdSize by omega]
      refine ⟨⟨?_, h1, by simp only; omega⟩, rfl, rfl, by simp only; omega, ?_, ?_⟩
      · simp only [hcells, List.length_append, List.length_map, List.length_range']
        omega
      · intro k hk
        simp only [hcells]
        exact List.getElem?_append_left (by omega)
      · intro _
        simp only [hcells]
        rw [List.getElem?_append_right (by omega), List.getElem?_map, List.getElem?_range' (by omega)]
        simp only [Option.map_some]
        congr 2; omega
    · cases h
  · cases h
    exact ⟨⟨hb, h1, hle⟩, rfl, rfl, by omega, fun _ _ => rfl, fun he => absurd he (by assumption)⟩

/-- **`add_to_pfds` (:68)** appends the new descriptor. The new entry keeps the `revents` its
cell had. -/
theorem addToPfds_spec {r : Bool} {newfd : Fd} (hs : Shape s)
    (h : addToPfds mem r newfd s = some s') :
    Shape s' ∧ s'.fdCount = s.fdCount + 1 ∧ s'.pc = s.pc ∧ s'.fds = s.fds ++ [newfd] ∧
      (∀ k < s.fdCount, s'.pfds[k]? = s.pfds[k]?) ∧
      ∃ e, (s.pfds[s.fdCount]? = some e ∨ s.pfds[s.fdCount]? = none ∧ e = mem s.fdCount) ∧
        s'.pfds[s.fdCount]? = some { e with fd := newfd, events := POLLIN } := by
  simp only [addToPfds, Option.bind_eq_bind, Option.bind_eq_some_iff] at h
  obtain ⟨s1, hgrow, e, he, h⟩ := h
  obtain ⟨⟨hb, h1, _⟩, hcount, hpc, hroom, hkeep, hfresh⟩ := growPfds_spec hs hgrow
  obtain ⟨hb0, _, hle0⟩ := hs
  rw [hcount] at he h
  cases h
  have hlt : s.fdCount < s1.pfds.length := by omega
  refine ⟨⟨by simpa using hb, by simp only; omega, by simp only; omega⟩, rfl, hpc, ?_, ?_, e, ?_, ?_⟩
  · have htake : s1.pfds.take s.fdCount = s.pfds.take s.fdCount := by
      apply List.ext_getElem?
      intro k
      rw [List.getElem?_take, List.getElem?_take]
      split
      · exact hkeep k (by omega)
      · rfl
    simp only [State.fds]
    rw [List.take_set, List.take_add_one, List.getElem?_eq_getElem hlt, Option.toList_some,
      List.set_append_right _ _ (by rw [List.length_take]; omega), List.length_take,
      Nat.min_eq_left (by omega), Nat.sub_self, List.set_cons_zero, htake, List.map_append]
    rfl
  · intro k hk
    simp only
    rw [List.getElem?_set_ne (by omega)]
    exact hkeep k (by omega)
  · by_cases hfull : s.fdCount = s.fdSize
    · rw [hfresh hfull] at he
      cases he
      exact Or.inr ⟨List.getElem?_eq_none (by omega), rfl⟩
    · exact Or.inl ((hkeep _ (by omega)).symm.trans he)
  · simp only
    exact List.getElem?_set_self hlt

/-- Moving the last element into the hole: the rest of the list, in another order. -/
theorem swapRemove_perm {α : Type*} (l : List α) (i : Nat) (hi : i < l.length) :
    ((l.set i (l[l.length - 1])).take (l.length - 1)).Perm (l.eraseIdx i) := by
  have hlast : (l.set i (l[l.length - 1])).take (l.length - 1) ++ [l[l.length - 1]] =
      l.set i (l[l.length - 1]) := by
    have htake := List.take_append_getElem (l := l.set i (l[l.length - 1])) (i := l.length - 1)
      (by rw [List.length_set]; omega)
    rw [List.getElem_set] at htake
    have hsame : (if i = l.length - 1 then l[l.length - 1] else l[l.length - 1]) = l[l.length - 1] := by
      split <;> rfl
    rw [hsame] at htake
    rw [htake]
    exact List.take_of_length_le (by rw [List.length_set]; omega)
  have hperm : (l[l.length - 1] :: (l.set i (l[l.length - 1])).take (l.length - 1)).Perm
      (l[l.length - 1] :: l.eraseIdx i) := by
    refine (List.perm_append_singleton _ _).symm.trans ?_
    rw [hlast]
    exact List.set_perm_cons_eraseIdx hi _
  exact hperm.cons_inv

/-- **`del_from_pfds` (:80)** moves the last descriptor into the hole. -/
theorem delFromPfds_spec {i : Nat} (hs : Shape s) (hi : i < s.fdCount)
    (h : delFromPfds i s = some s') :
    s'.fdSize = s.fdSize ∧ s'.pfds.length = s'.fdSize ∧ s'.fdCount = s.fdCount - 1 ∧ s'.pc = s.pc ∧
      (∀ k, k ≠ i → s'.pfds[k]? = s.pfds[k]?) ∧ s'.fds.Perm (s.fds.eraseIdx i) := by
  have hlen := length_fds hs
  obtain ⟨hb, h1, hle⟩ := hs
  rw [delFromPfds, if_pos ⟨by omega, by omega⟩, Option.map_eq_some_iff] at h
  obtain ⟨last, hlast, rfl⟩ := h
  refine ⟨rfl, by simpa using hb, rfl, rfl, ?_, ?_⟩
  · intro k hk
    simp only
    rw [List.getElem?_set_ne (Ne.symm hk)]
  · have hval : s.fds[s.fds.length - 1]? = some last.fd := by
      rw [hlen]; exact getElem_fds (by omega) hlast
    have hget : s.fds[s.fds.length - 1] = last.fd := by
      rw [List.getElem?_eq_getElem (by omega)] at hval
      exact Option.some.inj hval
    have hset : State.fds { s with pfds := s.pfds.set i last, fdCount := s.fdCount - 1 } =
        (s.fds.set i (s.fds[s.fds.length - 1])).take (s.fds.length - 1) := by
      rw [hget, hlen]
      simp only [State.fds]
      rw [← List.map_set, ← List.take_set, ← List.map_take, List.take_take, Nat.min_eq_left (by omega)]
    rw [hset]
    exact swapRemove_perm _ i (by omega)

/-! ## What a step can do -/

theorem scanEntry_cases {i : Nat} {a : Answer} {es : List Call}
    (h : scanEntry mem listener i s a = some (s', es)) :
    ∃ e, s.pfds[i]? = some e ∧
      ((e.readable = false ∧ s' = s ∧ es = []) ∨
       (e.readable = true ∧ e.fd = listener ∧ a.accept = none ∧ s' = s ∧ es = [.accept none]) ∨
       (e.readable = true ∧ e.fd = listener ∧ ∃ newfd, a.accept = some newfd ∧
          addToPfds mem a.realloc newfd s = some s' ∧ es = [.accept (some newfd)]) ∨
       (e.readable = true ∧ e.fd ≠ listener ∧ ∃ bytes, bytes ≠ [] ∧ a.recv = some bytes ∧ s' = s ∧
          es = .recv e.fd (some bytes) :: sends bytes (relayTo listener e.fd s)) ∨
       (e.readable = true ∧ e.fd ≠ listener ∧ (a.recv = none ∨ a.recv = some []) ∧
          delFromPfds i s = some s' ∧ es = [.recv e.fd a.recv, .close e.fd])) := by
  simp only [scanEntry, Option.bind_eq_bind, Option.bind_eq_some_iff] at h
  obtain ⟨e, he, h⟩ := h
  refine ⟨e, he, ?_⟩
  split at h
  · rename_i hr
    split at h
    · rename_i hl
      split at h
      · rename_i ha
        cases h
        exact Or.inr (Or.inl ⟨hr, hl, ha, rfl, rfl⟩)
      · rename_i newfd ha
        simp only [Option.bind_eq_some_iff] at h
        obtain ⟨s1, hadd, h⟩ := h
        cases h
        exact Or.inr (Or.inr (Or.inl ⟨hr, hl, newfd, ha, hadd, rfl⟩))
    · rename_i hl
      split at h
      · rename_i b bs ha
        cases h
        exact Or.inr (Or.inr (Or.inr (Or.inl ⟨hr, hl, b :: bs, by simp, ha, rfl, rfl⟩)))
      · rename_i r hne
        simp only [Option.bind_eq_some_iff] at h
        obtain ⟨s1, hdel, h⟩ := h
        cases h
        refine Or.inr (Or.inr (Or.inr (Or.inr ⟨hr, hl, ?_, hdel, rfl⟩)))
        match hrecv : a.recv with
        | none => exact Or.inl rfl
        | some [] => exact Or.inr rfl
        | some (b :: bs) => exact absurd hrecv (hne b bs)
  · rename_i hr
    cases h
    exact Or.inl ⟨by simpa using hr, rfl, rfl⟩

theorem step_cases {a : Answer} {es : List Call} (h : step mem listener s a = some (s', es)) :
    (s.pc = .poll ∧ a.poll = none ∧ s' = { s with pc := .exited } ∧ es = []) ∨
    (s.pc = .poll ∧ ∃ rev, a.poll = some rev ∧ s.fdCount ≤ s.pfds.length ∧
      s' = { s with pfds := pollWrite s.fdCount rev s.pfds, pc := .scan 0 } ∧
      es = [.poll (((pollWrite s.fdCount rev s.pfds).take s.fdCount).map fun e => (e.fd, e.revents))]) ∨
    (∃ i, s.pc = .scan i ∧ i < s.fdCount ∧ ∃ s1, scanEntry mem listener i s a = some (s1, es) ∧
      s' = { s1 with pc := .scan (i + 1) }) ∨
    (∃ i, s.pc = .scan i ∧ s.fdCount ≤ i ∧ s' = { s with pc := .poll } ∧ es = []) := by
  unfold step at h
  split at h
  · rename_i hpc
    split at h
    · rename_i hp
      cases h
      exact Or.inl ⟨hpc, hp, rfl, rfl⟩
    · rename_i rev hp
      split at h
      · rename_i hle
        cases h
        exact Or.inr (Or.inl ⟨hpc, rev, hp, hle, rfl, rfl⟩)
      · cases h
  · rename_i i hpc
    split at h
    · rename_i hi
      simp only [Option.bind_eq_bind, Option.bind_eq_some_iff] at h
      obtain ⟨⟨s1, es1⟩, hscan, h⟩ := h
      cases h
      exact Or.inr (Or.inr (Or.inl ⟨i, hpc, hi, s1, hscan, rfl⟩))
    · rename_i hi
      cases h
      exact Or.inr (Or.inr (Or.inr ⟨i, hpc, by omega, rfl, rfl⟩))
  · cases h

theorem step_poll_cases {a : Answer} {es : List Call} (hpc : s.pc = .poll)
    (h : step mem listener s a = some (s', es)) :
    (a.poll = none ∧ s' = { s with pc := .exited } ∧ es = []) ∨
    (∃ rev, a.poll = some rev ∧ s.fdCount ≤ s.pfds.length ∧
      s' = { s with pfds := pollWrite s.fdCount rev s.pfds, pc := .scan 0 } ∧
      es = [.poll (((pollWrite s.fdCount rev s.pfds).take s.fdCount).map fun e => (e.fd, e.revents))]) := by
  rcases step_cases h with ⟨-, hexit⟩ | ⟨-, hpoll⟩ | ⟨i, hi, -⟩ | ⟨i, hi, -⟩
  · exact Or.inl hexit
  · exact Or.inr hpoll
  · simp [hpc] at hi
  · simp [hpc] at hi

theorem step_scan_cases {i : Nat} {a : Answer} {es : List Call} (hpc : s.pc = .scan i)
    (h : step mem listener s a = some (s', es)) :
    (i < s.fdCount ∧ ∃ s1, scanEntry mem listener i s a = some (s1, es) ∧ s' = { s1 with pc := .scan (i + 1) }) ∨
    (s.fdCount ≤ i ∧ s' = { s with pc := .poll } ∧ es = []) := by
  rcases step_cases h with ⟨hp, -⟩ | ⟨hp, -⟩ | ⟨j, hj, hround⟩ | ⟨j, hj, hend⟩
  · simp [hpc] at hp
  · simp [hpc] at hp
  · rw [hpc] at hj
    cases hj
    exact Or.inl hround
  · rw [hpc] at hj
    cases hj
    exact Or.inr hend

/-! ## The invariant -/

/-- The entries are the listener and then the connected sockets, each once. -/
structure Table (listener : Fd) (tr : List Call) (s : State) : Prop where
  shape : Shape s
  listed : ∃ cs, s.fds = listener :: cs ∧ (listener :: cs).Nodup ∧ ∀ fd, fd ∈ cs ↔ fd ∈ connected tr

theorem table_start : Table listener [] (start mem listener) := by
  refine ⟨⟨rfl, Nat.le_refl 1, show 1 ≤ 5 by decide⟩, [], ?_, by simp, by simp⟩
  simp [State.fds, start, List.range_succ_eq_map]

/-- The program counter and the `revents` fields are not part of the table. -/
theorem Table.congr {tr : List Call} (h : Table listener tr s) (s' : State) (hlen : s'.pfds.length = s.pfds.length)
    (hc : s'.fdCount = s.fdCount) (hsz : s'.fdSize = s.fdSize) (hf : s'.fds = s.fds) :
    Table listener tr s' := by
  obtain ⟨⟨h1, h2, h3⟩, h4⟩ := h
  exact ⟨⟨by omega, by omega, by omega⟩, by rw [hf]; exact h4⟩

theorem Table.of_connected_eq {tr tr' : List Call} (h : Table listener tr s)
    (he : connected tr' = connected tr) : Table listener tr' s :=
  ⟨h.shape, by rw [he]; exact h.listed⟩

theorem fds_pollWrite (s : State) (n : Nat) (rev : Nat → Nat) (pc : Pc) :
    State.fds { s with pfds := pollWrite n rev s.pfds, pc := pc } = s.fds := by
  simp only [State.fds, pollWrite]
  apply List.ext_getElem?
  intro k
  simp only [List.getElem?_map, List.getElem?_take, List.getElem?_mapIdx]
  split
  · cases s.pfds[k]? with
    | none => rfl
    | some e => simp only [Option.map_some]; split <;> rfl
  · rfl

/-- One entry for each connected socket, and one for the listener. -/
theorem Table.count {tr : List Call} (h : Table listener tr s) :
    s.fdCount = (connected tr).card + 1 := by
  obtain ⟨cs, hcs, hnd, hmem⟩ := h.listed
  have hlen := length_fds h.shape
  have hset : cs.toFinset = connected tr := by
    ext fd
    rw [List.mem_toFinset, hmem]
  have hcard := List.toFinset_card_of_nodup (List.nodup_cons.1 hnd).2
  rw [hset] at hcard
  rw [hcs, List.length_cons] at hlen
  omega

/-- An entry of the scan that is not the listener's belongs to a connected socket. -/
theorem Table.client {tr : List Call} (h : Table listener tr s) {i : Nat} {e : Pollfd}
    (hi : i < s.fdCount) (he : s.pfds[i]? = some e) (hl : e.fd ≠ listener) :
    e.fd ∈ connected tr ∧ ∃ k, i = k + 1 := by
  obtain ⟨cs, hcs, hnd, hmem⟩ := h.listed
  have hget := getElem_fds hi he
  rw [hcs] at hget
  cases i with
  | zero =>
    simp only [List.getElem?_cons_zero, Option.some.injEq] at hget
    exact absurd hget.symm hl
  | succ k =>
    rw [List.getElem?_cons_succ] at hget
    exact ⟨(hmem e.fd).1 (List.mem_of_getElem? hget), k, rfl⟩

/-! ### Step by step -/

theorem Table.add {tr : List Call} (h : Table listener tr s) {r : Bool} {newfd : Fd}
    (hf : AcceptFresh listener tr (.accept (some newfd)))
    (ha : addToPfds mem r newfd s = some s') :
    HubStep listener (connected tr) [.accept (some newfd)] (insert newfd (connected tr)) ∧
      Table listener (tr ++ [.accept (some newfd)]) s' := by
  obtain ⟨hl, hn⟩ := hf newfd rfl
  obtain ⟨hshape, -, -, hfds, -⟩ := addToPfds_spec h.shape ha
  obtain ⟨cs, hcs, hnd, hmem⟩ := h.listed
  refine ⟨.join hl hn, hshape, cs ++ [newfd], by rw [hfds, hcs]; rfl, ?_, ?_⟩
  · rw [← List.cons_append, List.nodup_append]
    refine ⟨hnd, by simp, ?_⟩
    rintro x hx y hy rfl
    obtain rfl := List.mem_singleton.1 hy
    rcases List.mem_cons.1 hx with rfl | hx
    · exact hl rfl
    · exact hn ((hmem x).1 hx)
  · intro fd
    rw [connected_accept, List.mem_append, List.mem_singleton, Finset.mem_insert, hmem]
    exact or_comm

theorem Table.del {tr : List Call} (h : Table listener tr s) {i : Nat} {e : Pollfd}
    {r : Option (List UInt8)} (hr : r = none ∨ r = some []) (hi : i < s.fdCount)
    (he : s.pfds[i]? = some e) (hl : e.fd ≠ listener) (hd : delFromPfds i s = some s') :
    HubStep listener (connected tr) [.recv e.fd r, .close e.fd] ((connected tr).erase e.fd) ∧
      Table listener (tr ++ [.recv e.fd r, .close e.fd]) s' := by
  obtain ⟨hm, k, rfl⟩ := h.client hi he hl
  obtain ⟨hsz, hlen, hcount, -, hkeep, hperm⟩ := delFromPfds_spec h.shape hi hd
  obtain ⟨hb, h1, hle⟩ := h.shape
  have hshape : Shape s' := ⟨hlen, by omega, by omega⟩
  obtain ⟨cs, hcs, hnd, hmem⟩ := h.listed
  obtain ⟨hl0, hcnd⟩ := List.nodup_cons.1 hnd
  -- the client's own place among `cs`
  have hget := getElem_fds hi he
  rw [hcs, List.getElem?_cons_succ] at hget
  obtain ⟨hk, hgetk⟩ := List.getElem?_eq_some_iff.1 hget
  rw [hcs, List.eraseIdx_cons_succ, ← hcnd.erase_getElem k hk, hgetk] at hperm
  -- entry 0 is untouched, so the listener still comes first
  obtain ⟨e0, he0⟩ : ∃ e0, s.pfds[0]? = some e0 := ⟨_, List.getElem?_eq_getElem (by omega)⟩
  have h0 := getElem_fds (by omega) he0
  rw [hcs, List.getElem?_cons_zero, Option.some.injEq] at h0
  have h0' := getElem_fds (s := s') (k := 0) (by omega) ((hkeep 0 (by omega)).trans he0)
  obtain ⟨cs', hcs'⟩ : ∃ cs', s'.fds = listener :: cs' := by
    cases hf : s'.fds with
    | nil => rw [hf] at h0'; cases h0'
    | cons x cs' =>
      rw [hf, List.getElem?_cons_zero, Option.some.injEq] at h0'
      exact ⟨cs', by rw [h0, h0']⟩
  rw [hcs'] at hperm
  have hrest : cs'.Perm (cs.erase e.fd) := hperm.cons_inv
  refine ⟨.leave hm hr, hshape, cs', hcs', ?_, ?_⟩
  · exact hperm.nodup_iff.2 (List.nodup_cons.2 ⟨fun hx => hl0 (List.mem_of_mem_erase hx), hcnd.erase _⟩)
  · intro fd
    rw [hrest.mem_iff, hcnd.mem_erase_iff, hmem, List.append_cons, connected_close,
      connected_neutral tr rfl, Finset.mem_erase]

theorem Table.relay {tr : List Call} (h : Table listener tr s) {i : Nat} {e : Pollfd}
    {bytes : List UInt8} (hb : bytes ≠ []) (hi : i < s.fdCount) (he : s.pfds[i]? = some e)
    (hl : e.fd ≠ listener) :
    HubStep listener (connected tr)
      (.recv e.fd (some bytes) :: sends bytes (relayTo listener e.fd s)) (connected tr) := by
  obtain ⟨cs, hcs, hnd, hmem⟩ := h.listed
  have hto : relayTo listener e.fd s = s.fds.filter fun dest => dest != listener && dest != e.fd := rfl
  refine .say (h.client hi he hl).1 hb ?_ ?_
  · rw [hto, hcs]; exact hnd.filter _
  · intro d
    rw [hto, hcs, List.mem_filter, List.mem_cons, Bool.and_eq_true, bne_iff_ne, bne_iff_ne, ← hmem]
    constructor
    · rintro ⟨hd | hd, h1, h2⟩
      · exact absurd hd h1
      · exact ⟨hd, h2⟩
    · rintro ⟨hd, h2⟩
      exact ⟨Or.inr hd, fun e => (List.nodup_cons.1 hnd).1 (e ▸ hd), h2⟩

/-- **One step.** Whatever the calls answer, the step is a hub step and the table is kept. -/
theorem step_table {tr es : List Call} {a : Answer} (h : Table listener tr s)
    (hf : Reactive.Always (AcceptFresh listener) (tr ++ es)) (hs : step mem listener s a = some (s', es)) :
    (∃ H, HubStep listener (connected tr) es H) ∧ Table listener (tr ++ es) s' := by
  rcases step_cases hs with ⟨-, -, rfl, rfl⟩ | ⟨-, rev, -, -, rfl, rfl⟩ | ⟨i, -, hi, s1, hscan, rfl⟩ |
    ⟨i, -, -, rfl, rfl⟩
  · refine ⟨⟨_, .idle⟩, ?_⟩
    rw [List.append_nil]
    exact h.congr _ rfl rfl rfl rfl
  · refine ⟨⟨_, .wait (Or.inl ⟨_, rfl⟩)⟩, ?_⟩
    refine Table.of_connected_eq (h.congr _ ?_ ?_ ?_ (fds_pollWrite s _ rev _)) (connected_neutral tr ?_)
    · simp [pollWrite]
    all_goals rfl
  · suffices hsuff : (∃ H, HubStep listener (connected tr) es H) ∧ Table listener (tr ++ es) s1 from
      ⟨hsuff.1, hsuff.2.congr _ rfl rfl rfl rfl⟩
    obtain ⟨e, he, hcase⟩ := scanEntry_cases hscan
    rcases hcase with ⟨-, rfl, rfl⟩ | ⟨-, -, -, rfl, rfl⟩ | ⟨-, -, newfd, -, hadd, rfl⟩ |
      ⟨-, hl, bytes, hb, -, rfl, rfl⟩ | ⟨-, hl, hr, hdel, rfl⟩
    · exact ⟨⟨_, .idle⟩, by simpa using h⟩
    · exact ⟨⟨_, .refuse⟩, h.of_connected_eq (connected_neutral tr rfl)⟩
    · have hfresh := (Reactive.always_cons.1 (Reactive.always_append.1 hf).2).1
      rw [List.append_nil] at hfresh
      obtain ⟨hstep, htable⟩ := h.add hfresh hadd
      exact ⟨⟨_, hstep⟩, htable⟩
    · have hstep := h.relay hb hi he hl
      exact ⟨⟨_, hstep⟩, h.of_connected_eq hstep.connected.symm⟩
    · obtain ⟨hstep, htable⟩ := h.del hr hi he hl hdel
      exact ⟨⟨_, hstep⟩, htable⟩
  · refine ⟨⟨_, .idle⟩, ?_⟩
    rw [List.append_nil]
    exact h.congr _ rfl rfl rfl rfl

end CHell.Chat.Poll
