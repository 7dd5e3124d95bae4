import CHell.Chat.PollTable

/-!
# Runs of the poll server

* `poll_run_table`: in every run, after every step, the table is right and the next step
  relays as it should, and no step is cut short by an access outside the block or by overflow.
* `poll_run_polled`: in every run that never accepts into a cell with a left-over `POLLIN`, `recv`
  is called only on a socket the last `poll` reported.
* `poll_recv_unpolled`: without that restriction it is not so. `del_from_pfds` leaves the
  `revents` of the last entry behind, `add_to_pfds` does not clear it, and the pass that accepted
  the new client then reads from it.
-/

namespace CHell.Chat.Poll

variable {mem : Nat → Pollfd} {listener : Fd} {s s' : State}

/-! ## Progress -/

theorem addToPfds_isSome (mem : Nat → Pollfd) (hs : Shape s) (newfd : Fd) (hroom : s.fdCount < 1073741823) :
    ∃ s', addToPfds mem true newfd s = some s' := by
  obtain ⟨s1, h1⟩ : ∃ s1, growPfds mem true s = some s1 := by
    unfold growPfds
    split
    · rw [if_pos ⟨by omega, rfl⟩]; exact ⟨_, rfl⟩
    · exact ⟨_, rfl⟩
  obtain ⟨hshape, hcount, -, hlt, -⟩ := growPfds_spec hs h1
  have hin : s1.fdCount < s1.pfds.length := by rw [hshape.block]; omega
  simp only [addToPfds, h1, Option.bind_eq_bind, Option.bind_some, List.getElem?_eq_getElem hin]
  exact ⟨_, rfl⟩

theorem delFromPfds_isSome (hs : Shape s) {i : Nat} (hi : i < s.fdCount) :
    ∃ s', delFromPfds i s = some s' := by
  obtain ⟨hb, h1, hle⟩ := hs
  rw [delFromPfds, if_pos ⟨by omega, by omega⟩, List.getElem?_eq_getElem (by omega), Option.map_some]
  exact ⟨_, rfl⟩

/-- With `realloc` succeeding and fewer than 2^30 sockets open, every step is defined. -/
theorem Table.progress {tr : List Call} (h : Table listener tr s) (hpc : s.pc ≠ .exited) {a : Answer}
    (hr : a.realloc = true) (hroom : ∀ fd, a.accept = some fd → (connected tr).card + 2 < 2 ^ 30) :
    ∃ r, step mem listener s a = some r := by
  obtain ⟨hb, h1, hle⟩ := h.shape
  unfold step
  split
  · split
    · exact ⟨_, rfl⟩
    · rw [if_pos (by omega)]; exact ⟨_, rfl⟩
  · rename_i i _
    split
    · rename_i hi
      suffices hsuff : ∃ r, scanEntry mem listener i s a = some r by
        obtain ⟨r, hr⟩ := hsuff
        exact ⟨_, by rw [hr]; rfl⟩
      simp only [scanEntry, List.getElem?_eq_getElem (show i < s.pfds.length by omega),
        Option.bind_eq_bind, Option.bind_some]
      split
      · split
        · split
          · exact ⟨_, rfl⟩
          · rename_i newfd hacc
            obtain ⟨s1, hadd⟩ := addToPfds_isSome mem h.shape newfd
              (by have := h.count; have := hroom newfd hacc; omega)
            rw [hr, hadd]; exact ⟨_, rfl⟩
        · obtain ⟨s1, hdel⟩ := delFromPfds_isSome h.shape hi
          split
          · exact ⟨_, rfl⟩
          · rw [hdel]; exact ⟨_, rfl⟩
      · exact ⟨_, rfl⟩
    · exact ⟨_, rfl⟩
  · rename_i hex
    exact absurd hex hpc

/-! ## The table along runs -/

theorem table_of_run {tr : List Call}
    (hrun : Reactive.Run (step mem listener) (fun _ _ _ => True) (start mem listener) tr s)
    (hf : Reactive.Always (AcceptFresh listener) tr) : Table listener tr s := by
  refine hrun.invariant_of_always (Table listener) table_start ?_ hf
  intro tr s a s' es h hf _ hs
  exact (step_table h hf hs).2

theorem listener_notMem_of_table {tr : List Call} (h : Table listener tr s) :
    listener ∉ connected tr := by
  obtain ⟨cs, -, hnd, hmem⟩ := h.listed
  exact fun hl => (List.nodup_cons.1 hnd).1 ((hmem listener).2 hl)

/-- **The poll server's table and relay.** After every step of every run, whatever the contents
of fresh memory and whatever the calls answered: `pfds[0]` is the listener,
`1 <= fd_count <= fd_size`, the descriptors are pairwise distinct and those after the first are
the connected sockets. The next step passes a received chunk once to every other client and to
nobody else, and it is defined as long as `realloc` succeeds and fewer than 2^30 sockets are
open. -/
theorem poll_run_table {tr : List Call}
    (hrun : Reactive.Run (step mem listener) (fun _ _ _ => True) (start mem listener) tr s)
    (hf : Reactive.Always (AcceptFresh listener) tr) :
    (s.pfds[0]?.map Pollfd.fd = some listener ∧ 1 ≤ s.fdCount ∧ s.fdCount ≤ s.fdSize ∧
      s.pfds.length = s.fdSize ∧ s.fds.Nodup ∧ ∀ fd, fd ∈ s.fds.tail ↔ fd ∈ connected tr) ∧
    (∀ a s' es, step mem listener s a = some (s', es) →
      Reactive.Always (AcceptFresh listener) (tr ++ es) → Relays listener (connected tr) es) ∧
    (∀ a, s.pc ≠ .exited → a.realloc = true →
      (∀ fd, a.accept = some fd → (connected tr).card + 2 < 2 ^ 30) →
      ∃ r, step mem listener s a = some r) := by
  have h := table_of_run hrun hf
  obtain ⟨hb, h1, hle⟩ := h.shape
  obtain ⟨cs, hcs, hnd, hmem⟩ := h.listed
  refine ⟨⟨?_, h1, hle, hb, by rw [hcs]; exact hnd, by rw [hcs]; exact hmem⟩, ?_, ?_⟩
  · have h0 : s.pfds[0]? = some s.pfds[0] := List.getElem?_eq_getElem (by omega)
    have hget := getElem_fds h1 h0
    rw [hcs, List.getElem?_cons_zero] at hget
    rw [h0, Option.map_some]
    exact hget.symm
  · intro a s' es hs hf'
    obtain ⟨⟨H, hstep⟩, -⟩ := step_table h hf' hs
    exact hstep.relays (listener_notMem_of_table h)
  · intro a hpc hr hroom
    exact h.progress hpc hr hroom

/-- Clients 4 and 5 connect; then only 4 is readable. -/
def twoClients : List Answer :=
  [{ poll := some fun _ => 1 }, { accept := some 4 }, {}, {},
   { poll := some fun k => 1 - k }, { accept := some 5 }, {}, {}, {},
   { poll := some fun k => if k = 1 then 1 else 0 }, {}]

theorem poll_run_table_two_clients :
    Relays 3 (connected [.poll [(3, 1)], .accept (some 4), .poll [(3, 1), (4, 0)], .accept (some 5),
      .poll [(3, 0), (4, 1), (5, 0)]]) [.recv 4 (some [104, 105]), .send 5 [104, 105]] := by
  have hexec : Reactive.exec (step (fun _ => ⟨0, 0, 0⟩) 3) (start (fun _ => ⟨0, 0, 0⟩) 3) twoClients = some
      (⟨[⟨3, 1, 0⟩, ⟨4, 1, 1⟩, ⟨5, 1, 0⟩, ⟨0, 0, 0⟩, ⟨0, 0, 0⟩], 3, 5, .scan 1⟩,
       [.poll [(3, 1)], .accept (some 4), .poll [(3, 1), (4, 0)], .accept (some 5),
        .poll [(3, 0), (4, 1), (5, 0)]]) := rfl
  have hrun := Reactive.Run.exec (C := fun _ _ _ => True) (fun _ _ _ => trivial) .start hexec
  refine (poll_run_table hrun ?_).2.1 { recv := some [104, 105] } _ _ rfl ?_ <;>
    simp [Reactive.always_cons, AcceptFresh, connected]

/-! ## Which sockets are read -/

/-- What the most recent `poll` was given and reported. -/
def lastPoll (tr : List Call) : List (Fd × Nat) :=
  tr.foldl (fun last c => match c with | .poll es => es | _ => last) []

/-- `recv` only on a socket whose entry the last `poll` was given and reported readable. -/
def Polled (pre : List Call) (c : Call) : Prop :=
  ∀ fd r, c = .recv fd r → ∃ rev, (fd, rev) ∈ lastPoll pre ∧ rev &&& POLLIN ≠ 0

/-- The step is about to put a new connection into the array. -/
def Accepts (listener : Fd) (s : State) (a : Answer) : Prop :=
  ∃ i e newfd, s.pc = .scan i ∧ i < s.fdCount ∧ s.pfds[i]? = some e ∧ e.readable = true ∧
    e.fd = listener ∧ a.accept = some newfd

/-- No new connection goes into a cell that still carries `POLLIN`. -/
def CleanSlot (listener : Fd) (s : State) (a : Answer) : Prop :=
  Accepts listener s a → ∀ e, s.pfds[s.fdCount]? = some e → e.readable = false

/-- `malloc` and `realloc` deliver zeroed memory. -/
def zeroMem : Nat → Pollfd := fun _ => ⟨0, 0, 0⟩

theorem lastPoll_append (tr : List Call) {es : List Call} (h : ∀ l, Call.poll l ∉ es) :
    lastPoll (tr ++ es) = lastPoll tr := by
  induction es generalizing tr with
  | nil => simp
  | cons c es ih =>
    rw [List.append_cons, ih _ fun l hl => h l (List.mem_cons_of_mem c hl)]
    cases c with
    | poll l => exact absurd List.mem_cons_self (h l)
    | _ => simp [lastPoll, List.foldl_append]

theorem lastPoll_poll (tr : List Call) (l : List (Fd × Nat)) : lastPoll (tr ++ [.poll l]) = l := by
  simp [lastPoll, List.foldl_append]

theorem always_polled {tr es : List Call} (h : ∀ fd r, Call.recv fd r ∉ es) :
    Reactive.Always (fun pre => Polled (tr ++ pre)) es := by
  apply Reactive.always_of_forall
  intro c hc pre fd r hr
  subst hr
  exact absurd hc (h fd r)

theorem always_polled_recv {tr rest : List Call} {e : Pollfd} {r : Option (List UInt8)}
    (he : e.readable = true) (hlast : (e.fd, e.revents) ∈ lastPoll tr)
    (hrest : ∀ fd r, Call.recv fd r ∉ rest) :
    Reactive.Always (fun pre => Polled (tr ++ pre)) (.recv e.fd r :: rest) := by
  refine Reactive.always_cons.2 ⟨?_, ?_⟩
  · intro fd r hr
    cases hr
    rw [List.append_nil]
    exact ⟨e.revents, hlast, by simpa [Pollfd.readable] using he⟩
  · apply Reactive.always_of_forall
    intro c hc pre fd r hr
    subst hr
    exact absurd hc (hrest fd r)

/-- The entries the scan has still to look at are marked as the last `poll` marked them; entry 0
is the listener's and is never deleted. -/
structure Marked (listener : Fd) (tr : List Call) (s : State) : Prop where
  shape : Shape s
  head : ∃ e, s.pfds[0]? = some e ∧ e.fd = listener
  marks : ∀ i, s.pc = .scan i → ∀ k e, i ≤ k → k < s.fdCount → s.pfds[k]? = some e →
    e.readable = true → (e.fd, e.revents) ∈ lastPoll tr

theorem marked_start : Marked listener [] (start mem listener) := by
  refine ⟨⟨rfl, Nat.le_refl 1, show 1 ≤ 5 by decide⟩, ⟨_, rfl, rfl⟩, ?_⟩
  intro i hpc
  cases hpc

theorem Marked.unscanned {tr : List Call} (h : Marked listener tr s) {pc : Pc} (hpc : ∀ i, pc ≠ .scan i) :
    Marked listener tr { s with pc := pc } :=
  ⟨h.shape.withPc pc, h.head, fun i hi => absurd hi (hpc i)⟩

theorem Marked.poll {tr : List Call} (h : Marked listener tr s) (rev : Nat → Nat) :
    let pfds := pollWrite s.fdCount rev s.pfds
    Marked listener (tr ++ [.poll ((pfds.take s.fdCount).map fun e => (e.fd, e.revents))])
      { s with pfds, pc := .scan 0 } := by
  have hlen : (pollWrite s.fdCount rev s.pfds).length = s.pfds.length := by simp [pollWrite]
  obtain ⟨e0, he0, hl0⟩ := h.head
  refine ⟨⟨hlen.trans h.shape.block, h.shape.one_le, h.shape.le⟩, ?_, ?_⟩
  · have hpos : 0 < s.fdCount := h.shape.one_le
    exact ⟨{ e0 with revents := rev 0 }, by simp [pollWrite, he0, hpos], hl0⟩
  · intro i _ k e _ hk he _
    rw [lastPoll_poll]
    refine List.mem_map.2 ⟨e, ?_, rfl⟩
    exact List.mem_of_getElem? (i := k) (by rw [List.getElem?_take_of_lt hk]; exact he)

/-- A round that leaves the entries alone. -/
theorem Marked.skip {tr es : List Call} (h : Marked listener tr s) {i : Nat} (hpc : s.pc = .scan i)
    (hes : ∀ l, Call.poll l ∉ es) : Marked listener (tr ++ es) { s with pc := .scan (i + 1) } := by
  refine ⟨h.shape.withPc _, h.head, ?_⟩
  intro j hj k e hjk
  cases hj
  rw [lastPoll_append tr hes]
  exact h.marks i hpc k e (by omega)

theorem Marked.add {tr : List Call} (h : Marked listener tr s) {i : Nat} (hpc : s.pc = .scan i)
    {r : Bool} {newfd : Fd} (hadd : addToPfds zeroMem r newfd s = some s')
    (hclean : ∀ e, s.pfds[s.fdCount]? = some e → e.readable = false) :
    Marked listener (tr ++ [.accept (some newfd)]) { s' with pc := .scan (i + 1) } := by
  obtain ⟨hshape, hcount, -, -, hkeep, c, hold, hnew⟩ := addToPfds_spec h.shape hadd
  obtain ⟨e0, he0, hl0⟩ := h.head
  refine ⟨hshape.withPc _, ⟨e0, (hkeep 0 h.shape.one_le).trans he0, hl0⟩, ?_⟩
  intro j hj k e hjk hk he hr
  cases hj
  rw [lastPoll_append tr (by simp)]
  simp only at hk he
  by_cases hlast : k = s.fdCount
  · -- the new entry's cell was clean, so the scan will not read it
    subst hlast
    rw [hnew, Option.some.injEq] at he
    have hc : c.readable = false := by
      rcases hold with hold | ⟨-, rfl⟩
      · exact hclean c hold
      · simp [zeroMem, Pollfd.readable]
    have hsame : e.readable = c.readable := by rw [← he]; rfl
    rw [hsame, hc] at hr
    cases hr
  · exact h.marks i hpc k e (by omega) (by omega) ((hkeep k (by omega)).symm.trans he) hr

theorem Marked.del {tr es : List Call} (h : Marked listener tr s) {i : Nat} (hpc : s.pc = .scan i)
    {e : Pollfd} (hi : i < s.fdCount) (he : s.pfds[i]? = some e) (hl : e.fd ≠ listener)
    (hdel : delFromPfds i s = some s') (hes : ∀ l, Call.poll l ∉ es) :
    Marked listener (tr ++ es) { s' with pc := .scan (i + 1) } := by
  obtain ⟨hsz, hlen, hcount, -, hkeep, -⟩ := delFromPfds_spec h.shape hi hdel
  obtain ⟨e0, he0, hl0⟩ := h.head
  have hi0 : i ≠ 0 := by
    rintro rfl
    rw [he, Option.some.injEq] at he0
    exact hl (he0 ▸ hl0)
  have hle := h.shape.le
  refine ⟨⟨hlen, by simp only; omega, by simp only; omega⟩,
    ⟨e0, (hkeep 0 (Ne.symm hi0)).trans he0, hl0⟩, fun j hj k e' hjk hk he' => ?_⟩
  cases hj
  rw [lastPoll_append tr hes]
  simp only at hk he'
  exact h.marks i hpc k e' (by omega) (by omega) ((hkeep k (by omega)).symm.trans he')

/-- **One step** of a scan that meets only clean cells. -/
theorem step_marked {tr es : List Call} {a : Answer} (h : Marked listener tr s)
    (hc : CleanSlot listener s a) (hs : step zeroMem listener s a = some (s', es)) :
    Marked listener (tr ++ es) s' ∧ Reactive.Always (fun pre => Polled (tr ++ pre)) es := by
  rcases step_cases hs with ⟨-, -, rfl, rfl⟩ | ⟨-, rev, -, hle, rfl, rfl⟩ |
    ⟨i, hpc, hi, s1, hscan, rfl⟩ | ⟨i, -, -, rfl, rfl⟩
  · exact ⟨by simpa using h.unscanned (by simp), Reactive.always_nil _⟩
  · exact ⟨h.poll rev, always_polled (by simp)⟩
  · obtain ⟨e, he, hcase⟩ := scanEntry_cases hscan
    have hmark := h.marks i hpc i e (Nat.le_refl i) hi he
    rcases hcase with ⟨-, rfl, rfl⟩ | ⟨-, -, -, rfl, rfl⟩ | ⟨hread, hl, newfd, hacc, hadd, rfl⟩ |
      ⟨hread, -, bytes, -, -, rfl, rfl⟩ | ⟨hread, hl, -, hdel, rfl⟩
    · exact ⟨h.skip hpc (by simp), Reactive.always_nil _⟩
    · exact ⟨h.skip hpc (by simp), always_polled (by simp)⟩
    · exact ⟨h.add hpc hadd (hc ⟨i, e, newfd, hpc, hi, he, hread, hl, hacc⟩), always_polled (by simp)⟩
    · exact ⟨h.skip hpc (by simp [sends]), always_polled_recv hread (hmark hread) (by simp [sends])⟩
    · exact ⟨h.del hpc hi he hl hdel (by simp), always_polled_recv hread (hmark hread) (by simp)⟩
  · exact ⟨by simpa using h.unscanned (by simp), Reactive.always_nil _⟩

/-- **Only polled sockets are read**, in every run in which no connection is accepted into a cell
whose left-over `revents` has `POLLIN` set. -/
theorem poll_run_polled {tr : List Call}
    (hrun : Reactive.Run (step zeroMem listener) (fun _ s a => CleanSlot listener s a)
      (start zeroMem listener) tr s) : Reactive.Always Polled tr := by
  refine (Reactive.Run.always (Marked listener) marked_start ?_ hrun).2
  intro tr s a s' es hm hc hs
  exact step_marked hm hc hs

/-- A client that is polled and then heard. -/
theorem poll_run_polled_client :
    Reactive.Always Polled [.poll [(3, 1)], .accept (some 4), .poll [(3, 0), (4, 1)],
      .recv 4 (some [104, 105])] := by
  have hclean : ∀ s : State, s.pfds[s.fdCount]? = some ⟨0, 0, 0⟩ → ∀ a, CleanSlot 3 s a := by
    intro s hs a _ e he
    rw [hs, Option.some.injEq] at he
    subst he
    rfl
  have r0 : Reactive.Run (step zeroMem 3) (fun _ s a => CleanSlot 3 s a) (start zeroMem 3) [] _ := .start
  have r1 := r0.next (i := { poll := some fun _ => 1 }) (hclean _ rfl _) rfl
  have r2 := r1.next (i := { accept := some 4 }) (hclean _ rfl _) rfl
  have r3 := r2.next (i := {}) (hclean _ rfl _) rfl
  have r4 := r3.next (i := {}) (hclean _ rfl _) rfl
  have r5 := r4.next (i := { poll := some fun k => k }) (hclean _ rfl _) rfl
  have r6 := r5.next (i := {}) (hclean _ rfl _) rfl
  have r7 := r6.next (i := { recv := some [104, 105] }) (hclean _ rfl _) rfl
  exact poll_run_polled r7

/-! ### The defect -/

/-- Client 4 connects and hangs up; then client 5 connects in a pass whose `poll` was given the
listener alone. -/
def staleRun : List Answer :=
  [{ poll := some fun _ => 1 }, { accept := some 4 }, {}, {},
   { poll := some fun k => k }, {}, { recv := some [] }, {},
   { poll := some fun _ => 1 }, { accept := some 5 }, { recv := some [104, 105] }]

/-- **A socket is read that was never polled.** -/
theorem poll_recv_unpolled :
    ¬ ∀ listener tr s, Reactive.Run (step zeroMem listener) (fun _ _ _ => True)
      (start zeroMem listener) tr s → Reactive.Always (AcceptFresh listener) tr →
      Reactive.Always Polled tr := by
  intro hclaim
  have hexec : Reactive.exec (step zeroMem 3) (start zeroMem 3) staleRun = some
      (⟨[⟨3, 1, 1⟩, ⟨5, 1, 1⟩, ⟨0, 0, 0⟩, ⟨0, 0, 0⟩, ⟨0, 0, 0⟩], 2, 5, .scan 2⟩,
       [.poll [(3, 1)], .accept (some 4), .poll [(3, 0), (4, 1)], .recv 4 (some []), .close 4,
        .poll [(3, 1)], .accept (some 5), .recv 5 (some [104, 105])]) := rfl
  have hrun := Reactive.Run.exec (C := fun _ _ _ => True) (fun _ _ _ => trivial) .start hexec
  have hfresh : Reactive.Always (AcceptFresh 3)
      [.poll [(3, 1)], .accept (some 4), .poll [(3, 0), (4, 1)], .recv 4 (some []), .close 4,
        .poll [(3, 1)], .accept (some 5), .recv 5 (some [104, 105])] := by
    simp [Reactive.always_cons, AcceptFresh, connected]
  obtain ⟨rev, hmem, -⟩ := hclaim 3 _ _ hrun hfresh
    [.poll [(3, 1)], .accept (some 4), .poll [(3, 0), (4, 1)], .recv 4 (some []), .close 4,
      .poll [(3, 1)], .accept (some 5)] _ [] rfl 5 _ rfl
  simp [lastPoll] at hmem

end CHell.Chat.Poll
