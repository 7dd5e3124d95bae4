import CHell.Sniffer.Versions

/-!
# From packets to routes

Version 3 on a capture of any packets, whatever `malloc`, `open_netlink` and `send` answer, as long as it stays inside
the memory that it is given (`Event.within`): it asks for too little of it. `routed es` are the requests it makes. They
are requests for host routes through its interface to the sources of the resets, in the order in which these sources
first appear, and each once (`routed_once`). The first call that fails is the end of the program, so at most one
source is left without a request.
-/

namespace CHell.Sniffer

open CInt Inet Netlink Dedup

variable {p : InetPton} {conf : Config} {mem : Nat → UInt8} {a : Answer}

/-- The calls of `do_route`, with all they are given. -/
def routed (es : List Event) : List (Int × InetAddr × Int) :=
  es.filterMap fun e => match e with
    | .doRoute flags dst ifIdx => some (flags, dst, ifIdx)
    | _ => none

/-- The access stays inside an array of `cells` cells, and inside a block of `room n` bytes where `n` were asked for. -/
def Event.within (cells : Nat) (room : Nat → Nat) : Event → Bool
  | .slot i => decide (i < cells)
  | .strcpy size text => decide (text.length + 1 ≤ room size)
  | .doRoute _ _ _ => true

/-- The call for a source. -/
def Config.request (conf : Config) (x : InAddr) : Int × InetAddr × Int := (conf.netlinkFlags, routeTo x, conf.ifaceId)

theorem routed_append (es es' : List Event) : routed (es ++ es') = routed es ++ routed es' := List.filterMap_append

theorem routed_isNew (conf : Config) (src : List UInt8) : routed (isNew conf src).2 = [] := by
  refine List.filterMap_eq_nil_iff.2 ?_
  intro e he
  obtain ⟨k, -, rfl⟩ := slot_of_isNew he
  rfl

/-! ## One packet -/

theorem record_cases (conf : Config) (text : List UInt8) (malloc : Bool) :
    ∃ status conf' es, record conf text malloc = (status, conf', es) ∧ routed es = [] ∧
      (∀ x, conf'.request x = conf.request x) ∧
      (status = .undefined ∨ status = .running ∧ conf'.texts = conf.texts ++ [text]) := by
  cases malloc with
  | false => exact ⟨_, _, _, rfl, rfl, fun _ => rfl, .inl rfl⟩
  | true =>
    unfold record
    rw [if_neg (by decide)]
    split
    · exact ⟨_, _, _, rfl, rfl, fun _ => rfl, .inl rfl⟩
    · exact ⟨_, _, _, rfl, rfl, fun _ => rfl, .inr ⟨rfl, by simp [Config.texts]⟩⟩

/-- Without a socket nothing is requested; with one the route is, and then `send` decides. -/
theorem reroute_cases (hp : Recovers p) (conf : Config) (a : Answer) (x : InAddr) :
    reroute p conf (inetNtoa x) a = (.exited, []) ∨
      ∃ status, reroute p conf (inetNtoa x) a = (status, [.doRoute conf.netlinkFlags (routeTo x) conf.ifaceId]) := by
  obtain ⟨m, hm, -⟩ := doRoute_v4 (routeTo x) a.request conf.netlinkFlags conf.ifaceId rfl rfl
  unfold reroute
  simp only [readAddr_ntoa hp, hm]
  split
  · exact .inl rfl
  · exact .inr ⟨_, rfl⟩

/-- **A packet with a new source.** It is requested a route for and entered into the list, or the program ends here. -/
theorem pktHdr_first (hp : Recovers p) (h : Passes mem) (hnew : inetNtoa (sourceAt mem) ∉ conf.texts) :
    ∃ status conf' es, pktHdr p conf (whole mem) a = (status, conf', es) ∧
      (routed es = [conf.request (sourceAt mem)] ∨ routed es = [] ∧ status ≠ .running) ∧
      (status = .running → conf'.texts = conf.texts ++ [inetNtoa (sourceAt mem)] ∧
        ∀ x, conf'.request x = conf.request x) := by
  have htests := resetSource_total mem false
  rw [if_pos h] at htests
  have hsearch : ¬ (if inetNtoa (sourceAt mem) ∈ conf.texts then (-1 : Int) else 0) = -1 := by
    rw [if_neg hnew]
    decide
  obtain ⟨status, conf', es, hrecord, hnothing, hrequest, hcases⟩ := record_cases conf (inetNtoa (sourceAt mem)) a.malloc
  have hquiet := routed_isNew conf (inetNtoa (sourceAt mem))
  unfold pktHdr whole
  simp only [htests, isNew_fst, if_neg hsearch, hrecord]
  rcases hcases with rfl | ⟨rfl, htexts⟩
  · refine ⟨_, _, _, rfl, .inr ⟨?_, by simp⟩, by simp⟩
    rw [routed_append, hquiet, hnothing]
    rfl
  · rcases reroute_cases hp conf' a (sourceAt mem) with hroute | ⟨status, hroute⟩
    · refine ⟨_, _, _, rfl, .inr ⟨?_, by simp [hroute]⟩, by simp [hroute]⟩
      rw [routed_append, routed_append, hquiet, hnothing, hroute]
      rfl
    · refine ⟨_, _, _, rfl, .inl ?_, fun _ => ⟨htexts, hrequest⟩⟩
      rw [routed_append, routed_append, hquiet, hnothing, hroute, ← hrequest]
      rfl

/-! ## A capture -/

theorem exec_stopped {s s' : State} {is : Capture} {es : List Event} (hs : s.status ≠ .running)
    (h : Reactive.exec (step p) s (feed is) = some (s', es)) : is = [] ∧ s' = s ∧ es = [] := by
  cases is with
  | nil =>
    cases h
    exact ⟨rfl, rfl, rfl⟩
  | cons i is =>
    obtain ⟨s1, es1, es2, hstep, -⟩ := Reactive.exec_cons_eq_some.1 h
    rw [step, if_neg hs] at hstep
    cases hstep

theorem routed_exec (hp : Recovers p) {is : Capture} {conf : Config} {seen : List InAddr} {s : State} {es : List Event}
    (htexts : conf.texts = seen.map inetNtoa)
    (h : Reactive.exec (step p) { status := .running, conf } (feed is) = some (s, es)) :
    ∃ done left, firsts seen (resets is) = done ++ left ∧ routed es = done.map conf.request ∧ left.length ≤ 1 ∧
      (s.status = .running → left = []) := by
  induction is generalizing conf seen es with
  | nil =>
    cases h
    exact ⟨[], [], rfl, rfl, by simp, fun _ => rfl⟩
  | cons i is ih =>
    obtain ⟨s1, es1, es2, hstep, hrest, rfl⟩ := Reactive.exec_cons_eq_some.1 h
    rw [routed_append, resets_cons]
    by_cases hpasses : Passes i.1
    · have hmem : inetNtoa (sourceAt i.1) ∈ conf.texts ↔ sourceAt i.1 ∈ seen := by
        rw [htexts]
        exact List.mem_map_of_injective inetNtoa_injective
      rw [if_pos hpasses, firsts]
      by_cases hseen : sourceAt i.1 ∈ seen
      · have hpacket := pktHdr_listed (p := p) (a := i.2) hpasses (hmem.2 hseen)
        cases (step_running hpacket).symm.trans hstep
        rw [if_pos hseen, routed_isNew, List.nil_append]
        exact ih htexts hrest
      · obtain ⟨status, conf', es', hpacket, hrouted, hnext⟩ := pktHdr_first (a := i.2) hp hpasses (hmem.not.2 hseen)
        cases (step_running hpacket).symm.trans hstep
        rw [if_neg hseen]
        by_cases hrunning : status = .running
        · subst hrunning
          obtain ⟨htexts', hrequest⟩ := hnext rfl
          have hone := hrouted.resolve_right (by simp)
          have hlonger : conf'.texts = (seen ++ [sourceAt i.1]).map inetNtoa := by
            rw [htexts', htexts, List.map_append]
            rfl
          obtain ⟨done, left, hfirsts, hdone, hleft, hend⟩ := ih hlonger hrest
          have hsame : conf'.request = conf.request := funext hrequest
          refine ⟨sourceAt i.1 :: done, left, by rw [hfirsts]; rfl, ?_, hleft, hend⟩
          rw [hone, hdone, hsame]
          rfl
        · obtain ⟨rfl, rfl, rfl⟩ := exec_stopped hrunning hrest
          have hnil : routed ([] : List Event) = [] := rfl
          rw [hnil, List.append_nil]
          rcases hrouted with hone | ⟨hnone, -⟩
          · exact ⟨[sourceAt i.1], [], rfl, hone, by simp, fun _ => rfl⟩
          · exact ⟨[], [sourceAt i.1], rfl, hnone, by simp, fun h => absurd h hrunning⟩
    · have hpacket : pktHdr p conf (whole i.1) i.2 = (.running, conf, []) := pktHdr_rejected hpasses
      cases (step_running hpacket).symm.trans hstep
      rw [if_neg hpasses]
      exact ih htexts hrest

/-- **Which routes are asked for.** Whatever the packets are and whatever the calls answer, in a run for which
`calloc` and `malloc` have given enough room: the requests are those for the first occurrences of the sources of the
resets, in this order and no one twice. All are made if the program is still running, and otherwise all or all but
the last. Each is sent as a message that says: a route in the main table to this one address, through the interface
of the program. -/
theorem routed_once (hp : Recovers p) (ifaceId netlinkFlags : Int) (hif : InInt ifaceId) (cells : Nat) (room : Nat → Nat)
    {is : Capture} {s : State} {es : List Event}
    (h : Reactive.exec (Reactive.guard (Event.within cells room) (step p))
      { status := .running, conf := start ifaceId netlinkFlags } (feed is) = some (s, es)) :
    routed es <+: (resets is).eraseDups.map (start ifaceId netlinkFlags).request ∧
    (resets is).eraseDups.length ≤ (routed es).length + 1 ∧
    (s.status = .running → routed es = (resets is).eraseDups.map (start ifaceId netlinkFlags).request) ∧
    (routed es).Nodup ∧
    ∀ r ∈ routed es, ∃ x ∈ resets is, ∀ request, ∃ m, doRoute request r.1 r.2.1 r.2.2 = some m ∧
      DecodesTo m AF_INET x.bytes ifaceId := by
  have hempty : (start ifaceId netlinkFlags).texts = ([] : List InAddr).map inetNtoa := rfl
  have hinj : Function.Injective (start ifaceId netlinkFlags).request :=
    fun x y heq => routeTo_injective (Prod.mk.inj (Prod.mk.inj heq).2).1
  obtain ⟨done, left, hfirsts, hdone, hleft, hend⟩ := routed_exec hp hempty (Reactive.exec_guard.1 h).1
  have hnodup : (done ++ left).Nodup := by
    rw [← hfirsts]
    exact nodup_append_firsts List.nodup_nil (resets is)
  rw [firsts_nil_left] at hfirsts
  rw [hfirsts, hdone, List.map_append, List.length_append, List.length_map]
  refine ⟨List.prefix_append _ _, by omega, fun hrunning => ?_, ?_, ?_⟩
  · rw [hend hrunning, List.map_nil, List.append_nil]
  · exact (List.nodup_append.1 hnodup).1.map hinj
  · intro r hr
    obtain ⟨x, hx, rfl⟩ := List.mem_map.1 hr
    have hmem : x ∈ (resets is).eraseDups := by
      rw [hfirsts]
      exact List.mem_append_left _ hx
    refine ⟨x, List.mem_eraseDups.1 hmem, fun request => ?_⟩
    obtain ⟨m, hm, hdecodes⟩ := doRoute_v4 (routeTo x) request netlinkFlags ifaceId rfl rfl
    exact ⟨m, hm, hdecodes hif⟩

/-- The same packet twice. -/
def twice : Capture := [(padded resetFrame, okAnswer), (padded resetFrame, okAnswer)]

/-- There is one cell, and a block of nine bytes. -/
theorem routed_once_repeated : ∃ s es,
    Reactive.exec (Reactive.guard (Event.within 1 fun _ => 9) (step dottedPton))
      { status := .running, conf := start 3 0x400 } (feed twice) = some (s, es) ∧
    routed es = [(start 3 0x400).request ⟨10, 0, 0, 1⟩] := by
  have hreset : Passes (padded resetFrame) := by decide
  have hnew : inetNtoa (sourceAt (padded resetFrame)) ∉ (start 3 0x400).texts := by simp [start, Config.texts]
  obtain ⟨conf', hfirst, htexts⟩ := pktHdr_new dottedPton_recovers okAnswer_ok (by decide) hreset hnew
  have hmem : inetNtoa (sourceAt (padded resetFrame)) ∈ conf'.texts := by
    rw [htexts]
    exact List.mem_append_right _ (List.mem_singleton_self _)
  have hsecond := pktHdr_listed (p := dottedPton) (a := okAnswer) hreset hmem
  have hexec : Reactive.exec (step dottedPton) { status := .running, conf := start 3 0x400 } (feed twice) = _ :=
    Reactive.exec_cons (step_running hfirst) (Reactive.exec_singleton (step_running hsecond))
  have hinside : Reactive.exec (Reactive.guard (Event.within 1 fun _ => 9) (step dottedPton))
      { status := .running, conf := start 3 0x400 } (feed twice) = _ := Reactive.exec_guard.2 ⟨hexec, ?_⟩
  · have hsources : (resets twice).eraseDups = [⟨10, 0, 0, 1⟩] := by
      rw [twice, resets_cons, if_pos hreset, resets_cons, if_pos hreset]
      decide
    have hrouted := (routed_once dottedPton_recovers 3 0x400 (by decide) 1 (fun _ => 9) hinside).2.2.1 rfl
    rw [hsources] at hrouted
    exact ⟨_, _, hinside, hrouted⟩
  · refine List.forall_mem_append.2 ⟨by decide, ?_⟩
    intro e he
    obtain ⟨k, hk, rfl⟩ := slot_of_isNew he
    rw [htexts] at hk
    simpa [start, Config.texts, Event.within] using hk

end CHell.Sniffer
