import CHell.Netlink.DumpWalk

/-!
# Which part of a dump is printed

The kernel answers a dump with as many datagrams as it takes, the last message being `NLMSG_DONE`.
`get_route_dump_response` receives one datagram and hands its messages to `print_route` until it
meets one that is flagged `NLM_F_DUMP_INTR` (`dump_response_handed`); it does not look for
`NLMSG_DONE`. So it prints the routes of the dump, all and only, in two cases only
(`dump_handed_iff`).
-/

namespace CHell.Netlink

open CInt Memory Records

theorem handed_append (es es' : List DumpEvent) : handed (es ++ es') = handed es ++ handed es' :=
  List.filterMap_append

theorem handed_msgEvents (o : Nat) (xs : List Msg) :
    handed ((place 4 Msg.bytes o xs).flatMap msgEvents) = xs.map Msg.bytes := by
  induction xs generalizing o with
  | nil => rfl
  | cons x xs ih =>
    have hone : handed (msgEvents (o, x)) = [x.bytes] := by
      unfold msgEvents handed
      split <;> rfl
    rw [place, List.flatMap_cons, handed_append, hone, ih, List.map_cons]
    rfl

theorem Ending.handed {tail : List DumpEvent} (h : Ending tail) : handed tail = [] := by
  rcases h with rfl | ⟨o, rfl⟩ <;> rfl

/-! ## The whole dump -/

/-- What the kernel answers to a dump request: the messages, and how they are cut into datagrams. -/
structure RouteDump where
  routes : List Msg
  done : Msg
  parts : List (List Msg)
  routes_type : ∀ x ∈ routes, x.type = RTM_NEWROUTE
  done_type : done.type = NLMSG_DONE
  parts_flatten : parts.flatten = routes ++ [done]

theorem Msg.bytes_injective : Function.Injective Msg.bytes := by
  rintro ⟨bs, _, _⟩ ⟨cs, _, _⟩ (rfl : bs = cs)
  rfl

theorem Datagram.Carries.length_eq_zero {d : Datagram} {xs : List Msg} (h : d.Carries xs) :
    d.bytes.length = 0 ↔ xs = [] := by
  constructor
  · intro hzero
    cases xs with
    | nil => rfl
    | cons x xs =>
      have hle := x.header_le
      have hend := (slice_eq_some.1 h.laid.1).1
      omega
  · rintro rfl
    simpa using h.length_le

/-- **One call of `get_route_dump_response`**: it returns, and leaves the trace of a failed receive, if the first
datagram is empty, or that of the messages in front of the first interrupted one. -/
theorem dump_response_trace {d : Datagram} (rest : List Datagram) {script : List (Option RecvError)} {xs : List Msg}
    (hd : d.Carries xs) (hscript : Patient 2 script) :
    ∃ r, (∃ rounds sock', getRouteDumpResponse rounds true { queue := d :: rest, script } = some (some r, sock')) ∧
      (∀ rounds r' sock', getRouteDumpResponse rounds true { queue := d :: rest, script } = some (r', sock') →
        r' = some r) ∧
      if d.bytes.length = 0 then r.2 = [.heading, .free]
      else ∃ tail, Ending tail ∧ r.2 = [.alloc, .heading] ++
        (place 4 Msg.bytes 0 (xs.takeWhile fun x => !x.interrupted)).flatMap msgEvents ++ tail := by
  by_cases hempty : d.bytes.length = 0
  · have hscript1 : Patient 1 script := ⟨hscript.1, Nat.le_of_succ_le hscript.2⟩
    obtain ⟨script', hrecv⟩ := rtnlRecvmsg_empty rest hempty hscript1
    have hexit : Loop.Returns (dumpBody [] d.pid (-ENODATA))
        { h := 0, msglen := -ENODATA, events := [] ++ [.heading] } (some (-ENODATA, [.heading, .free])) :=
      .of_exit rfl
    obtain ⟨⟨n, hn⟩, hunique⟩ := response_of_returns hrecv hexit
    exact ⟨_, ⟨n, _, hn⟩, hunique, (if_pos hempty).mpr rfl⟩
  · obtain ⟨script', hrecv⟩ := rtnlRecvmsg_patient rest hempty hscript
    obtain ⟨ret, tail, htail, hret⟩ := dumpBody_trace hd.messages hd.pid d.bytes.length [.alloc, .heading]
    have hstart : dumpAt d.bytes 0 [.alloc, .heading] =
        { h := 0, msglen := d.bytes.length, events := [.alloc] ++ [.heading] } := by simp [dumpAt]
    rw [hstart] at hret
    obtain ⟨⟨n, hn⟩, hunique⟩ := response_of_returns hrecv hret
    exact ⟨_, ⟨n, _, hn⟩, hunique, (if_neg hempty).mpr ⟨tail, htail, rfl⟩⟩

theorem handed_of_trace {d : Datagram} {xs : List Msg} (hd : d.Carries xs) {events : List DumpEvent}
    (htrace : if d.bytes.length = 0 then events = [.heading, .free]
      else ∃ tail, Ending tail ∧ events = [.alloc, .heading] ++
        (place 4 Msg.bytes 0 (xs.takeWhile fun x => !x.interrupted)).flatMap msgEvents ++ tail) :
    handed events = (xs.takeWhile fun x => !x.interrupted).map Msg.bytes := by
  split at htrace
  · rename_i hempty
    rw [htrace, hd.length_eq_zero.1 hempty]
    rfl
  · obtain ⟨tail, htail, hevents⟩ := htrace
    rw [hevents, handed_append, handed_append, handed_msgEvents, htail.handed, List.append_nil]
    rfl

theorem dump_response_handed {d : Datagram} (rest : List Datagram) {script : List (Option RecvError)} {xs : List Msg}
    (hd : d.Carries xs) (hscript : Patient 2 script) :
    ∃ r, (∃ rounds sock', getRouteDumpResponse rounds true { queue := d :: rest, script } = some (some r, sock')) ∧
      (∀ rounds r' sock', getRouteDumpResponse rounds true { queue := d :: rest, script } = some (r', sock') →
        r' = some r) ∧
      handed r.2 = (xs.takeWhile fun x => !x.interrupted).map Msg.bytes := by
  obtain ⟨r, hreturns, hunique, htrace⟩ := dump_response_trace rest hd hscript
  exact ⟨r, hreturns, hunique, handed_of_trace hd htrace⟩

/-- A front part of `xs ++ [y]` shows `xs` up to its first element without `p` in two cases. -/
theorem takeWhile_front_eq_iff {α : Type*} {p : α → Bool} {front rest xs : List α} {y : α}
    (h : front ++ rest = xs ++ [y]) :
    front.takeWhile p = xs ↔ (∀ x ∈ xs, p x = true) ∧ (front = xs ∨ front = xs ++ [y] ∧ p y = false) := by
  constructor
  · intro hxs
    have hall : ∀ x ∈ xs, p x = true := hxs ▸ List.all_eq_true.1 List.all_takeWhile
    have hsplit := List.takeWhile_append_dropWhile (p := p) (l := front)
    rw [hxs] at hsplit
    refine ⟨hall, ?_⟩
    generalize front.dropWhile p = tail at hsplit
    subst hsplit
    rw [List.append_assoc, List.append_cancel_left_eq] at h
    rcases List.append_eq_singleton_iff.1 h with ⟨rfl, -⟩ | ⟨rfl, -⟩
    · exact Or.inl (List.append_nil xs)
    · refine Or.inr ⟨rfl, ?_⟩
      rw [List.takeWhile_append_of_pos hall] at hxs
      cases hy : p y with
      | false => rfl
      | true => simp [hy] at hxs
  · rintro ⟨hall, rfl | ⟨rfl, hy⟩⟩
    · exact List.takeWhile_eq_self_iff.2 hall
    · rw [List.takeWhile_append_of_pos hall]
      simp [hy]

/-- **Which dumps are printed as they should be.** Every route message is handed to `print_route`
once and in order, and nothing else is, exactly if no route message is flagged as interrupted and
the first datagram holds the routes alone, or the routes and an `NLMSG_DONE` that is flagged. -/
theorem dump_handed_iff (D : RouteDump) {sock : Sock} (hqueue : List.Forall₂ Datagram.Carries sock.queue D.parts)
    (hscript : Patient 2 sock.script) :
    (∃ rounds ret events sock', getRouteDumpResponse rounds true sock = some (some (ret, events), sock') ∧
      handed events = D.routes.map Msg.bytes) ↔
    (∀ x ∈ D.routes, x.interrupted = false) ∧
      (D.parts.head? = some D.routes ∨
       D.parts.head? = some (D.routes ++ [D.done]) ∧ D.done.interrupted = true) := by
  obtain ⟨queue, script⟩ := sock
  have hflat := D.parts_flatten
  generalize D.parts = parts at hqueue hflat ⊢
  cases hqueue with
  | nil => simp at hflat
  | @cons d xs rest parts hd _ =>
    rw [List.flatten_cons] at hflat
    obtain ⟨r, hreturns, hunique, hhanded⟩ := dump_response_handed rest hd hscript
    have hiff := takeWhile_front_eq_iff (p := fun x : Msg => !x.interrupted) hflat
    simp only [Bool.not_eq_true', Bool.not_eq_false'] at hiff
    simp only [List.head?_cons, Option.some.injEq]
    rw [← hiff]
    constructor
    · rintro ⟨rounds, ret, events, sock', hresponse, heq⟩
      cases Option.some.inj (hunique _ _ _ hresponse)
      exact List.map_injective_iff.2 Msg.bytes_injective (hhanded.symm.trans heq)
    · intro heq
      obtain ⟨rounds, sock', hresponse⟩ := hreturns
      exact ⟨rounds, r.1, r.2, sock', hresponse, by rw [hhanded, heq]⟩

/-- A message with nothing but its length, a type and the flag `NLM_F_MULTI`. -/
def sampleMsg (type mark : UInt8) : Msg where
  bytes := [28, 0, 0, 0, type, 0, 2, 0] ++ List.replicate 19 0 ++ [mark]
  len := rfl
  header_le := by simp

/-- A datagram of one or two messages. -/
def sampleDatagram (xs : List Msg) (h : ((xs.flatMap Msg.bytes).length : Int) ≤ INT_MAX) : Datagram where
  bytes := xs.flatMap Msg.bytes
  pid := 0
  size_le := h

/-- A dump whose `NLMSG_DONE` comes alone. -/
theorem dump_handed_sample :
    ∃ rounds ret events sock', getRouteDumpResponse rounds true
        { queue := [sampleDatagram [sampleMsg 24 1] (by decide), sampleDatagram [sampleMsg 3 0] (by decide)]
          script := [some ⟨EINTR, EINTR⟩, none, none] } = some (some (ret, events), sock') ∧
      handed events = [(sampleMsg 24 1).bytes] :=
  (dump_handed_iff
    { routes := [sampleMsg 24 1], done := sampleMsg 3 0, parts := [[sampleMsg 24 1], [sampleMsg 3 0]]
      routes_type := by decide, done_type := rfl, parts_flatten := rfl }
    (.cons ⟨rfl, ⟨rfl, trivial⟩, by decide⟩ (.cons ⟨rfl, ⟨rfl, trivial⟩, by decide⟩ .nil))
    ⟨by simp [EINTR], by decide⟩).2 ⟨by decide, Or.inl rfl⟩

/-- **A dump of two datagrams is cut short**: the second route is not printed. -/
theorem dump_cut_short :
    ¬ ∀ (D : RouteDump) (sock : Sock), List.Forall₂ Datagram.Carries sock.queue D.parts →
      Patient 2 sock.script →
      ∃ rounds ret events sock', getRouteDumpResponse rounds true sock = some (some (ret, events), sock') ∧
        handed events = D.routes.map Msg.bytes := by
  intro hclaim
  have hfirst : (sampleDatagram [sampleMsg 24 1] (by decide)).Carries [sampleMsg 24 1] :=
    ⟨rfl, ⟨rfl, trivial⟩, by decide⟩
  have hsecond : (sampleDatagram [sampleMsg 24 2, sampleMsg 3 0] (by decide)).Carries
      [sampleMsg 24 2, sampleMsg 3 0] := ⟨rfl, ⟨rfl, rfl, trivial⟩, by decide⟩
  have hscript : Patient 2 [none, none] := ⟨by simp, by decide⟩
  obtain ⟨rounds, ret, events, sock', hresponse, hevents⟩ := hclaim
    { routes := [sampleMsg 24 1, sampleMsg 24 2], done := sampleMsg 3 0
      parts := [[sampleMsg 24 1], [sampleMsg 24 2, sampleMsg 3 0]]
      routes_type := by decide, done_type := rfl, parts_flatten := rfl }
    { queue := [_, _], script := [none, none] } (.cons hfirst (.cons hsecond .nil)) hscript
  obtain ⟨r, -, hunique, hhanded⟩ := dump_response_handed _ hfirst hscript
  cases Option.some.inj (hunique _ _ _ hresponse)
  rw [hhanded] at hevents
  exact absurd hevents (by decide)

end CHell.Netlink
