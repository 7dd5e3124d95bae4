import CHell.Netlink.DumpRuns

/-!
# How a call of `get_route_dump_response` ends

* `dump_loop_ends_iff`: for a datagram of any bytes from any sender, when the loop over messages is
  left. The `continue` for a sender other than the kernel leaves `h` where it is.
* `dump_buffer_iff`: for every outcome of `rtnl_recvmsg`, when the answer buffer is used only
  between its allocation and its one `free`. If `rtnl_recvmsg` fails, `buf` has no value and is
  freed all the same; behind the `free` for an `NLMSG_ERROR` message the function goes on.
-/

namespace CHell.Netlink

open CInt Memory Records

variable {malloc : Bool} {sock : Sock}

/-! ## The outcomes of `rtnl_recvmsg` -/

/-- `rtnl_recvmsg` delivers the datagram. -/
def Delivers (malloc : Bool) (sock : Sock) (d : Datagram) : Prop :=
  ∃ sock', rtnlRecvmsg malloc sock =
    some ({ status := d.bytes.length, answer := some d.bytes, pid := d.pid, events := [.alloc] }, sock')

/-- It delivers a datagram, or it returns a negative number. -/
inductive Outcome (malloc : Bool) (sock : Sock) : Option Datagram → Prop
  | delivered {d : Datagram} (h : Delivers malloc sock d) : Outcome malloc sock (some d)
  | failed {a : RecvAnswer} {sock' : Sock} (h : rtnlRecvmsg malloc sock = some (a, sock')) (hneg : a.status < 0) :
      Outcome malloc sock none

/-- What a failed call has done with the buffer. -/
theorem recvmsg_failed {a : RecvAnswer} {sock' : Sock} (h : rtnlRecvmsg malloc sock = some (a, sock'))
    (hneg : a.status < 0) : a.events = [] ∨ a.events = [.alloc, .free] := by
  obtain ⟨⟨peeked, sock1⟩, -, h⟩ := Option.bind_eq_some_iff.1 h
  simp only at h
  split at h
  · cases h
    exact Or.inl rfl
  · split at h
    · cases h
      exact Or.inl rfl
    · obtain ⟨⟨got, sock2⟩, -, h⟩ := Option.bind_eq_some_iff.1 h
      simp only at h
      split at h
      · cases h
        exact Or.inr rfl
      · cases h
        exact absurd hneg ‹_›

/-- The call returns if and only if the loop on the datagram is left, and with what the loop gives. -/
theorem response_iff_returns {d : Datagram} (h : Delivers malloc sock d) {r : Option (Int × List DumpEvent)} :
    (∃ rounds sock', getRouteDumpResponse rounds malloc sock = some (r, sock')) ↔
      Loop.Returns (dumpBody d.bytes d.pid d.bytes.length) (dumpAt d.bytes 0 [.alloc, .heading]) r := by
  obtain ⟨sock', hrecv⟩ := h
  have hstart : dumpAt d.bytes 0 [.alloc, .heading] =
      { h := 0, msglen := d.bytes.length, events := [.alloc] ++ [.heading] } := by simp [dumpAt]
  rw [hstart]
  constructor
  · rintro ⟨rounds, sock'', hresponse⟩
    rw [getRouteDumpResponse_eq hrecv] at hresponse
    obtain ⟨r', hr', heq⟩ := Option.bind_eq_some_iff.1 hresponse
    cases heq
    exact ⟨rounds, hr'⟩
  · rintro ⟨n, hn⟩
    exact ⟨n, sock', by rw [getRouteDumpResponse_eq hrecv]; exact Option.bind_eq_some_iff.2 ⟨r, hn, rfl⟩⟩

theorem response_trace_iff {d : Datagram} (h : Delivers malloc sock d) {ret : Int} {events : List DumpEvent}
    (hret : Loop.Returns (dumpBody d.bytes d.pid d.bytes.length) (dumpAt d.bytes 0 [.alloc, .heading])
      (some (ret, events))) {Q : List DumpEvent → Prop} :
    (∃ rounds ret events sock', getRouteDumpResponse rounds malloc sock = some (some (ret, events), sock') ∧
      Q events) ↔ Q events := by
  constructor
  · rintro ⟨rounds, ret', events', sock', hresponse, hQ⟩
    cases hret.unique ((response_iff_returns h).1 ⟨rounds, sock', hresponse⟩)
    exact hQ
  · intro hQ
    obtain ⟨rounds, sock', hresponse⟩ := (response_iff_returns h).2 hret
    exact ⟨rounds, ret, events, sock', hresponse, hQ⟩

/-! ## The end of the loop -/

/-- The loop stays at the first message of another sender, unless that message is flagged. -/
theorem dumpBody_continue {m : Mem} {pid : Nat} {status : Int} {x : Msg} {o : Nat} {events : List DumpEvent}
    (hpid : pid ≠ 0) (hs : slice m o x.bytes.length = some x.bytes) (hintr : x.interrupted = false) :
    dumpBody m pid status (dumpAt m o events) = .inl (dumpAt m o (events ++ [.header o])) := by
  obtain ⟨hl, ht, hf⟩ := Msg.read hs
  have hflag : ¬ x.flags &&& NLM_F_DUMP_INTR ≠ 0 := x.flagged_iff.not.2 (by simp [hintr])
  unfold dumpBody dumpAt
  simp only [nlmsg_ok_msg hs, hl, ht, hf, if_pos (Msg.room hs), if_neg hflag, if_pos hpid]

/-- So the loop on its datagram is left at once or never. -/
theorem dumpBody_other_sender {d : Datagram} {xs : List Msg} (hd : d.Messages xs) (hpid : d.pid ≠ 0) (status : Int)
    (events : List DumpEvent) :
    if ∀ x ∈ xs.head?, x.interrupted then
      ∃ ret tail, Ending tail ∧
        Loop.Returns (dumpBody d.bytes d.pid status) (dumpAt d.bytes 0 events) (some (ret, events ++ tail))
    else ¬ ∃ r, Loop.Returns (dumpBody d.bytes d.pid status) (dumpAt d.bytes 0 events) r := by
  cases xs with
  | nil =>
    obtain ⟨tail, htail, hexit⟩ : ∃ tail, Ending tail ∧
        dumpBody d.bytes d.pid status (dumpAt d.bytes 0 events) = .inr (some (status, events ++ tail)) :=
      dumpBody_end d.pid hd.rest
    exact (if_pos (by simp)).mpr ⟨status, tail, htail, .of_exit hexit⟩
  | cons x xs =>
    cases hintr : x.interrupted with
    | true =>
      have hexit : dumpBody d.bytes d.pid status (dumpAt d.bytes 0 events) =
          .inr (some (-1, events ++ [.header 0, .free])) := dumpBody_interrupted d.pid hd.laid.1 hintr
      exact (if_pos (by simp [hintr])).mpr ⟨-1, _, Or.inr ⟨0, rfl⟩, .of_exit hexit⟩
    | false =>
      refine (if_neg (by simp [hintr])).mpr ?_
      refine Loop.not_returns_of_invariant (P := fun s => ∃ es, s = dumpAt d.bytes 0 es) ?_ ⟨events, rfl⟩
      rintro s ⟨es, rfl⟩
      exact ⟨_, dumpBody_continue hpid hd.laid.1 hintr, _, rfl⟩

theorem nlmsg_ok_of_messages {d : Datagram} {xs : List Msg} (hd : d.Messages xs) :
    NLMSG_OK d.bytes 0 d.bytes.length = some xs.head?.isSome := by
  cases xs with
  | nil => simpa using hd.rest
  | cons x xs => simpa using nlmsg_ok_msg hd.laid.1

/-- **When the loop over messages ends.** The datagram is the kernel's, or it does not start with a
message, or it starts with one that is flagged `NLM_F_DUMP_INTR`. -/
theorem dump_loop_ends_iff {d : Datagram} (h : Delivers malloc sock d) :
    (∃ rounds ret events sock', getRouteDumpResponse rounds malloc sock = some (some (ret, events), sock')) ↔
      d.pid = 0 ∨ NLMSG_OK d.bytes 0 d.bytes.length = some false ∨
        ∃ flags, nlmsgFlags d.bytes 0 = some flags ∧ flags &&& NLM_F_DUMP_INTR ≠ 0 := by
  obtain ⟨xs, hd⟩ := d.exists_messages
  have hends : ∀ ret events,
      Loop.Returns (dumpBody d.bytes d.pid d.bytes.length) (dumpAt d.bytes 0 [.alloc, .heading]) (some (ret, events)) →
      ∃ rounds ret events sock', getRouteDumpResponse rounds malloc sock = some (some (ret, events), sock') := by
    intro ret events hret
    obtain ⟨rounds, sock', hresponse⟩ := (response_iff_returns h).2 hret
    exact ⟨rounds, ret, events, sock', hresponse⟩
  by_cases hpid : d.pid = 0
  · obtain ⟨ret, tail, -, hret⟩ := dumpBody_trace hd hpid d.bytes.length [.alloc, .heading]
    exact ⟨fun _ => Or.inl hpid, fun _ => hends _ _ hret⟩
  · have hother := dumpBody_other_sender hd hpid d.bytes.length [.alloc, .heading]
    rw [or_iff_right hpid, nlmsg_ok_of_messages hd]
    cases xs with
    | nil =>
      rw [if_pos (by simp)] at hother
      obtain ⟨ret, tail, -, hret⟩ := hother
      exact ⟨fun _ => Or.inl rfl, fun _ => hends _ _ hret⟩
    | cons x xs =>
      have hflag : (∃ flags, nlmsgFlags d.bytes 0 = some flags ∧ flags &&& NLM_F_DUMP_INTR ≠ 0) ↔
          x.interrupted = true := by simp [(Msg.read hd.laid.1).2.2, Msg.interrupted]
      have hhead : (∀ y ∈ (x :: xs).head?, y.interrupted = true) ↔ x.interrupted = true := by simp
      rw [hflag, or_iff_right (by simp)]
      by_cases hintr : x.interrupted = true
      · rw [if_pos (hhead.2 hintr)] at hother
        obtain ⟨ret, tail, -, hret⟩ := hother
        exact ⟨fun _ => hintr, fun _ => hends _ _ hret⟩
      · rw [if_neg (fun hall => hintr (hhead.1 hall))] at hother
        refine ⟨?_, fun hintr' => absurd hintr' hintr⟩
        rintro ⟨rounds, ret, events, sock', hresponse⟩
        exact absurd ⟨_, (response_iff_returns h).1 ⟨rounds, sock', hresponse⟩⟩ hother

/-- One message from the sender `pid`. -/
def senderDatagram (pid : Nat) : Datagram := { sampleDatagram [sampleMsg 24 1] (by decide) with pid }

theorem senderDatagram_delivered (pid : Nat) :
    Delivers true { queue := [senderDatagram pid], script := [none, none] } (senderDatagram pid) := by
  have hlen : (senderDatagram pid).bytes.length ≠ 0 := by simp [senderDatagram, sampleDatagram, sampleMsg]
  have hscript : Patient 2 [none, none] := ⟨by simp, by simp⟩
  obtain ⟨script', hrecv⟩ := rtnlRecvmsg_patient [] hlen hscript
  exact ⟨_, hrecv⟩

theorem senderDatagram_messages (pid : Nat) : (senderDatagram pid).Messages [sampleMsg 24 1] :=
  ⟨⟨rfl, trivial⟩, rfl⟩

theorem dump_loop_ends_sample :
    ∃ rounds ret events sock', getRouteDumpResponse rounds true
      { queue := [senderDatagram 0], script := [none, none] } = some (some (ret, events), sock') :=
  (dump_loop_ends_iff (senderDatagram_delivered 0)).2 (Or.inl rfl)

/-- **A datagram of another process keeps the loop going for ever.** -/
theorem dump_loop_endless :
    ¬ ∀ (malloc : Bool) (sock : Sock) (d : Datagram), Delivers malloc sock d →
      ∃ rounds r, getRouteDumpResponse rounds malloc sock = some r := by
  intro hclaim
  have hrecv := senderDatagram_delivered 7
  obtain ⟨rounds, ⟨r, sock'⟩, hresponse⟩ := hclaim _ _ _ hrecv
  have hother := dumpBody_other_sender (senderDatagram_messages 7) (by simp [senderDatagram])
    (senderDatagram 7).bytes.length [.alloc, .heading]
  rw [if_neg (by simp; decide)] at hother
  exact hother ⟨r, (response_iff_returns hrecv).1 ⟨rounds, sock', hresponse⟩⟩

/-! ## The life of the answer buffer -/

inductive Buffer
  | unallocated
  | live
  | freed
deriving DecidableEq

/-- What may be done with the buffer, and what becomes of it. -/
def Buffer.step : Buffer → DumpEvent → Option Buffer
  | .unallocated, .alloc => some .live
  | .live, .free => some .freed
  | .live, .header _ => some .live
  | .live, .printRoute _ => some .live
  | b, .heading => some b
  | _, _ => none

/-- A buffer that was allocated is freed once, and read only before; one that was not is never
read or freed. -/
def WellUsed (events : List DumpEvent) : Prop :=
  ∃ b, events.foldlM Buffer.step .unallocated = some b ∧ b ≠ .live

theorem buffer_msgEvents (p : Nat × Msg) :
    (msgEvents p).foldlM Buffer.step .live = if p.2.type = NLMSG_ERROR then none else some .live := by
  unfold msgEvents
  split <;> rfl

theorem buffer_msgs (o : Nat) (xs : List Msg) :
    ((place 4 Msg.bytes o xs).flatMap msgEvents).foldlM Buffer.step .live =
      if ∀ x ∈ xs, x.type ≠ NLMSG_ERROR then some .live else none := by
  induction xs generalizing o with
  | nil => rfl
  | cons x xs ih =>
    rw [place, List.flatMap_cons, List.foldlM_append, buffer_msgEvents]
    by_cases hx : x.type = NLMSG_ERROR
    · rw [if_pos hx, if_neg (by simp [hx])]
      rfl
    · rw [if_neg hx, Option.bind_eq_bind, Option.bind_some, ih]
      simp [hx]

theorem Ending.buffer {tail : List DumpEvent} (h : Ending tail) :
    tail.foldlM Buffer.step .live = some .freed := by
  rcases h with rfl | ⟨o, rfl⟩ <;> rfl

/-- On a datagram from the kernel everything depends on the messages the loop goes through. -/
theorem buffer_trace {xs : List Msg} {tail : List DumpEvent} (htail : Ending tail) :
    List.foldlM Buffer.step .unallocated ([.alloc, .heading] ++ (place 4 Msg.bytes 0 xs).flatMap msgEvents ++ tail) =
      if ∀ x ∈ xs, x.type ≠ NLMSG_ERROR then some .freed else none := by
  have hstart : ([.alloc, .heading] : List DumpEvent).foldlM Buffer.step .unallocated = some .live := rfl
  rw [List.foldlM_append, List.foldlM_append, hstart, Option.bind_eq_bind, Option.bind_some, buffer_msgs]
  by_cases hall : ∀ x ∈ xs, x.type ≠ NLMSG_ERROR
  · rw [if_pos hall, if_pos hall, Option.bind_some, htail.buffer]
  · rw [if_neg hall, if_neg hall, Option.bind_none]

theorem wellUsed_trace {xs : List Msg} {tail : List DumpEvent} (htail : Ending tail) :
    WellUsed ([.alloc, .heading] ++ (place 4 Msg.bytes 0 xs).flatMap msgEvents ++ tail) ↔
      ∀ x ∈ xs, x.type ≠ NLMSG_ERROR := by
  unfold WellUsed
  rw [buffer_trace htail]
  by_cases hall : ∀ x ∈ xs, x.type ≠ NLMSG_ERROR <;> simp [hall]

/-- Behind a failed `rtnl_recvmsg` the function frees what it never got. -/
theorem response_failed {a : RecvAnswer} {sock' : Sock} (h : rtnlRecvmsg malloc sock = some (a, sock'))
    (hneg : a.status < 0) {rounds : Nat} {r : Option (Int × List DumpEvent)} {sock'' : Sock}
    (hresponse : getRouteDumpResponse rounds malloc sock = some (r, sock'')) :
    r = some (a.status, a.events ++ [.heading, .free]) := by
  have hexit : Loop.Returns (dumpBody (a.answer.getD []) a.pid a.status)
      { h := 0, msglen := a.status, events := a.events ++ [.heading] }
      (some (a.status, a.events ++ [.heading] ++ [.free])) := by
    refine .of_exit ?_
    unfold dumpBody NLMSG_OK
    simp only [if_neg (show ¬ (16 : Int) ≤ a.status by omega)]
  rw [(response_of_returns h hexit).2 _ _ _ hresponse, List.append_assoc]
  rfl

/-- **When the answer buffer is used as it should be**, and nothing is printed from an `NLMSG_ERROR`
message or after it: `rtnl_recvmsg` has delivered a datagram, and either it is the kernel's and no
message the loop comes to is an `NLMSG_ERROR`, or it is another sender's and does not start with a
message that is not flagged. -/
theorem dump_buffer_iff {o : Option Datagram} (hrecv : Outcome malloc sock o) {xs : List Msg}
    (hxs : ∀ d ∈ o, d.Messages xs) :
    (∃ rounds ret events sock', getRouteDumpResponse rounds malloc sock = some (some (ret, events), sock') ∧
      WellUsed events ∧ handed events <+: (xs.takeWhile fun x => x.type ≠ NLMSG_ERROR).map Msg.bytes) ↔
    ∃ d, o = some d ∧
      if d.pid = 0 then ∀ x ∈ xs.takeWhile (fun x => !x.interrupted), x.type ≠ NLMSG_ERROR
      else ∀ x ∈ xs.head?, x.interrupted := by
  cases hrecv with
  | failed h hneg =>
    refine ⟨?_, by simp⟩
    rintro ⟨rounds, ret, events, sock', hresponse, ⟨b, hb, -⟩, -⟩
    cases response_failed h hneg hresponse
    rcases recvmsg_failed h hneg with hev | hev <;> rw [hev] at hb <;> cases hb
  | @delivered d h =>
    have hd := hxs d rfl
    simp only [Option.some.injEq, exists_eq_left']
    by_cases hpid : d.pid = 0
    · obtain ⟨ret, tail, htail, hret⟩ := dumpBody_trace hd hpid d.bytes.length [.alloc, .heading]
      have hprefix := List.takeWhile_prefix (fun x : Msg => !x.interrupted) (l := xs)
      generalize xs.takeWhile (fun x : Msg => !x.interrupted) = front at hret hprefix ⊢
      have htrace := response_trace_iff h hret
        (Q := fun es => WellUsed es ∧ handed es <+: (xs.takeWhile fun x => x.type ≠ NLMSG_ERROR).map Msg.bytes)
      rw [if_pos hpid, htrace, wellUsed_trace htail, handed_append, handed_append, handed_msgEvents, htail.handed,
        List.append_nil]
      refine ⟨fun hused => hused.1, fun hall => ⟨hall, List.IsPrefix.map _ ?_⟩⟩
      obtain ⟨rest, rfl⟩ := hprefix
      rw [List.takeWhile_append_of_pos (by simpa using hall)]
      exact List.prefix_append _ _
    · have hother := dumpBody_other_sender hd hpid d.bytes.length [.alloc, .heading]
      rw [if_neg hpid]
      by_cases hhead : ∀ x ∈ xs.head?, x.interrupted = true
      · rw [if_pos hhead] at hother
        obtain ⟨ret, tail, htail, hret⟩ := hother
        have hused : WellUsed ([.alloc, .heading] ++ (place 4 Msg.bytes 0 []).flatMap msgEvents ++ tail) :=
          (wellUsed_trace htail).2 (by simp)
        rw [response_trace_iff h hret (Q := fun es => WellUsed es ∧ _), handed_append, htail.handed]
        exact ⟨fun _ => hhead, fun _ => ⟨hused, List.nil_prefix⟩⟩
      · rw [if_neg hhead] at hother
        refine ⟨?_, fun h' => absurd h' hhead⟩
        rintro ⟨rounds, ret, events, sock', hresponse, -⟩
        exact absurd ⟨_, (response_iff_returns h).1 ⟨rounds, sock', hresponse⟩⟩ hother

/-- A datagram with one route. -/
theorem dump_buffer_sample :
    ∃ rounds ret events sock', getRouteDumpResponse rounds true
        { queue := [senderDatagram 0], script := [none, none] } = some (some (ret, events), sock') ∧
      WellUsed events ∧
      handed events <+: ([sampleMsg 24 1].takeWhile fun x => x.type ≠ NLMSG_ERROR).map Msg.bytes :=
  (dump_buffer_iff (.delivered (senderDatagram_delivered 0))
    (by rintro d ⟨⟩; exact senderDatagram_messages 0)).2 ⟨_, rfl, (if_pos rfl).mpr (by decide)⟩

/-- **A receive that fails**: the function frees a pointer that has no value. -/
theorem dump_buffer_not_allocated :
    ¬ ∀ (malloc : Bool) (sock : Sock) (o : Option Datagram) (xs : List Msg), Outcome malloc sock o →
      (∀ d ∈ o, d.Messages xs) → ∀ rounds ret events sock',
      getRouteDumpResponse rounds malloc sock = some (some (ret, events), sock') → WellUsed events := by
  intro hclaim
  have hfail : rtnlRecvmsg true { queue := [], script := [some ⟨ENOMEM, ENOMEM⟩] } =
      some ({ status := -ENOMEM, answer := none, pid := 0, events := [] }, { queue := [], script := [] }) := rfl
  obtain ⟨b, hb, -⟩ := hclaim _ _ none [] (.failed hfail (by simp [ENOMEM])) (by simp) 1 _ _ _ rfl
  cases hb

end CHell.Netlink
