import CHell.Netlink.Dump
import Mathlib.Data.List.TakeWhile

/-!
# The walk over a datagram

What `rtnl_recvmsg` delivers, and what the loop of `get_route_dump_response` does with it: it goes
through the messages of the datagram (`Datagram.Messages`) up to the first one that is flagged
`NLM_F_DUMP_INTR`, and leaves `msgEvents` in the trace for each (`dumpBody_trace`).
-/

namespace CHell.Netlink

open CInt Memory Records

/-- A netlink message: a header whose `nlmsg_len` is its length, and what follows. -/
structure Msg where
  bytes : List UInt8
  len : nlmsgLen bytes 0 = some bytes.length
  header_le : 16 ≤ bytes.length

def Msg.type (x : Msg) : Nat := (nlmsgType x.bytes 0).getD 0
def Msg.flags (x : Msg) : Nat := (nlmsgFlags x.bytes 0).getD 0

/-- Flagged `NLM_F_DUMP_INTR`. -/
def Msg.interrupted (x : Msg) : Bool := x.flags &&& NLM_F_DUMP_INTR != 0

/-- The datagram comes from the kernel and consists of these messages. -/
structure Datagram.Carries (d : Datagram) (xs : List Msg) : Prop where
  pid : d.pid = 0
  laid : Laid 4 Msg.bytes d.bytes 0 xs
  /-- Nothing follows the last message but its padding. -/
  length_le : d.bytes.length ≤ span 4 Msg.bytes xs

/-- The messages of any datagram: those the loop comes to if each of them is followed by the next.
Behind the last one there is nothing that `NLMSG_OK` accepts. -/
structure Datagram.Messages (d : Datagram) (xs : List Msg) : Prop where
  laid : Laid 4 Msg.bytes d.bytes 0 xs
  rest : NLMSG_OK d.bytes (span 4 Msg.bytes xs) ((d.bytes.length : Int) - span 4 Msg.bytes xs) = some false

theorem Datagram.Carries.messages {d : Datagram} {xs : List Msg} (h : d.Carries xs) : d.Messages xs := by
  refine ⟨h.laid, ?_⟩
  have hle := h.length_le
  unfold NLMSG_OK
  rw [if_neg (by omega)]

theorem nlmsg_ok_cases (m : Mem) (o : Nat) : NLMSG_OK m o ((m.length : Int) - o) = some false ∨
    ∃ x : Msg, slice m o x.bytes.length = some x.bytes := by
  by_cases hread : (16 : Int) ≤ (m.length : Int) - o
  · obtain ⟨l, hl⟩ := load_isSome m o 4 (by omega)
    by_cases hok : 16 ≤ l ∧ o + l ≤ m.length
    · obtain ⟨bs, hbs⟩ := slice_isSome m hok.2
      obtain rfl := length_of_slice hbs
      have hlen : nlmsgLen bs 0 = some bs.length := (load_slice (o := 0) hbs (by omega)).symm.trans hl
      exact Or.inr ⟨⟨bs, hlen, hok.1⟩, hbs⟩
    · refine Or.inl ?_
      unfold NLMSG_OK nlmsgLen
      rw [if_pos hread, hl]
      simp only [Option.map_some, Option.some.injEq, Bool.and_eq_false_iff, decide_eq_false_iff_not]
      omega
  · exact Or.inl (by rw [NLMSG_OK, if_neg hread])

/-- Every datagram has its messages, whatever its bytes are. -/
theorem Datagram.exists_messages (d : Datagram) : ∃ xs, d.Messages xs := by
  have hpos : ∀ (o : Nat) (x : Msg), True → 0 < x.bytes.length := by
    intro o x _
    have hle := x.header_le
    omega
  obtain ⟨xs, hlaid, -, hend⟩ := exists_laid (a := 4) (m := d.bytes) (by omega) hpos 0
  rw [Nat.zero_add] at hend
  refine ⟨xs, hlaid, ?_⟩
  rcases nlmsg_ok_cases d.bytes (span 4 Msg.bytes xs) with hrest | ⟨x, hx⟩
  · exact hrest
  · exact absurd trivial (hend x hx)

/-! ## The receive step -/

/-- Failed calls are worth another try, and at least `n` calls succeed. -/
def Patient (n : Nat) (script : List (Option RecvError)) : Prop :=
  (∀ e, some e ∈ script → e.errno = EINTR ∨ e.errno = EAGAIN) ∧ n ≤ script.count none

theorem rtnlReceive_patient (peek : Bool) (iovLen : Nat) (d : Datagram) (rest : List Datagram) {n : Nat}
    {script : List (Option RecvError)} (h : Patient (n + 1) script) :
    ∃ script', Patient n script' ∧ rtnlReceive peek iovLen (d :: rest) script =
      let len := if peek then d.bytes.length else (d.bytes.take iovLen).length
      some ({ len := if len = 0 then -ENODATA else len, bytes := d.bytes.take iovLen, pid := d.pid },
            { queue := if peek then d :: rest else rest, script := script' }) := by
  obtain ⟨hretry, hcount⟩ := h
  induction script with
  | nil => simp at hcount
  | cons c script ih =>
    have hretry' := fun e he => hretry e (List.mem_cons_of_mem c he)
    cases c with
    | some e =>
      obtain ⟨script', hp, hr⟩ := ih hretry' (by simpa using hcount)
      refine ⟨script', hp, ?_⟩
      rw [rtnlReceive, if_pos (hretry e List.mem_cons_self)]
      exact hr
    | none =>
      refine ⟨script, ⟨hretry', by simpa using hcount⟩, ?_⟩
      simp only [rtnlReceive]
      by_cases hlen : (if peek then d.bytes.length else (d.bytes.take iovLen).length) = 0
      · rw [if_pos hlen, if_pos hlen]
      · rw [if_neg hlen, if_neg hlen]

/-- **The first datagram, whole**, is what `rtnl_recvmsg` delivers. -/
theorem rtnlRecvmsg_patient {d : Datagram} (rest : List Datagram) {script : List (Option RecvError)}
    (hd : d.bytes.length ≠ 0) (h : Patient 2 script) :
    ∃ script', rtnlRecvmsg true { queue := d :: rest, script } =
      some ({ status := d.bytes.length, answer := some d.bytes, pid := d.pid, events := [.alloc] },
            { queue := rest, script := script' }) := by
  obtain ⟨script1, hp1, h1⟩ := rtnlReceive_patient true 0 d rest h
  obtain ⟨script2, -, h2⟩ := rtnlReceive_patient false d.bytes.length d rest hp1
  refine ⟨script2, ?_⟩
  simp only [if_true, if_neg hd] at h1
  simp only [Bool.false_eq_true, if_false, List.take_length, if_neg hd] at h2
  unfold rtnlRecvmsg
  rw [h1, Option.bind_eq_bind, Option.bind_some]
  simp only
  rw [if_neg (by omega), if_neg (by decide), Int.toNat_natCast, h2, Option.bind_some]
  simp only
  rw [if_neg (by omega)]

/-- An empty datagram is taken for the end of the file, and stays in the queue. -/
theorem rtnlRecvmsg_empty {d : Datagram} (rest : List Datagram) {script : List (Option RecvError)}
    (hd : d.bytes.length = 0) (h : Patient 1 script) :
    ∃ script', rtnlRecvmsg true { queue := d :: rest, script } =
      some ({ status := -ENODATA, answer := none, pid := d.pid, events := [] },
            { queue := d :: rest, script := script' }) := by
  obtain ⟨script1, -, h1⟩ := rtnlReceive_patient true 0 d rest h
  refine ⟨script1, ?_⟩
  simp only [if_true, if_pos hd] at h1
  unfold rtnlRecvmsg
  rw [h1, Option.bind_eq_bind, Option.bind_some]
  rfl

/-! ## The loop -/

section Loop

variable {m : Mem} {status : Int} {x : Msg} {o : Nat} {events : List DumpEvent}

/-- The state of the loop at offset `o`. -/
def dumpAt (m : Mem) (o : Nat) (events : List DumpEvent) : DumpWalk :=
  { h := o, msglen := (m.length : Int) - o, events }

theorem Msg.read (hs : slice m o x.bytes.length = some x.bytes) :
    nlmsgLen m o = some x.bytes.length ∧ nlmsgType m o = some x.type ∧ nlmsgFlags m o = some x.flags := by
  have hle := x.header_le
  obtain ⟨type, ht⟩ := load_isSome x.bytes 4 2 (by omega)
  obtain ⟨flags, hf⟩ := load_isSome x.bytes 6 2 (by omega)
  refine ⟨?_, ?_, ?_⟩
  · exact (load_slice (o := 0) hs (by omega)).trans x.len
  · have htype : x.type = type := by simp [Msg.type, nlmsgType, ht]
    exact (load_slice (o := 4) hs (by omega)).trans (htype ▸ ht)
  · have hflags : x.flags = flags := by simp [Msg.flags, nlmsgFlags, hf]
    exact (load_slice (o := 6) hs (by omega)).trans (hflags ▸ hf)

theorem Msg.flagged_iff (x : Msg) : x.flags &&& NLM_F_DUMP_INTR ≠ 0 ↔ x.interrupted = true := by simp [Msg.interrupted]

theorem Msg.room (hs : slice m o x.bytes.length = some x.bytes) : (16 : Int) ≤ (m.length : Int) - o := by
  have hle := x.header_le
  have hend := (slice_eq_some.1 hs).1
  omega

theorem nlmsg_ok_msg (hs : slice m o x.bytes.length = some x.bytes) :
    NLMSG_OK m o ((m.length : Int) - o) = some true := by
  have hle := x.header_le
  have hend := (slice_eq_some.1 hs).1
  unfold NLMSG_OK
  rw [if_pos (by omega), (Msg.read hs).1, Option.map_some, Option.some.injEq, Bool.and_eq_true,
    decide_eq_true_eq, decide_eq_true_eq]
  omega

/-- What the walk leaves in the trace for a message that is not flagged. -/
def msgEvents (p : Nat × Msg) : List DumpEvent :=
  [.header p.1] ++ (if p.2.type = NLMSG_ERROR then [.free] else []) ++ [.printRoute p.2.bytes]

theorem dumpBody_msg (hm : (m.length : Int) ≤ INT_MAX) (hs : slice m o x.bytes.length = some x.bytes)
    (hintr : x.interrupted = false) :
    dumpBody m 0 status (dumpAt m o events) =
      .inl (dumpAt m (o + roundUp 4 x.bytes.length) (events ++ msgEvents (o, x))) := by
  obtain ⟨hl, ht, hf⟩ := Msg.read hs
  have hle := x.header_le
  have hend := (slice_eq_some.1 hs).1
  have hflag : ¬ x.flags &&& NLM_F_DUMP_INTR ≠ 0 := x.flagged_iff.not.2 (by simp [hintr])
  have halign : NLMSG_ALIGN (x.bytes.length : Nat) = roundUp 4 x.bytes.length :=
    nlmsg_align_eq (by unfold INT_MAX at hm; omega)
  have hlt := roundUp_four_lt x.bytes.length
  have hshort : shorten ((m.length : Int) - o) (roundUp 4 x.bytes.length) =
      (m.length : Int) - (o + roundUp 4 x.bytes.length : Nat) := by
    rw [shorten_eq (by omega) (by omega) (by omega)]
    omega
  have hpid : ¬ (0 : Nat) ≠ 0 := fun h => h rfl
  have hevents : (if x.type = NLMSG_ERROR then (events ++ [.header o]) ++ [.free] else events ++ [.header o]) ++
      [.printRoute x.bytes] = events ++ msgEvents (o, x) := by
    unfold msgEvents
    split <;> simp
  unfold dumpBody dumpAt
  simp only [nlmsg_ok_msg hs, hl, ht, hf, hs, if_pos (Msg.room hs), if_neg hflag, if_neg hpid, halign, hshort,
    Int.toNat_natCast, hevents]

/-- A message with the flag ends the walk, whoever sent it. -/
theorem dumpBody_interrupted (pid : Nat) (hs : slice m o x.bytes.length = some x.bytes) (hintr : x.interrupted = true) :
    dumpBody m pid status (dumpAt m o events) = .inr (some (-1, events ++ [.header o, .free])) := by
  obtain ⟨hl, ht, hf⟩ := Msg.read hs
  unfold dumpBody dumpAt
  simp only [nlmsg_ok_msg hs, hl, ht, hf, if_pos (Msg.room hs), if_pos (x.flagged_iff.2 hintr)]
  rw [List.append_assoc]
  rfl

/-- What the end of the walk leaves in the trace. -/
def Ending (tail : List DumpEvent) : Prop := tail = [.free] ∨ ∃ o, tail = [.header o, .free]

/-- So does a rest that `NLMSG_OK` does not accept. -/
theorem dumpBody_end (pid : Nat) (hrest : NLMSG_OK m o ((m.length : Int) - o) = some false) :
    ∃ tail, Ending tail ∧ dumpBody m pid status (dumpAt m o events) = .inr (some (status, events ++ tail)) := by
  unfold dumpBody dumpAt
  simp only [hrest]
  by_cases hread : (16 : Int) ≤ (m.length : Int) - o
  · refine ⟨_, Or.inr ⟨o, rfl⟩, ?_⟩
    simp only [if_pos hread, List.append_assoc, List.cons_append, List.nil_append]
  · refine ⟨_, Or.inl rfl, ?_⟩
    simp only [if_neg hread]

end Loop

/-- **The walk over a datagram from the kernel**: every message in front of the first interrupted
one leaves its events. -/
theorem dumpBody_trace {d : Datagram} {xs : List Msg} (hd : d.Messages xs) (hpid : d.pid = 0) (status : Int)
    (events : List DumpEvent) :
    ∃ ret tail, Ending tail ∧ Loop.Returns (dumpBody d.bytes d.pid status) (dumpAt d.bytes 0 events)
      (some (ret, events ++
        (place 4 Msg.bytes 0 (xs.takeWhile fun x => !x.interrupted)).flatMap msgEvents ++ tail)) := by
  rw [hpid]
  have hsplit := List.takeWhile_append_dropWhile (p := fun x : Msg => !x.interrupted) (l := xs)
  have hclean := List.all_takeWhile (p := fun x : Msg => !x.interrupted) (l := xs)
  generalize hfront : xs.takeWhile (fun x : Msg => !x.interrupted) = front at hsplit hclean ⊢
  have hlaid := hd.laid
  rw [← hsplit] at hlaid
  obtain ⟨hlaid, hrest⟩ := laid_append.1 hlaid
  rw [Nat.zero_add] at hrest
  have htrace : (place 4 Msg.bytes 0 front).foldl (fun es p => es ++ msgEvents p) events =
      events ++ (place 4 Msg.bytes 0 front).flatMap msgEvents := by
    rw [List.foldl_append_eq_append, List.flatMap_def]
  have hround : ∀ p ∈ place 4 Msg.bytes 0 front, ∀ es, slice d.bytes p.1 p.2.bytes.length = some p.2.bytes →
      dumpBody d.bytes 0 status (dumpAt d.bytes p.1 es) =
        .inl (dumpAt d.bytes (p.1 + roundUp 4 p.2.bytes.length) (es ++ msgEvents p)) := by
    intro p hp es hs
    have hp' := List.all_eq_true.1 hclean p.2 (mem_of_mem_place hp)
    exact dumpBody_msg d.size_le hs (by simpa using hp')
  have hwalk := fun v => hlaid.walk (dumpAt d.bytes) (fun es p => es ++ msgEvents p) events hround (v := v)
  rw [htrace, Nat.zero_add] at hwalk
  cases hdrop : xs.dropWhile (fun x : Msg => !x.interrupted) with
  | nil =>
    have hend := hd.rest
    rw [hdrop, List.append_nil] at hsplit
    rw [← hsplit] at hend
    obtain ⟨tail, htail, hexit⟩ := dumpBody_end 0 hend
    exact ⟨status, tail, htail, hwalk _ (.of_exit hexit)⟩
  | cons x rest =>
    have hx : x.interrupted = true := by
      have hne : xs.dropWhile (fun x : Msg => !x.interrupted) ≠ [] := by simp [hdrop]
      have hhead := List.head_dropWhile_not (fun x : Msg => !x.interrupted) hne
      simp only [hdrop, List.head_cons] at hhead
      simpa using hhead
    rw [hdrop] at hrest
    exact ⟨-1, _, Or.inr ⟨_, rfl⟩, hwalk _ (.of_exit (dumpBody_interrupted 0 hrest.1 hx))⟩

/-! ## The function -/

theorem getRouteDumpResponse_eq {malloc : Bool} {sock sock' : Sock} {a : RecvAnswer}
    (hrecv : rtnlRecvmsg malloc sock = some (a, sock')) (rounds : Nat) :
    getRouteDumpResponse rounds malloc sock =
      (Loop.loop (dumpBody (a.answer.getD []) a.pid a.status) rounds
        { h := 0, msglen := a.status, events := a.events ++ [.heading] }).bind fun r => some (r, sock') := by
  unfold getRouteDumpResponse
  rw [hrecv, Option.bind_eq_bind, Option.bind_some]
  rfl

/-- What the function returns is what its loop is left with, however many rounds it is given. -/
theorem response_of_returns {malloc : Bool} {sock sock' : Sock} {a : RecvAnswer} {r : Int × List DumpEvent}
    (hrecv : rtnlRecvmsg malloc sock = some (a, sock'))
    (hloop : Loop.Returns (dumpBody (a.answer.getD []) a.pid a.status)
      { h := 0, msglen := a.status, events := a.events ++ [.heading] } (some r)) :
    (∃ rounds, getRouteDumpResponse rounds malloc sock = some (some r, sock')) ∧
      ∀ rounds r' sock'', getRouteDumpResponse rounds malloc sock = some (r', sock'') → r' = some r := by
  constructor
  · obtain ⟨n, hn⟩ := hloop
    exact ⟨n, by rw [getRouteDumpResponse_eq hrecv, hn]; rfl⟩
  · intro rounds r' sock'' h
    rw [getRouteDumpResponse_eq hrecv] at h
    obtain ⟨r1, hr1, heq⟩ := Option.bind_eq_some_iff.1 h
    have hunique := hloop.unique ⟨rounds, hr1⟩
    exact (Prod.mk.inj (Option.some.inj heq)).1.symm.trans hunique.symm

end CHell.Netlink
