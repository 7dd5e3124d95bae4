import CHell.Netlink.DumpBuffer
import CHell.Lib.Reactive

/-!
# Calls of `rtnl_recvmsg`, one after the other

| here | there |
| --- | --- |
| `Call`     | a call: what has come in before it, the result of `malloc`, those of `recvmsg` |
| `recvStep` | `rtnl_recvmsg` (:35-70), on what the socket holds |

Each call looks at the datagram in front, asks for as many bytes, and receives it. `recvmsg_delivers`: whatever fails,
the datagrams come out whole, once and in order, up to the first one that is empty. That one is looked at and
never received.
-/

namespace CHell.Netlink

open CInt Memory

structure Call where
  arrived : List Datagram
  malloc : Bool
  script : List (Option RecvError)

/-- The answer to a call, and what had come in. -/
structure Exchange where
  arrived : List Datagram
  answer : RecvAnswer

def recvStep (queue : List Datagram) (c : Call) : Option (List Datagram × List Exchange) :=
  (rtnlRecvmsg c.malloc { queue := queue ++ c.arrived, script := c.script }).map fun r =>
    (r.2.queue, [⟨c.arrived, r.1⟩])

/-- What a receiver can know of a datagram. -/
def Datagram.content (d : Datagram) : List UInt8 × Nat := (d.bytes, d.pid)

def arrived (tr : List Exchange) : List Datagram := tr.flatMap Exchange.arrived

def delivered (tr : List Exchange) : List (List UInt8 × Nat) :=
  tr.filterMap fun x => x.answer.answer.map fun bytes => (bytes, x.answer.pid)

/-- The caller has a buffer with the whole datagram, or an error and no buffer. -/
def RecvAnswer.Whole (a : RecvAnswer) : Prop :=
  match a.answer with
  | some bytes => bytes ≠ [] ∧ a.status = bytes.length ∧ a.events = [.alloc]
  | none => a.status < 0 ∧ (a.events = [] ∨ a.events = [.alloc, .free])

/-! ## One call -/

/-- A failed call has set `errno`, and `perror` does not clear it. -/
def Errnos (script : List (Option RecvError)) : Prop := ∀ e, some e ∈ script → 0 < e.reported

theorem rtnlReceive_outcome {peek : Bool} {iovLen : Nat} {queue : List Datagram} {script : List (Option RecvError)}
    {r : Received} {sock' : Sock} (herr : Errnos script) (h : rtnlReceive peek iovLen queue script = some (r, sock')) :
    Errnos sock'.script ∧ (r.len < 0 ∨ ∃ d rest, queue = d :: rest ∧
      r = { len := (if peek then d.bytes.length else (d.bytes.take iovLen).length : Nat),
            bytes := d.bytes.take iovLen, pid := d.pid } ∧
      sock'.queue = if peek then queue else rest) := by
  induction script with
  | nil => cases h
  | cons c script ih =>
    have herr' : Errnos script := fun e he => herr e (List.mem_cons_of_mem c he)
    cases c with
    | some e =>
      rw [rtnlReceive] at h
      split at h
      · exact ih herr' h
      · cases h
        have hpos := herr e List.mem_cons_self
        exact ⟨herr', Or.inl (by simp only; omega)⟩
    | none =>
      cases queue with
      | nil => cases h
      | cons d rest =>
        simp only [rtnlReceive] at h
        by_cases hlen : (if peek then d.bytes.length else (d.bytes.take iovLen).length) = 0
        · rw [if_pos hlen] at h
          cases h
          exact ⟨herr', Or.inl (by simp [ENODATA])⟩
        · rw [if_neg hlen] at h
          cases h
          exact ⟨herr', Or.inr ⟨d, rest, rfl, rfl, rfl⟩⟩

/-- What a call of `recvmsg` leaves in the queue. -/
theorem rtnlReceive_queue {peek : Bool} {iovLen : Nat} {queue : List Datagram} {script : List (Option RecvError)}
    {r : Received} {sock' : Sock} (h : rtnlReceive peek iovLen queue script = some (r, sock')) :
    sock'.queue = queue ∨
      peek = false ∧ ∃ d, queue = d :: sock'.queue ∧ (r.len < 0 → (d.bytes.take iovLen).length = 0) := by
  induction script with
  | nil => cases h
  | cons c script ih =>
    cases c with
    | some e =>
      rw [rtnlReceive] at h
      split at h
      · exact ih h
      · cases h
        exact .inl rfl
    | none =>
      cases queue with
      | nil => cases h
      | cons d rest =>
        cases peek with
        | true =>
          simp only [rtnlReceive, if_true] at h
          split at h <;> cases h <;> exact .inl rfl
        | false =>
          simp only [rtnlReceive, Bool.false_eq_true, if_false] at h
          refine .inr ⟨rfl, d, ?_⟩
          split at h
          · rename_i hempty
            cases h
            exact ⟨rfl, fun _ => hempty⟩
          · cases h
            refine ⟨rfl, fun hneg => ?_⟩
            simp only at hneg
            omega

theorem rtnlReceive_ne_zero {peek : Bool} {iovLen : Nat} {queue : List Datagram} {script : List (Option RecvError)}
    {r : Received} {sock' : Sock} (herr : Errnos script) (h : rtnlReceive peek iovLen queue script = some (r, sock')) :
    r.len ≠ 0 := by
  induction script with
  | nil => cases h
  | cons c script ih =>
    cases c with
    | some e =>
      rw [rtnlReceive] at h
      split at h
      · exact ih (fun e he => herr e (List.mem_cons_of_mem _ he)) h
      · cases h
        have hpos := herr e List.mem_cons_self
        simp only
        omega
    | none =>
      cases queue with
      | nil => cases h
      | cons d rest =>
        simp only [rtnlReceive] at h
        by_cases hlen : (if peek then d.bytes.length else (d.bytes.take iovLen).length) = 0
        · rw [if_pos hlen] at h
          cases h
          simp [ENODATA]
        · rw [if_neg hlen] at h
          cases h
          simp only
          omega

/-- **What a call does**: it gives the caller the datagram in front, or an error, and then the queue is as it was. -/
theorem rtnlRecvmsg_cases {malloc : Bool} {sock sock' : Sock} {a : RecvAnswer} (herr : Errnos sock.script)
    (h : rtnlRecvmsg malloc sock = some (a, sock')) :
    (∃ d, sock.queue = d :: sock'.queue ∧ d.bytes ≠ [] ∧
      a = { status := d.bytes.length, answer := some d.bytes, pid := d.pid, events := [.alloc] }) ∨
    (a.status < 0 ∧ a.answer = none ∧ (a.events = [] ∨ a.events = [.alloc, .free]) ∧ sock'.queue = sock.queue) := by
  obtain ⟨⟨peeked, sock1⟩, hpeek, h⟩ := Option.bind_eq_some_iff.1 h
  obtain ⟨herr1, hpeeked⟩ := rtnlReceive_outcome herr hpeek
  have hqueue1 : sock1.queue = sock.queue := (rtnlReceive_queue hpeek).resolve_right (by simp)
  simp only at h
  split at h
  · rename_i hneg
    cases h
    exact .inr ⟨hneg, rfl, .inl rfl, hqueue1⟩
  rename_i hpos
  obtain ⟨d, rest, hqueue, rfl, -⟩ := hpeeked.resolve_left hpos
  split at h
  · cases h
    exact .inr ⟨by simp [ENOMEM], rfl, .inl rfl, hqueue1⟩
  obtain ⟨⟨got, sock2⟩, hget, h⟩ := Option.bind_eq_some_iff.1 h
  obtain ⟨-, hgot⟩ := rtnlReceive_outcome herr1 hget
  have hqueue2 := rtnlReceive_queue hget
  have hlength : d.bytes.length ≠ 0 := by
    have hne := rtnlReceive_ne_zero herr hpeek
    simpa using hne
  rw [hqueue1, hqueue] at hgot hqueue2
  simp only [if_true, Int.toNat_natCast] at hgot hqueue2
  simp only at h
  split at h
  · rename_i hneg
    cases h
    refine .inr ⟨hneg, rfl, .inr rfl, ?_⟩
    rcases hqueue2 with hsame | ⟨-, d', heq, hempty⟩
    · exact hsame.trans hqueue.symm
    · -- it has asked for all the bytes it has seen, and there were some
      obtain ⟨rfl, -⟩ := List.cons.inj heq
      have hzero := hempty hneg
      rw [List.take_length] at hzero
      exact absurd hzero hlength
  · rename_i hpos'
    cases h
    obtain ⟨d', rest', heq, rfl, hrest⟩ := hgot.resolve_left hpos'
    obtain ⟨rfl, rfl⟩ := List.cons.inj heq
    rw [if_neg (by simp)] at hrest
    refine .inl ⟨d, by rw [hrest, hqueue], fun hnil => hlength (by rw [hnil]; rfl), ?_⟩
    simp

/-! ## All calls -/

theorem arrived_append (tr es : List Exchange) : arrived (tr ++ es) = arrived tr ++ arrived es := List.flatMap_append

theorem delivered_append (tr es : List Exchange) : delivered (tr ++ es) = delivered tr ++ delivered es :=
  List.filterMap_append

theorem delivered_nonempty {tr : List Exchange} (h : ∀ x ∈ tr, x.answer.Whole) {c : List UInt8 × Nat}
    (hc : c ∈ delivered tr) : c.1 ≠ [] := by
  obtain ⟨x, hx, hanswer⟩ := List.mem_filterMap.1 hc
  obtain ⟨bytes, hbytes, rfl⟩ := Option.map_eq_some_iff.1 hanswer
  have hwhole := h x hx
  rw [RecvAnswer.Whole, hbytes] at hwhole
  exact hwhole.1

theorem recvStep_keeps {c : Call} {tr es : List Exchange} {queue queue' : List Datagram} (herr : Errnos c.script)
    (hstep : recvStep queue c = some (queue', es))
    (horder : (arrived tr).map Datagram.content = delivered tr ++ queue.map Datagram.content)
    (hwhole : ∀ x ∈ tr, x.answer.Whole) :
    (arrived (tr ++ es)).map Datagram.content = delivered (tr ++ es) ++ queue'.map Datagram.content ∧
      ∀ x ∈ tr ++ es, x.answer.Whole := by
  obtain ⟨⟨a, sock'⟩, hcall, heq⟩ := Option.map_eq_some_iff.1 hstep
  cases heq
  have hone : arrived [⟨c.arrived, a⟩] = c.arrived := List.append_nil _
  rw [arrived_append, delivered_append, hone, List.map_append, horder, List.append_assoc, List.append_assoc,
    ← List.map_append]
  rcases rtnlRecvmsg_cases herr hcall with ⟨d, hqueue, hne, rfl⟩ | ⟨hneg, hnone, hevents, hqueue⟩
  · refine ⟨?_, List.forall_mem_append.2 ⟨hwhole, by simp [RecvAnswer.Whole, hne]⟩⟩
    simp only at hqueue
    rw [hqueue]
    rfl
  · refine ⟨?_, List.forall_mem_append.2 ⟨hwhole, by simp [RecvAnswer.Whole, hnone, hneg, hevents]⟩⟩
    have hnothing : delivered [⟨c.arrived, a⟩] = [] := by simp [delivered, hnone]
    rw [hnothing, hqueue]
    rfl

/-- **Nothing is lost, doubled or cut.** For all calls, whatever has come in between them and however `malloc` and
`recvmsg` have answered: what has arrived is what was delivered and then what the socket still holds; a call that
delivers nothing has returned an error and freed what it has allocated; and behind an empty datagram nothing is
delivered. -/
theorem recvmsg_delivers {tr : List Exchange} {queue : List Datagram}
    (h : Reactive.Run recvStep (fun _ _ c => Errnos c.script) [] tr queue) :
    (arrived tr).map Datagram.content = delivered tr ++ queue.map Datagram.content ∧
    (∀ x ∈ tr, x.answer.Whole) ∧
    ∀ front d rest, arrived tr = front ++ d :: rest → d.bytes = [] → (delivered tr).length ≤ front.length := by
  obtain ⟨horder, hwhole⟩ : (arrived tr).map Datagram.content = delivered tr ++ queue.map Datagram.content ∧
      ∀ x ∈ tr, x.answer.Whole := by
    refine h.invariant (fun tr queue => (arrived tr).map Datagram.content = delivered tr ++ queue.map Datagram.content ∧
      ∀ x ∈ tr, x.answer.Whole) ⟨rfl, by simp⟩ ?_
    rintro tr queue c queue' es ⟨horder, hwhole⟩ herr hstep
    exact recvStep_keeps herr hstep horder hwhole
  refine ⟨horder, hwhole, ?_⟩
  intro front d rest hsplit hempty
  by_contra hlt
  rw [hsplit, List.map_append, List.map_cons] at horder
  have hmem : d.content ∈ delivered tr := by
    have hat := congrArg (fun l => l[front.length]?) horder
    rw [List.getElem?_append_right (by simp), List.getElem?_append_left (by omega), List.length_map,
      Nat.sub_self] at hat
    exact List.mem_of_getElem? hat.symm
  exact delivered_nonempty hwhole hmem hempty

def byteDatagram : Datagram := ⟨[1], 0, by decide⟩

/-- A call without memory, and another one. -/
def retried : List Exchange := [⟨[byteDatagram], ⟨-ENOMEM, none, 0, []⟩⟩, ⟨[], ⟨1, some [1], 0, [.alloc]⟩⟩]

theorem recvmsg_delivers_retried :
    (arrived retried).map Datagram.content = delivered retried ++ ([] : List Datagram).map Datagram.content ∧
    (∀ x ∈ retried, x.answer.Whole) ∧
    ∀ front d rest, arrived retried = front ++ d :: rest → d.bytes = [] →
      (delivered retried).length ≤ front.length := by
  have hfirst : recvStep [] ⟨[byteDatagram], false, [some ⟨EINTR, EINTR⟩, none]⟩ =
      some ([byteDatagram], [⟨[byteDatagram], ⟨-ENOMEM, none, 0, []⟩⟩]) := rfl
  have hsecond : recvStep [byteDatagram] ⟨[], true, [none, none]⟩ = some ([], [⟨[], ⟨1, some [1], 0, [.alloc]⟩⟩]) := rfl
  exact recvmsg_delivers (.next (.next .start (by simp [Errnos, EINTR]) hfirst) (by simp [Errnos]) hsecond)

end CHell.Netlink
