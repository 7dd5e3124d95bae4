import CHell.Netlink.DumpBuffer
import CHell.Netlink.RouteMessage
import CHell.Lib.Traced

/-!
# The program `network/route_print.c`

| here | there |
| --- | --- |
| `doRouteDumpRequst` | `do_route_dump_requst` (:175-189), the bytes that are sent |
| `openNetlink`       | `open_netlink` (:150-173) |
| `main`              | `main` (:238-253) |

Of the request, `nlmsg_pid` and all of `rtmsg` behind `rtm_family` are not assigned: `dumpRequest_same_iff` says
which bytes of the stack are sent. `main` does not look at what `open_netlink` returns. With no socket it sends to
the descriptor -1, and what happens then is up to that call failing (`main_lists`). It goes on behind a response
only if that has used the answer buffer within its life. What `print_route` does with a message it is handed is told
in `Netlink/PrintRoute.lean` and left out here.
-/

namespace CHell.Netlink

open CInt Memory Traced

def RTM_GETROUTE : Nat := 26
def NLM_F_DUMP : Nat := 0x300

/-! ## The request -/

/-- `nl_request` before anything is assigned to it. -/
abbrev DumpRequest := { m : Mem // m.length = 28 }

def doRouteDumpRequst (nl_request : DumpRequest) (time : Int) : Option Mem := do
  let m ← storeUInt16 nl_request.1 4 RTM_GETROUTE
  let m ← storeUInt16 m 6 (NLM_F_REQUEST ||| NLM_F_DUMP : Nat)
  let m ← storeUInt32 m 0 28
  let m ← storeUInt32 m 8 time
  storeUInt8 m 16 AF_INET

theorem DumpRequest.exists_ofFn (request : DumpRequest) :
    ∃ f : Fin 28 → UInt8, request = ⟨List.ofFn f, List.length_ofFn⟩ := by
  obtain ⟨m, hm⟩ := request
  refine ⟨fun i => m.get (i.cast hm.symm), Subtype.ext (List.ext_getElem ?_ ?_)⟩
  · rw [List.length_ofFn]
    exact hm
  · intro i hi hi'
    exact (List.getElem_ofFn hi').symm

/-- All that is sent. -/
theorem doRouteDumpRequst_eq (request : DumpRequest) (time : Int) :
    doRouteDumpRequst request time = some ([28, 0, 0, 0, 26, 0, 1, 3] ++ (toLE 4 (toUInt time).toNat ++
      ((request.1.drop 12).take 4 ++ 2 :: request.1.drop 17))) := by
  obtain ⟨f, rfl⟩ := request.exists_ofFn
  rfl

/-- **What the request says**, and what else it gives away. Whatever the structure held, it is a message of 28 bytes
that asks for a dump of the IPv4 routes. It is the same for two structures if and only if they have the same
`nlmsg_pid` and the same eleven bytes behind `rtm_family`. -/
theorem dumpRequest_same_iff (request request' : DumpRequest) (time : Int) :
    (∃ m, doRouteDumpRequst request time = some m ∧ nlmsgLen m 0 = some m.length ∧ m.length = 28 ∧
      nlmsgType m 0 = some RTM_GETROUTE ∧ nlmsgFlags m 0 = some (NLM_F_REQUEST ||| NLM_F_DUMP) ∧
      load m 8 4 = some (toUInt time).toNat ∧ rtmFamily m 16 = some AF_INET) ∧
    (doRouteDumpRequst request time = doRouteDumpRequst request' time ↔
      slice request.1 12 4 = slice request'.1 12 4 ∧ slice request.1 17 11 = slice request'.1 17 11) := by
  have hcut : ∀ request : DumpRequest, slice request.1 12 4 = some ((request.1.drop 12).take 4) ∧
      slice request.1 17 11 = some (request.1.drop 17) := by
    intro request
    have hlen := request.2
    refine ⟨slice_eq_some.2 ⟨by omega, rfl⟩, slice_eq_some.2 ⟨by omega, ?_⟩⟩
    exact (List.take_of_length_le (by rw [List.length_drop]; omega)).symm
  constructor
  · obtain ⟨f, rfl⟩ := request.exists_ofFn
    have hseq : slice ([28, 0, 0, 0, 26, 0, 1, 3] ++ (toLE 4 (toUInt time).toNat ++
        (((List.ofFn f).drop 12).take 4 ++ 2 :: (List.ofFn f).drop 17))) 8 4 = some (toLE 4 (toUInt time).toNat) := rfl
    have hflags : NLM_F_REQUEST ||| NLM_F_DUMP = 769 := by decide
    refine ⟨_, doRouteDumpRequst_eq _ time, rfl, rfl, rfl, hflags ▸ rfl, load_eq_some.2 ⟨_, hseq, ?_⟩, rfl⟩
    rw [ofLE_toLE, Nat.mod_eq_of_lt (toUInt_toNat_lt time)]
  · rw [doRouteDumpRequst_eq, doRouteDumpRequst_eq, (hcut request).1, (hcut request).2,
      (hcut request').1, (hcut request').2, Option.some.injEq, Option.some.injEq, Option.some.injEq, List.append_cancel_left_eq, List.append_cancel_left_eq]
    have hlen : ((request.1.drop 12).take 4).length = ((request'.1.drop 12).take 4).length := by
      simp [request.2, request'.2]
    constructor
    · intro heq
      obtain ⟨hpid, hrest⟩ := List.append_inj heq hlen
      exact ⟨hpid, (List.cons.inj hrest).2⟩
    · rintro ⟨hpid, hrest⟩
      rw [hpid, hrest]

/-! ## The program -/

inductive ProgramEvent
  | socket (res : Option Nat)
  | bind (sock : Nat) (ok : Bool)
  | send (sock : Int) (bytes : Mem)
  /-- `get_route_dump_response` -/
  | response (events : List DumpEvent)
  | close (sock : Int)

/-- What the kernel answers, and what the stack holds. -/
structure Answers where
  socket : Option Nat
  bind : Bool
  nl_request : DumpRequest
  time : Int
  send : Int
  malloc : Bool
  sock : Sock

def openNetlink (a : Answers) : Traced ProgramEvent Int := do
  emit (.socket a.socket)
  match a.socket with
  | none => pure (-1)
  | some sock => do
    emit (.bind sock a.bind)
    if a.bind then pure (sock : Int)
    else do
      emit (.close sock)
      pure (-1)

/-- At most `rounds` rounds of the loop over messages. -/
def main (a : Answers) (rounds : Nat) : Traced ProgramEvent Int := do
  let nl_sock ← openNetlink a
  let request ← lift (doRouteDumpRequst a.nl_request a.time)
  emit (.send nl_sock request)
  if a.send < 0 then do
    emit (.close nl_sock)
    pure (-1)
  else do
    let r ← lift ((getRouteDumpResponse rounds a.malloc a.sock).bind Prod.fst)
    emit (.response r.2)
    -- the answer buffer freed twice, or freed and never allocated: undefined from here on
    let _ ← lift (r.2.foldlM Buffer.step .unallocated)
    emit (.close nl_sock)
    pure 0

/-- The descriptor the program uses. -/
def Answers.nlSock (a : Answers) : Option Nat := if a.bind then a.socket else none

/-- The messages handed to `print_route` by the program. -/
def listed (events : List ProgramEvent) : List (List UInt8) :=
  events.flatMap fun e => match e with
    | .response es => handed es
    | _ => []

/-- The descriptors that are closed, those left out that are none. -/
def closed (events : List ProgramEvent) : List Nat :=
  events.filterMap fun e => match e with
    | .close (.ofNat sock) => some sock
    | _ => none

theorem listed_append (es es' : List ProgramEvent) : listed (es ++ es') = listed es ++ listed es' := List.flatMap_append

theorem closed_append (es es' : List ProgramEvent) : closed (es ++ es') = closed es ++ closed es' :=
  List.filterMap_append

theorem openNetlink_eq (a : Answers) :
    ∃ events, openNetlink a = ⟨events, some (a.nlSock.elim (-1) fun sock => (sock : Int))⟩ ∧ listed events = [] ∧
      closed events ++ a.nlSock.toList = a.socket.toList ∧ ∀ sock bytes, .send sock bytes ∉ events := by
  unfold openNetlink Answers.nlSock
  cases a.socket with
  | none => exact ⟨[.socket none], by simp, rfl, by simp [closed], by simp⟩
  | some sock =>
    cases a.bind with
    | true => exact ⟨[.socket (some sock), .bind sock true], by simp, rfl, rfl, by simp⟩
    | false => exact ⟨[.socket (some sock), .bind sock false, .close sock], by simp, rfl, rfl, by simp⟩

/-- The descriptors a call of `close` on this one closes. -/
theorem closed_close (o : Option Nat) : closed [.close (o.elim (-1) fun sock => (sock : Int))] = o.toList := by
  cases o <;> rfl

section Runs

variable {a : Answers} {opening : List ProgramEvent} {nl_sock : Int} {bytes : Mem}

/-- A run that ends because nothing could be sent. -/
theorem main_unsent (hopen : openNetlink a = ⟨opening, some nl_sock⟩)
    (hbytes : doRouteDumpRequst a.nl_request a.time = some bytes) (hsent : a.send < 0) (rounds : Nat) :
    main a rounds = ⟨opening ++ [.send nl_sock bytes, .close nl_sock], some (-1)⟩ := by
  unfold main
  rw [hopen, hbytes, bind_of_some rfl]
  simp [hsent]

/-- A run that is waiting for the response, or stuck in it, or has come to its end. -/
theorem main_sent (hopen : openNetlink a = ⟨opening, some nl_sock⟩)
    (hbytes : doRouteDumpRequst a.nl_request a.time = some bytes) (hsent : ¬ a.send < 0) (rounds : Nat) :
    main a rounds = match (getRouteDumpResponse rounds a.malloc a.sock).bind Prod.fst with
      | none => ⟨opening ++ [.send nl_sock bytes], none⟩
      | some r => match r.2.foldlM Buffer.step .unallocated with
        | none => ⟨opening ++ [.send nl_sock bytes, .response r.2], none⟩
        | some _ => ⟨opening ++ [.send nl_sock bytes, .response r.2, .close nl_sock], some 0⟩ := by
  have hstuck : ∀ {α : Type} (f : α → Traced ProgramEvent Int), lift none >>= f = ⟨[], none⟩ :=
    fun _ => bind_of_none rfl
  unfold main
  rw [hopen, hbytes, bind_of_some rfl]
  cases (getRouteDumpResponse rounds a.malloc a.sock).bind Prod.fst with
  | none => simp [hsent, hstuck]
  | some r => cases hbuffer : r.2.foldlM Buffer.step .unallocated <;> simp [hsent, hstuck, hbuffer]

/-- Behind a request that was sent, the program ends with a response that has used the answer buffer well. -/
theorem main_sent_value (hopen : openNetlink a = ⟨opening, some nl_sock⟩)
    (hbytes : doRouteDumpRequst a.nl_request a.time = some bytes) (hsent : ¬ a.send < 0) {rounds : Nat} {status : Int} :
    (main a rounds).value = some status ↔ status = 0 ∧
      ∃ r, (getRouteDumpResponse rounds a.malloc a.sock).bind Prod.fst = some r ∧
        ∃ b, r.2.foldlM Buffer.step .unallocated = some b := by
  rw [main_sent hopen hbytes hsent]
  cases (getRouteDumpResponse rounds a.malloc a.sock).bind Prod.fst with
  | none => simp
  | some r => cases hbuffer : r.2.foldlM Buffer.step .unallocated <;> simp [hbuffer, eq_comm]

/-- **The response to a dump**: what is handed over, and what becomes of the answer buffer. -/
theorem response_spec {d : Datagram} (rest : List Datagram) {script : List (Option RecvError)} {xs : List Msg}
    (hd : d.Carries xs) (hscript : Patient 2 script) :
    ∃ r, (∃ rounds, (getRouteDumpResponse rounds true { queue := d :: rest, script }).bind Prod.fst = some r) ∧
      (∀ rounds r', (getRouteDumpResponse rounds true { queue := d :: rest, script }).bind Prod.fst = some r' →
        r' = r) ∧
      handed r.2 = (xs.takeWhile fun x => !x.interrupted).map Msg.bytes ∧
      ((r.2.foldlM Buffer.step .unallocated).isSome = true ↔
        d.bytes ≠ [] ∧ ∀ x ∈ xs.takeWhile (fun x => !x.interrupted), x.type ≠ NLMSG_ERROR) := by
  obtain ⟨r, ⟨n, sock', hr⟩, hunique, htrace⟩ := dump_response_trace rest hd hscript
  refine ⟨r, ⟨n, by rw [hr]; rfl⟩, ?_, handed_of_trace hd htrace, ?_⟩
  · intro rounds r' hr'
    obtain ⟨⟨o, sock''⟩, hresponse, rfl⟩ := Option.bind_eq_some_iff.1 hr'
    exact Option.some.inj (hunique _ _ _ hresponse)
  · split at htrace
    · rename_i hempty
      have hnil : d.bytes = [] := List.eq_nil_of_length_eq_zero hempty
      simp [htrace, hnil, Buffer.step]
    · rename_i hempty
      have hne : d.bytes ≠ [] := fun hnil => hempty (by rw [hnil]; rfl)
      obtain ⟨tail, htail, hevents⟩ := htrace
      rw [hevents, buffer_trace htail, and_iff_right hne]
      split <;> simp_all

/-- **A run of the program**, whichever of its calls fail. It comes to its end if and only if the request could not be
sent, or the first datagram has messages and none of those in front of the first interrupted one is an
`NLMSG_ERROR`. Then the messages up to there are handed over and the status is 0, or, if the request could not be
sent, none is and the status is -1; `send` has been called once, and the socket that was opened, if any, has been
closed once. -/
theorem main_lists (a : Answers) {d : Datagram} {rest : List Datagram} {xs : List Msg}
    (hqueue : a.sock.queue = d :: rest) (hd : d.Carries xs) (hscript : Patient 2 a.sock.script) (hmalloc : a.malloc = true) :
    ((∃ rounds status, (main a rounds).value = some status) ↔ a.send < 0 ∨
      d.bytes ≠ [] ∧ ∀ x ∈ xs.takeWhile (fun x => !x.interrupted), x.type ≠ NLMSG_ERROR) ∧
    ∀ rounds status, (main a rounds).value = some status →
      status = (if a.send < 0 then -1 else 0) ∧
      listed (main a rounds).events =
        (if a.send < 0 then [] else (xs.takeWhile fun x => !x.interrupted).map Msg.bytes) ∧
      closed (main a rounds).events = a.socket.toList ∧
      ∃ before after bytes, (main a rounds).events =
          before ++ .send (a.nlSock.elim (-1) fun sock => (sock : Int)) bytes :: after ∧
        doRouteDumpRequst a.nl_request a.time = some bytes ∧ ∀ sock bytes, .send sock bytes ∉ before ++ after := by
  obtain ⟨opening, hopen, hlisted, hclosed, hquiet⟩ := openNetlink_eq a
  obtain ⟨bytes, hbytes⟩ : ∃ bytes, doRouteDumpRequst a.nl_request a.time = some bytes := ⟨_, doRouteDumpRequst_eq _ _⟩
  have hnl := closed_close a.nlSock
  generalize (a.nlSock.elim (-1) fun sock => (sock : Int)) = nl_sock at hopen hnl ⊢
  by_cases hsent : a.send < 0
  · have hmain := main_unsent hopen hbytes hsent
    refine ⟨⟨fun _ => .inl hsent, fun _ => ⟨0, -1, by rw [hmain]⟩⟩, ?_⟩
    intro rounds status hvalue
    rw [hmain] at hvalue ⊢
    cases hvalue
    refine ⟨(if_pos hsent).symm, ?_, ?_, opening, [.close nl_sock], bytes, rfl, hbytes, by simp [hquiet]⟩
    · rw [if_pos hsent, listed_append, hlisted]
      rfl
    · have hrest : closed [.send nl_sock bytes, .close nl_sock] = closed [.close nl_sock] := rfl
      rw [closed_append, hrest, hnl, hclosed]
  · obtain ⟨r, ⟨n, hr⟩, hunique, hhanded, hused⟩ := response_spec rest hd hscript
    have hsock : a.sock = { queue := d :: rest, script := a.sock.script } := by rw [← hqueue]
    rw [← hsock, ← hmalloc] at hr hunique
    rw [← hused, or_iff_right hsent, Option.isSome_iff_exists]
    refine ⟨⟨?_, ?_⟩, ?_⟩
    · rintro ⟨rounds, status, hvalue⟩
      obtain ⟨-, r', hresponse, hbuffer⟩ := (main_sent_value hopen hbytes hsent).1 hvalue
      obtain rfl := hunique _ _ hresponse
      exact hbuffer
    · intro hbuffer
      exact ⟨n, 0, (main_sent_value hopen hbytes hsent).2 ⟨rfl, r, hr, hbuffer⟩⟩
    · intro rounds status hvalue
      obtain ⟨rfl, r', hresponse, b, hbuffer⟩ := (main_sent_value hopen hbytes hsent).1 hvalue
      obtain rfl := hunique _ _ hresponse
      have hmain := main_sent hopen hbytes hsent rounds
      simp only [hresponse, hbuffer] at hmain
      rw [hmain]
      have hrest : listed [.send nl_sock bytes, .response r'.2, .close nl_sock] = handed r'.2 := by simp [listed]
      have hrest' : closed [.send nl_sock bytes, .response r'.2, .close nl_sock] = closed [.close nl_sock] := rfl
      refine ⟨(if_neg hsent).symm, ?_, ?_, opening, [.response r'.2, .close nl_sock], bytes, rfl, hbytes,
        by simp [hquiet]⟩
      · rw [if_neg hsent, listed_append, hlisted, hrest, hhanded]
        rfl
      · rw [closed_append, hrest', hnl, hclosed]

end Runs

/-- A dump of one route. -/
def oneRoute : Answers where
  socket := some 3
  bind := true
  nl_request := ⟨List.replicate 28 0, rfl⟩
  time := 0
  send := 28
  malloc := true
  sock := { queue := [senderDatagram 0], script := [some ⟨EINTR, EINTR⟩, none, none] }

theorem main_lists_one : ∃ rounds, (main oneRoute rounds).value = some 0 ∧
    listed (main oneRoute rounds).events = [(sampleMsg 24 1).bytes] ∧ closed (main oneRoute rounds).events = [3] := by
  have hd : (senderDatagram 0).Carries [sampleMsg 24 1] := ⟨rfl, ⟨rfl, trivial⟩, by decide⟩
  have hscript : Patient 2 oneRoute.sock.script := ⟨by simp [oneRoute, EINTR], by decide⟩
  obtain ⟨hends, hrun⟩ := main_lists oneRoute rfl hd hscript rfl
  obtain ⟨rounds, status, hvalue⟩ := hends.2 (.inr ⟨by decide, by decide⟩)
  obtain ⟨rfl, hlisted, hclosed, -⟩ := hrun rounds status hvalue
  exact ⟨rounds, hvalue, hlisted, hclosed⟩

end CHell.Netlink
