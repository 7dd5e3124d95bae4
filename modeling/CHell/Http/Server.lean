import CHell.Http.ParentRuns
import CHell.Http.Client
import CHell.Lib.ForkServer

/-!
# The forking web server as a system of processes, `network/http.c`

The parent of `Http/Parent.lean`, its children, each in `handle_client`, and their descriptor
tables.

| here | there |
| --- | --- |
| `childProgram` | `close(sockfd); exit(handle_client(connfd));` (:193-194) |
| `effect`       | what a statement of `main` does to the descriptors: `accept` (:173), `close` (:180, :199), `fork` (:186), `exit` (:181, :189) |
| `step`         | a statement of `main` or of `sigchld_handler`, a delivery, or the next call of a child |

The answers to the calls of a child are drawn at the `fork`; its calls are made one at a time, with the steps of the
others in between. A child whose run has no defined end (`buffer[-1]`, a `parse_http` that runs away) stops where
the definition ends.
-/

namespace CHell.Http

open ForkServer Traced

/-- What a child calls. -/
inductive ChildCall
  /-- `close(sockfd)` -/
  | closeListener
  | client (e : ClientEvent)
deriving DecidableEq

/-- What the calls of a child answer, and what its stack holds. -/
structure ClientAnswers where
  buffer : Buffer
  recv : Option Received
  frame : Frame
  sent : String → Int

/-- `parse_http(buffer, n)` -/
def ClientAnswers.parse (a : ClientAnswers) (buffer : Memory.Mem) (n : Int) : Option Int :=
  (parseHttp (some buffer) n a.frame).value

def ClientAnswers.run (a : ClientAnswers) : Traced ClientEvent Int := handleClient a.buffer a.recv a.parse a.sent

/-- Whether the event is a call that is given `connfd`. -/
def ClientEvent.fd (connfd : Fd) : ClientEvent → Option Fd
  | .recv | .send _ | .close => some connfd
  | _ => none

def clientCall (connfd : Fd) (e : ClientEvent) : Call ChildCall :=
  { fd := e.fd connfd, act := .client e, closes := e = .close }

def childProgram (sockfd connfd : Fd) (a : ClientAnswers) : List (Call ChildCall) :=
  { fd := some sockfd, act := .closeListener, closes := true } :: a.run.events.map (clientCall connfd)

structure Server where
  parent : State
  kernel : Kernel ChildCall

section Code

variable (sockfd : Fd)

/-- What the parent's next statement does to the descriptors. -/
def effect (s : Server) (accept : Except Int Nat) (fork : Option Pid) (a : ClientAnswers) :
    Option (Kernel ChildCall × List (ForkServer.Event ChildCall)) :=
  match s.parent.pc with
  | .accept =>
    match accept with
    | .ok fd => s.kernel.accept fd
    | .error _ => some (s.kernel, [])
  | .closeSockfd => some (s.kernel.close sockfd, [])
  | .exitAccept | .exitFork => some (s.kernel.quit, [])
  | .fork =>
    match fork with
    | some pid => s.kernel.fork pid (childProgram sockfd s.parent.connfd.toNat a) a.run.value.isSome
    | none => some (s.kernel, [])
  | .close => some (if s.parent.connfd < 0 then s.kernel else s.kernel.close s.parent.connfd.toNat, [])
  | _ => some (s.kernel, [])

inductive Move
  /-- `main`'s next statement, with what `accept` and `fork` answer in it, and a child's answers. -/
  | main (accept : Except Int Nat) (fork : Option Pid) (a : ClientAnswers)
  | handler (pid : Pid)
  | deliver
  | childStop
  /-- A child's next call. -/
  | child (pid : Pid)
  /-- A child's `exit`. -/
  | exit (pid : Pid)

def Server.step (s : Server) : Move → Option (Server × List (ForkServer.Event ChildCall))
  | .main accept fork a => do
    let (parent, _) ← Http.step s.parent (.main accept fork)
    let (kernel, es) ← effect sockfd s accept fork a
    some ({ parent, kernel }, es)
  | .handler pid => do
    let (parent, _) ← Http.step s.parent (.handler pid)
    some ({ s with parent }, [])
  | .deliver => do
    let (parent, _) ← Http.step s.parent .deliver
    some ({ s with parent }, [])
  | .childStop => do
    let (parent, _) ← Http.step s.parent .childStop
    some ({ s with parent }, [])
  | .child pid => do
    let (kernel, es) ← s.kernel.run pid
    some ({ s with kernel }, es)
  | .exit pid => do
    let (kernel, es) ← s.kernel.exit pid
    let (parent, _) ← Http.step s.parent (.childExit pid)
    some ({ parent, kernel }, es)

/-- `main` at its loop, with the listening socket open. -/
def Server.start (connfd childpid errno : Int) : Server :=
  { parent := Http.start connfd childpid errno, kernel := ForkServer.start sockfd }

end Code

/-! ## The calls of one child -/

/-- What `handle_client` calls on its connection. -/
def connectionCalls (a : ClientAnswers) : List ClientEvent :=
  .recv ::
    match a.recv with
    | none => [.close]
    | some bs =>
      if bs.1 = [] then [.close]
      else match a.parse (terminated a.buffer bs.1) bs.1.length with
        | none => []
        | some v => if v = 0 ∨ v = 1 then [.send sendOk, .send sendmsg, .close] else [.close]

/-- The run after a `recv` that did not fail, if `parse_http` does not return. -/
theorem handleClient_lost {buffer : Buffer} {bs : Received} {parse : Memory.Mem → Int → Option Int}
    {sent : String → Int} (hv : parse (terminated buffer bs.1) bs.1.length = none) :
    handleClient buffer (some bs) parse sent =
      ⟨.recv :: (if bs.1 = [] then [.perror "recv() errr", .close] else []) ++
        [.terminate bs.1.length, .parse], none⟩ := by
  have hn0 : 0 ≤ recvResult (some bs) := Int.natCast_nonneg _
  have hn : recvResult (some bs) ≤ 0 ↔ bs.1 = [] := by
    simp only [recvResult, ← List.length_eq_zero_iff]
    omega
  have hstore : Memory.store (afterRecv buffer (some bs)) (recvResult (some bs)).toNat [0] =
      some (terminated buffer bs.1) := store_afterRecv buffer bs
  have hparse : parse (terminated buffer bs.1) (recvResult (some bs)) = none := hv
  by_cases hempty : bs.1 = []
  · simp only [handleClient, if_pos (hn.2 hempty), if_pos hn0, if_pos hempty, hstore, emit_bind, lift_some_bind, hparse]
    rfl
  · simp only [handleClient, if_neg (mt hn.1 hempty), if_pos hn0, if_neg hempty, hstore, emit_bind, lift_some_bind,
      hparse]
    rfl

section Calls

variable {n : Nat} {connfd : Fd} {fs : Files} {e : ClientEvent} {es : List ClientEvent}

theorem hitsOf_idle (he : e.fd connfd = none) :
    hitsOf n fs ((e :: es).map (clientCall connfd)) = hitsOf n fs (es.map (clientCall connfd)) := by
  simp [hitsOf, clientCall, Call.file, Call.after, he]

theorem hitsOf_call (hfs : fs connfd = some (.conn n)) (he : e.fd connfd = some connfd) (hclose : e ≠ .close) :
    hitsOf n fs ((e :: es).map (clientCall connfd)) = .client e :: hitsOf n fs (es.map (clientCall connfd)) := by
  simp [hitsOf, clientCall, Call.file, Call.after, he, hclose, hfs]

/-- After the `close` there is nothing to call on: a second one fails. -/
theorem hitsOf_close (hfs : ∀ d, fs d = some (.conn n) ↔ d = connfd) :
    hitsOf n fs ((ClientEvent.close :: es).map (clientCall connfd)) = [.client .close] := by
  have hclosed : ∀ d, fs.close connfd d ≠ some (.conn n) := by
    intro d
    by_cases hd : d = connfd
    · simp [Files.close, hd]
    · simpa [Files.close, Function.update_of_ne hd] using mt (hfs d).1 hd
  have hrest := hitsOf_eq_nil hclosed (es.map (clientCall connfd))
  simp only [List.map_cons, hitsOf, clientCall, Call.file, Call.after, ClientEvent.fd, Option.bind_some,
    (hfs connfd).2 rfl, if_true, decide_true]
  rw [hrest]
  rfl

theorem hitsOf_reply (hfs : ∀ d, fs d = some (.conn n) ↔ d = connfd) (v : Int) (sent : String → Int) :
    hitsOf n fs ((reply v sent).events.map (clientCall connfd)) =
      (if v = 0 ∨ v = 1 then [.send sendOk, .send sendmsg, .close] else [.close]).map .client := by
  have hconn := (hfs connfd).2 rfl
  rw [reply_eq]
  by_cases hv : v = 0 ∨ v = 1
  · rw [if_pos hv, if_pos hv, List.cons_append, List.cons_append, hitsOf_call hconn rfl (by simp),
      List.cons_append, List.cons_append, hitsOf_call hconn rfl (by simp)]
    split
    · rw [List.nil_append, List.cons_append, hitsOf_idle rfl, List.nil_append, hitsOf_close hfs]
      rfl
    · rw [List.nil_append, List.nil_append, hitsOf_close hfs]
      rfl
  · rw [if_neg hv, if_neg hv, hitsOf_idle rfl, hitsOf_close hfs]
    rfl

end Calls

/-- **What a child calls on its connection**, from the table it is forked with. -/
theorem hitsOf_childProgram {sockfd connfd : Fd} (hne : connfd ≠ sockfd) (n : Nat) (a : ClientAnswers) :
    hitsOf n (table sockfd (some (connfd, n))) (childProgram sockfd connfd a) =
      (connectionCalls a).map .client := by
  -- the table without the listening socket
  have hfs : ∀ d, (table sockfd (some (connfd, n))).close sockfd d = some (.conn n) ↔ d = connfd := by
    intro d
    unfold Files.close Function.update table
    grind
  generalize hfiles : (table sockfd (some (connfd, n))).close sockfd = fs at hfs
  have hconn := (hfs connfd).2 rfl
  have hfirst : hitsOf n (table sockfd (some (connfd, n))) (childProgram sockfd connfd a) =
      hitsOf n fs (a.run.events.map (clientCall connfd)) := by
    simp [childProgram, hitsOf, Call.file, Call.after, hfiles]
  rw [hfirst]
  unfold connectionCalls ClientAnswers.run
  cases hrecv : a.recv with
  | none =>
    have hrun : (handleClient a.buffer none a.parse a.sent).events =
        [.recv, .perror "recv() errr", .close, .terminate (-1)] := rfl
    rw [hrun, hitsOf_call hconn rfl (by simp), hitsOf_idle rfl, hitsOf_close hfs]
    rfl
  | some bs =>
    -- what precedes the call of `parse_http` for an empty request, and for another
    have hfront : ∀ es : List ClientEvent, hitsOf n fs ((ClientEvent.recv ::
        (if bs.1 = [] then [ClientEvent.perror "recv() errr", .close] else []) ++
          .terminate bs.1.length :: .parse :: es).map (clientCall connfd)) =
        .client .recv :: if bs.1 = [] then [.client .close] else hitsOf n fs (es.map (clientCall connfd)) := by
      intro es
      rw [List.cons_append, hitsOf_call hconn rfl (by simp)]
      by_cases hempty : bs.1 = []
      · rw [if_pos hempty, if_pos hempty, List.cons_append, hitsOf_idle rfl, List.cons_append, hitsOf_close hfs]
      · rw [if_neg hempty, if_neg hempty, List.nil_append, hitsOf_idle rfl, hitsOf_idle rfl]
    cases hparse : a.parse (terminated a.buffer bs.1) bs.1.length with
    | none =>
      rw [handleClient_lost hparse, hfront]
      by_cases hempty : bs.1 = [] <;> simp [hempty, hparse, hitsOf]
    | some v =>
      rw [handleClient_got hparse, hfront, hitsOf_reply hfs]
      by_cases hempty : bs.1 = [] <;> simp [hempty, hparse]

end CHell.Http
