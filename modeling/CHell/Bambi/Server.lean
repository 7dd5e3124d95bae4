import CHell.Lib.ForkServer

/-!
# The stream server, `network/bambi_tcp.c`

| here | there |
| --- | --- |
| `banner`       | `banner` (:21-62) |
| `childProgram` | `close(sockfd); send(…); close(new_fd); exit(0);` (:159-164) |
| `step`         | `main`'s `while (1)` (:146-167), one statement at a time, or a child's next call |

`new_fd` is `none` for -1 (and before the first `accept`). `fork` is not tested for -1: the parent then goes on to
`close(new_fd)`, as it does behind a child. Standard output is left out, and with it `inet_ntop` (:154-156).
-/

namespace CHell.Bambi.Tcp

open ForkServer

def banner : String :=
    "                                             ......\n" ++
    "                                    ...------mmmmmmm-----....\n" ++
    "                                  .--mmmmmmmmmmmmmmmmmmmmmmmm-\n" ++
    "                              ..--mmmmmm------......-----mmmmmm--\n" ++
    "                           .--mmmmm--...                 ...--mmmm-...\n" ++
    "              ...----------mmmmm-..                           ..-mmmmm-.\n" ++
    "          ...-mmmmmmmmmmmmmmm-..                                 .-mmmm-.\n" ++
    "         .-mmmmmm--.....----.     .                                -mmmmm.\n" ++
    "         .mmmmmmm--....         .-m-.         ....-----------..     ..mmmm.\n" ++
    "         .-mmmmmmmmmmmm--.     .-mmm-     ..--mmmmmmmmmmmmmmmmm--.    .-mmm.\n" ++
    "           .-mmmm--...---.       .-.   .--mmmmm----........---mmmm-.   .-mmm.\n" ++
    "             .-mmmm---...            .-mmmmm-..               .-mmmm-.  .-mmm-.\n" ++
    "               ..-mmmmmmm-.         .mmmm-.                     .-mmmm.  .-mmmm.\n" ++
    "                  .-mmmmm-.        .-mmm-.                       -mmmm.   .mmmmm.\n" ++
    "    ..---.         -mmmm-.         .-mm-..                       -mmmm.    .mmmm-.\n" ++
    "   .mmmmmm---.    -mmmm-           .-mmm-..                   ..-mmmm-      .-mmm-.\n" ++
    " .-mmmm-mmmmmm-. .mmmm-.            .-mmmmm----.........------mmmm-..         .mmmm.\n" ++
    ".-mmmm-..--mmmmm-mmmmm-. ...-------.  .---mmmmmmmmmmmmmmmmmmmmm--.             .-mmm.\n" ++
    ".mmmm-......-mmmmmmmmmmm-mmmmmmmmmmm.     ..---mmmmmmmm------..                 .mmmm.\n" ++
    ".mmmm-......--mmm---mmmmmmmmmmmmmmmm-         ..........                         .mmmm..\n" ++
    ".mmmmm----mmmmmmm---mmmmm----...-mmm-                                             .-mmmm-.\n" ++
    ".-mmmmmmmmmmmmmmmmmmmmmmm--.....-mmm-                                               .mmmmm-..        ..\n" ++
    " ...---mmmmmm--mmmmmmmmmmmm--..-mmmm.                                                .--mmmmm--------mm-\n" ++
    "    .-mmmm----mmmmmm--mmmmmmmm-mmmm.                                                    ..--mmmmmmmmmm--.\n" ++
    "   .-mmmm-..-mmmmmmm-.-mmmmmmmmmmm-                                                        ..-------...--.\n" ++
    " .-mmmmm-.---mmmmmmm-.-mmmm---mm--.                                                              ...--mmm--.\n" ++
    " .--mmmmm-mmmmm-mmmm...-mmm.  ..                                                               .--mmmmm---...\n" ++
    "    .--mmmmmmm-.-mmm----mmm-.                                                                  ..-m------mmmm.\n" ++
    "       ..----. .-mmmmmmmmmmm.                                                                     .--mmmmmm--.\n" ++
    "                ---mmmmmm---.                                                                    .-mmmmm-...\n" ++
    "                  ........                                                                     ..-mmm-..\n" ++
    "                  .-mm-.                                                                     .-mmmmm-\n" ++
    "                  .mmmmm-.                                                                 .-mmmmm-.\n" ++
    "                   .-mmmm-..                                                             .-mmmm--.\n" ++
    "                     ..-mmmm-..                                                     ..---mmmm-.\n" ++
    "                        -mmmmmm-..                                                .--mmmmmm-.\n" ++
    "                         .--mmmmm---..                                      ....--mmmmmm--.\n" ++
    "                            .---mmmmmm-----....                   ......----mmmmmmm--...\n" ++
    "                                ...--mmmmmmmmmmm------------------mmmmmmmmmmm----..\n" ++
    "                                     .....-----mmmmmmmmmmmmmmmmmmmm------...\n" ++
    "                                              ...........-.........\n" ++
    "~JustHumanz~\n"

inductive ChildCall
  /-- `close(sockfd)` -/
  | closeListener
  | send (text : String)
  | perror (text : String)
  | close
deriving DecidableEq

/-- What a child calls; `sent` is what its `send` answers. -/
def childProgram (sockfd new_fd : Fd) (sent : Int) : List (Call ChildCall) :=
  { fd := some sockfd, act := .closeListener, closes := true } ::
  { fd := some new_fd, act := .send banner, closes := false } ::
  ((if sent = -1 then [{ fd := none, act := .perror "send", closes := false }] else []) ++
    [{ fd := some new_fd, act := .close, closes := true }])

/-- The statement `main` executes next. -/
inductive Pc
  | accept
  /-- `if (new_fd == -1)` -/
  | testNewFd
  /-- `perror("acc"); exit(1);` -/
  | exit
  | fork
  /-- `close(new_fd)` -/
  | close
  | exited
deriving DecidableEq

structure Server where
  pc : Pc
  new_fd : Option Fd
  kernel : Kernel ChildCall

inductive Move
  /-- `main`'s next statement, with what `accept` and `fork` answer in it, and the child's `send`. -/
  | main (accept : Option Fd) (fork : Option Pid) (sent : Int)
  | child (pid : Pid)
  /-- `exit(0)` in a child. -/
  | exit (pid : Pid)

section Code

variable (sockfd : Fd)

def mainStep (s : Server) (accept : Option Fd) (fork : Option Pid) (sent : Int) :
    Option (Server × List (Event ChildCall)) :=
  match s.pc with
  | .accept =>
    match accept with
    | some fd => do
      let (kernel, es) ← s.kernel.accept fd
      some ({ pc := .testNewFd, new_fd := some fd, kernel }, es)
    | none => some ({ s with pc := .testNewFd, new_fd := none }, [])
  | .testNewFd => some ({ s with pc := if s.new_fd = none then .exit else .fork }, [])
  | .exit => some ({ s with pc := .exited, kernel := s.kernel.quit }, [])
  | .fork =>
    match fork, s.new_fd with
    | some pid, some new_fd => do
      let (kernel, es) ← s.kernel.fork pid (childProgram sockfd new_fd sent) true
      some ({ s with pc := .close, kernel }, es)
    | _, _ => some ({ s with pc := .close }, [])
  | .close =>
    match s.new_fd with
    | some new_fd => some ({ s with pc := .accept, kernel := s.kernel.close new_fd }, [])
    | none => some ({ s with pc := .accept }, [])
  | .exited => none

def step (s : Server) : Move → Option (Server × List (Event ChildCall))
  | .main accept fork sent => mainStep sockfd s accept fork sent
  | .child pid => do
    let (kernel, es) ← s.kernel.run pid
    some ({ s with kernel }, es)
  | .exit pid => do
    let (kernel, es) ← s.kernel.exit pid
    some ({ s with kernel }, es)

/-- `main` at its loop, with the listening socket open. -/
def start : Server := { pc := .accept, new_fd := none, kernel := ForkServer.start sockfd }

end Code

/-- The programs of the children. -/
def IsChild (sockfd new_fd : Fd) (prog : List (Call ChildCall)) : Prop := ∃ sent, prog = childProgram sockfd new_fd sent

/-- What the parent has in hand when it comes to `pc`. -/
def InHand (pc : Pc) (new_fd : Option Fd) (ph : Phase) : Prop :=
  match pc with
  | .accept | .exit => ph = .idle
  | .testNewFd => ph = match new_fd with
    | some fd => .accepted fd
    | none => .idle
  | .fork => ∃ fd, new_fd = some fd ∧ ph = .accepted fd
  | .close => ∃ fd, new_fd = some fd ∧ ph.holds = some fd
  | .exited => ph = .quit

variable {sockfd : Fd} {tr es : List (Event ChildCall)} {s s' : Server}

/-- The parent has in hand what its program counter says, and all processes together are as `Serving` says. -/
def Sound (sockfd : Fd) (tr : List (Event ChildCall)) (s : Server) : Prop :=
  ∃ ph, InHand s.pc s.new_fd ph ∧ Serving sockfd (IsChild sockfd) ph tr s.kernel

theorem mainStep_sound {accept : Option Fd} {fork : Option Pid} {sent : Int} (h : Sound sockfd tr s)
    (hs : mainStep sockfd s accept fork sent = some (s', es)) : Sound sockfd (tr ++ es) s' := by
  obtain ⟨pc, new_fd, kernel⟩ := s
  obtain ⟨ph, hhand, h⟩ := h
  cases pc
  case accept =>
    obtain rfl : ph = .idle := hhand
    cases accept with
    | none =>
      cases hs
      exact ⟨.idle, rfl, by simpa using h⟩
    | some fd =>
      simp only [mainStep, Option.bind_eq_bind, Option.bind_eq_some_iff] at hs
      obtain ⟨⟨kernel', es'⟩, haccept, hs⟩ := hs
      cases hs
      exact ⟨.accepted fd, rfl, h.accept haccept⟩
  case testNewFd =>
    cases hs
    rw [List.append_nil]
    cases new_fd with
    | none => exact ⟨ph, hhand, h⟩
    | some fd => exact ⟨ph, ⟨fd, rfl, hhand⟩, h⟩
  case exit =>
    cases hs
    exact ⟨.quit, rfl, by simpa using h.quit⟩
  case fork =>
    obtain ⟨fd, hfd, rfl⟩ := hhand
    obtain rfl : new_fd = some fd := hfd
    cases fork with
    | none =>
      cases hs
      exact ⟨.accepted fd, ⟨fd, rfl, rfl⟩, by simpa using h⟩
    | some pid =>
      simp only [mainStep, Option.bind_eq_bind, Option.bind_eq_some_iff] at hs
      obtain ⟨⟨kernel', es'⟩, hfork, hs⟩ := hs
      cases hs
      exact ⟨.forked fd, ⟨fd, rfl, rfl⟩, h.fork ⟨sent, rfl⟩ hfork⟩
  case close =>
    obtain ⟨fd, hfd, hholds⟩ := hhand
    obtain rfl : new_fd = some fd := hfd
    cases hs
    exact ⟨.idle, rfl, by simpa using h.close hholds⟩
  case exited => cases hs

/-- **One step** of the server or of a child. -/
theorem step_sound {m : Move} (h : Sound sockfd tr s) (hs : step sockfd s m = some (s', es)) :
    Sound sockfd (tr ++ es) s' := by
  cases m with
  | main accept fork sent => exact mainStep_sound h hs
  | child pid =>
    obtain ⟨ph, hhand, h⟩ := h
    simp only [step, Option.bind_eq_bind, Option.bind_eq_some_iff] at hs
    obtain ⟨⟨kernel, es'⟩, hrun, hs⟩ := hs
    cases hs
    exact ⟨ph, hhand, h.run hrun⟩
  | exit pid =>
    obtain ⟨ph, hhand, h⟩ := h
    simp only [step, Option.bind_eq_bind, Option.bind_eq_some_iff] at hs
    obtain ⟨⟨kernel, es'⟩, hexit, hs⟩ := hs
    cases hs
    exact ⟨ph, hhand, h.exit hexit⟩

/-- What a child calls on its connection: the result of `send` makes no difference. -/
theorem hitsOf_childProgram {new_fd : Fd} (hne : new_fd ≠ sockfd) (n : Nat) (sent : Int) :
    hitsOf n (table sockfd (some (new_fd, n))) (childProgram sockfd new_fd sent) = [.send banner, .close] := by
  have hconn : (table sockfd (some (new_fd, n))).close sockfd new_fd = some (.conn n) := by
    simp [Files.close, table, hne]
  by_cases hsent : sent = -1 <;> simp [childProgram, hitsOf, Call.file, Call.after, hconn, hsent]

/-- **Every connection gets the banner once, or nothing.** In every run, whatever the order of the steps: on connection
number `n` the children call nothing if no process was forked for it, else `send(banner)` and `close`, in
this order and each at most once, and both of them once no process has it open. At the head of the
loop the parent has the listening socket alone, and a connection without a process is closed: a `fork` that fails
drops the client. -/
theorem banner_once (hrun : Reactive.Run (step sockfd) (fun _ _ _ => True) (start sockfd) tr s) (n : Nat) :
    (¬ Forked n tr → hits n tr = []) ∧
    (Forked n tr → hits n tr <+: [.send banner, .close] ∧
      (¬ s.kernel.Open n → hits n tr = [.send banner, .close])) ∧
    (s.pc = .accept → s.kernel.files = table sockfd none ∧ (¬ Forked n tr → ¬ s.kernel.Open n)) := by
  have hsound : Sound sockfd tr s := by
    refine Reactive.Run.invariant (Sound sockfd) ?_ ?_ hrun
    · exact ⟨.idle, rfl, serving_start sockfd _⟩
    · intro tr s m s' es ih _ hs
      exact step_sound ih hs
  obtain ⟨ph, hhand, h⟩ := hsound
  refine ⟨h.silent n, ?_, ?_⟩
  · intro hn
    obtain ⟨acts, ⟨fd, prog, hne, ⟨sent, rfl⟩, rfl⟩, hfront, hall⟩ := h.hits_prefix hn
    rw [hitsOf_childProgram hne] at hfront hall
    exact ⟨hfront, hall⟩
  · intro hpc
    rw [hpc] at hhand
    obtain rfl : ph = .idle := hhand
    refine ⟨h.files, fun hn hopen => ?_⟩
    rcases h.open_cases hopen with ⟨fd, hfd, -⟩ | ⟨pid, c, hc, rfl⟩
    · cases hfd
    · exact hn (h.job pid c hc).1

/-- The first `fork` fails, the second does not; `send` fails in the child. -/
def twoClients : List Move :=
  List.replicate 4 (.main (some 4) none 0) ++ List.replicate 3 (.main (some 4) (some 100) (-1)) ++
    [.child 100, .child 100, .main none none 0, .child 100, .child 100, .exit 100]

/-- What they call. -/
def twoClientsTrace : List (Event ChildCall) :=
  [.accepted 0, .accepted 1, .forked 100 1, .call 100 (some .listener) .closeListener,
    .call 100 (some (.conn 1)) (.send banner), .call 100 none (.perror "send"), .call 100 (some (.conn 1)) .close,
    .exited 100]

theorem banner_once_two : ∃ s tr, Reactive.Run (step 3) (fun _ _ _ => True) (start 3) tr s ∧
    s.pc = .accept ∧ ¬ s.kernel.Open 0 ∧ hits 1 tr = [.send banner, .close] := by
  obtain ⟨s, hexec⟩ : ∃ s, Reactive.exec (step 3) (start 3) twoClients = some (s, twoClientsTrace) := ⟨_, rfl⟩
  have hrun := Reactive.Run.exec (fun _ _ _ => trivial) .start hexec
  have hfailed : ¬ Forked 0 twoClientsTrace := by simp [Forked, twoClientsTrace]
  have hpc : s.pc = .accept := by
    cases hexec
    rfl
  exact ⟨s, _, hrun, hpc, ((banner_once hrun 0).2.2 hpc).2 hfailed, rfl⟩

end CHell.Bambi.Tcp
