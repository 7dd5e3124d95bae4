import CHell.Lib.Reactive
import Mathlib.Logic.Function.Basic

/-!
# A server that forks for each connection

The descriptor tables of a process and its children. `fork` copies the table of the parent, so a
connection is open in two processes until the parent closes it; a child makes the calls of its
program one at a time, in any interleaving with the others, and each call is an event with what
the caller's own table has under the number it was given (`none`: the number is not open, and the
call fails with `EBADF`).

`Serving sockfd Prog ph tr k` is what holds if the parent only ever accepts, forks, closes and goes
on: its table has the listening socket and at most the latest connection, no child has a
connection of another, and what was called on a connection is what the program of its one child
calls on it, as far as that child has got. `ph` says what the parent has in hand. There is a lemma for each
operation; a server is shown to do no others.
-/

namespace ForkServer

abbrev Fd := Nat
abbrev Pid := Nat

/-- What a descriptor refers to: the listening socket, or the connection number `k` (from 0 on, as
accepted). -/
inductive File
  | listener
  | conn (k : Nat)
deriving DecidableEq

/-- The descriptor table of a process. -/
abbrev Files := Fd → Option File

def Files.close (fs : Files) (fd : Fd) : Files := Function.update fs fd none

/-- A call a child makes, with the descriptor it gives it, if it gives it one. -/
structure Call (κ : Type) where
  fd : Option Fd
  act : κ
  closes : Bool

/-- The entry the caller's table has for it. -/
def Call.file {κ : Type} (c : Call κ) (fs : Files) : Option File := c.fd.bind fs

def Call.after {κ : Type} (c : Call κ) (fs : Files) : Files :=
  match c.fd with
  | some fd => if c.closes then fs.close fd else fs
  | none => fs

/-- A process forked for connection `conn`: what it has still to call, and whether it then exits. -/
structure Child (κ : Type) where
  conn : Nat
  files : Files
  todo : List (Call κ)
  exits : Bool

/-- The parent's table, the number of connections it has accepted, and its children. -/
structure Kernel (κ : Type) where
  files : Files
  accepted : Nat
  children : Pid → Option (Child κ)

inductive Event (κ : Type)
  | accepted (k : Nat)
  | forked (pid : Pid) (k : Nat)
  | call (pid : Pid) (file : Option File) (act : κ)
  | exited (pid : Pid)
deriving DecidableEq

namespace Kernel

variable {κ : Type}

/-- `accept` in the parent; the kernel picks a number that is not open. -/
def accept (k : Kernel κ) (fd : Fd) : Option (Kernel κ × List (Event κ)) :=
  if k.files fd = none then
    some ({ k with files := Function.update k.files fd (some (.conn k.accepted)), accepted := k.accepted + 1 },
      [.accepted k.accepted])
  else none

def close (k : Kernel κ) (fd : Fd) : Kernel κ := { k with files := k.files.close fd }

/-- `exit` in the parent. -/
def quit (k : Kernel κ) : Kernel κ := { k with files := fun _ => none }

/-- `fork` in the parent, for the connection accepted last: the child has a copy of the table. -/
def fork (k : Kernel κ) (pid : Pid) (prog : List (Call κ)) (exits : Bool) : Option (Kernel κ × List (Event κ)) :=
  match k.children pid with
  | some _ => none
  | none =>
    let child := { conn := k.accepted - 1, files := k.files, todo := prog, exits }
    some ({ k with children := Function.update k.children pid (some child) }, [.forked pid (k.accepted - 1)])

/-- The next call of a child. -/
def run (k : Kernel κ) (pid : Pid) : Option (Kernel κ × List (Event κ)) :=
  match k.children pid with
  | some ⟨conn, files, call :: todo, exits⟩ =>
    let child := { conn, files := call.after files, todo, exits }
    some ({ k with children := Function.update k.children pid (some child) }, [.call pid (call.file files) call.act])
  | _ => none

/-- `exit` in a child, after its last call. -/
def exit (k : Kernel κ) (pid : Pid) : Option (Kernel κ × List (Event κ)) :=
  match k.children pid with
  | some ⟨_, _, [], true⟩ => some ({ k with children := Function.update k.children pid none }, [.exited pid])
  | _ => none

/-- Connection `n` is open in some process. -/
def Open (k : Kernel κ) (n : Nat) : Prop :=
  (∃ fd, k.files fd = some (.conn n)) ∨ ∃ pid c fd, k.children pid = some c ∧ c.files fd = some (.conn n)

end Kernel

variable {κ : Type}

/-! ## Calls on a connection -/

/-- What children have called on connection `n`. -/
def hits (n : Nat) (tr : List (Event κ)) : List κ :=
  tr.filterMap fun e => match e with
    | .call _ file act => if file = some (.conn n) then some act else none
    | _ => none

/-- What a program calls on connection `n`, with table `fs` to begin with. -/
def hitsOf (n : Nat) : Files → List (Call κ) → List κ
  | _, [] => []
  | fs, c :: cs => (if c.file fs = some (.conn n) then [c.act] else []) ++ hitsOf n (c.after fs) cs

/-- A process was forked for connection `n`. -/
def Forked (n : Nat) (tr : List (Event κ)) : Prop := ∃ pid, .forked pid n ∈ tr

/-- The table with the listening socket and one connection, if any. -/
def table (sockfd : Fd) (held : Option (Fd × Nat)) : Files := fun fd =>
  if fd = sockfd then some .listener
  else match held with
    | some (d, n) => if fd = d then some (.conn n) else none
    | none => none

@[simp] theorem hits_nil (n : Nat) : hits n ([] : List (Event κ)) = [] := rfl

theorem hits_append (n : Nat) (tr es : List (Event κ)) : hits n (tr ++ es) = hits n tr ++ hits n es :=
  List.filterMap_append

@[simp] theorem hits_accepted (n k : Nat) : hits n [(.accepted k : Event κ)] = [] := rfl

@[simp] theorem hits_forked (n : Nat) (pid : Pid) (k : Nat) : hits n [(.forked pid k : Event κ)] = [] := rfl

@[simp] theorem hits_exited (n : Nat) (pid : Pid) : hits n [(.exited pid : Event κ)] = [] := rfl

theorem hits_call (n : Nat) (pid : Pid) (file : Option File) (act : κ) :
    hits n [.call pid file act] = if file = some (.conn n) then [act] else [] := by
  unfold hits
  rw [List.filterMap_cons]
  split <;> simp_all

@[simp] theorem not_forked_nil (n : Nat) : ¬ Forked n ([] : List (Event κ)) := by simp [Forked]

theorem forked_append (n : Nat) (tr es : List (Event κ)) : Forked n (tr ++ es) ↔ Forked n tr ∨ Forked n es := by
  simp [Forked, exists_or]

/-- An event other than the fork for `n`. -/
theorem forked_snoc {n : Nat} {tr : List (Event κ)} {e : Event κ} (he : ∀ pid, e ≠ .forked pid n) :
    Forked n (tr ++ [e]) ↔ Forked n tr := by
  rw [forked_append, or_iff_left]
  rintro ⟨pid, hmem⟩
  exact he pid (List.mem_singleton.1 hmem).symm

@[simp] theorem table_listener (sockfd : Fd) (held : Option (Fd × Nat)) :
    table sockfd held sockfd = some .listener := if_pos rfl

/-- With the connection installed. -/
theorem update_table {sockfd fd : Fd} (h : fd ≠ sockfd) (n : Nat) :
    Function.update (table sockfd none) fd (some (.conn n)) = table sockfd (some (fd, n)) := by
  funext d
  unfold Function.update table
  grind

/-- And closed again. -/
theorem close_table {sockfd fd : Fd} (h : fd ≠ sockfd) (n : Nat) :
    (table sockfd (some (fd, n))).close fd = table sockfd none := by
  funext d
  unfold Files.close Function.update table
  grind

theorem close_listener (sockfd : Fd) : (table sockfd none).close sockfd = fun _ => none := by
  funext d
  unfold Files.close Function.update table
  grind

theorem eq_of_table {sockfd fd d : Fd} {n : Nat} {f : File} (h : table sockfd (some (fd, n)) d = some f) :
    d = sockfd ∧ f = .listener ∨ f = .conn n := by
  unfold table at h
  grind

/-- Closing opens nothing. -/
theorem Call.of_after {c : Call κ} {fs : Files} {fd : Fd} {f : File} (h : c.after fs fd = some f) : fs fd = some f := by
  unfold Call.after at h
  cases hfd : c.fd with
  | none => simpa [hfd] using h
  | some d =>
    by_cases hclose : c.closes = true
    · simp only [hfd, hclose, if_true, Files.close, Function.update_apply] at h
      split at h
      · cases h
      · exact h
    · simpa [hfd, hclose] using h

/-- A program with no descriptor for the connection does not get to it. -/
theorem hitsOf_eq_nil {n : Nat} {fs : Files} (hfs : ∀ fd, fs fd ≠ some (.conn n)) (cs : List (Call κ)) :
    hitsOf n fs cs = [] := by
  induction cs generalizing fs with
  | nil => rfl
  | cons c cs ih =>
    have hfile : c.file fs ≠ some (.conn n) := by
      unfold Call.file
      cases c.fd with
      | none => simp
      | some fd => exact hfs fd
    rw [hitsOf, if_neg hfile, ih fun fd h => hfs fd (Call.of_after h)]
    rfl

/-! ## The invariant -/

/-- What the parent has in hand. -/
inductive Phase
  /-- Nothing: it has exited. -/
  | quit
  | idle
  /-- A connection, under this number, for which it has not forked yet. -/
  | accepted (fd : Fd)
  /-- One for which it has. -/
  | forked (fd : Fd)
deriving DecidableEq

def Phase.holds : Phase → Option Fd
  | .quit | .idle => none
  | .accepted fd | .forked fd => some fd

def Phase.table (sockfd : Fd) (accepted : Nat) : Phase → Files
  | .quit => fun _ => none
  | .idle => ForkServer.table sockfd none
  | .accepted fd | .forked fd => ForkServer.table sockfd (some (fd, accepted - 1))

/-- The calls on connection `n` of a process forked with it, for one of the programs `Prog`. -/
def Promised (sockfd : Fd) (Prog : Fd → List (Call κ) → Prop) (n : Nat) (acts : List κ) : Prop :=
  ∃ fd prog, fd ≠ sockfd ∧ Prog fd prog ∧ acts = hitsOf n (table sockfd (some (fd, n))) prog

structure Serving (sockfd : Fd) (Prog : Fd → List (Call κ) → Prop) (ph : Phase) (tr : List (Event κ))
    (k : Kernel κ) : Prop where
  files : k.files = ph.table sockfd k.accepted
  holding : ∀ fd ∈ ph.holds, fd ≠ sockfd ∧ 0 < k.accepted
  /-- The connection in hand has no process yet. -/
  unforked : ∀ fd, ph = .accepted fd → ¬ Forked (k.accepted - 1) tr
  known : ∀ n, Forked n tr → n < k.accepted
  silent : ∀ n, ¬ Forked n tr → hits n tr = []
  distinct : ∀ pid pid' c c', k.children pid = some c → k.children pid' = some c' → c.conn = c'.conn → pid = pid'
  own : ∀ pid c, k.children pid = some c → ∀ fd f, c.files fd = some f →
    fd = sockfd ∧ f = .listener ∨ f = .conn c.conn
  job : ∀ pid c, k.children pid = some c → Forked c.conn tr ∧
    Promised sockfd Prog c.conn (hits c.conn tr ++ hitsOf c.conn c.files c.todo)
  done : ∀ n, Forked n tr → (∀ pid c, k.children pid = some c → c.conn ≠ n) → Promised sockfd Prog n (hits n tr)

def start (sockfd : Fd) : Kernel κ := { files := table sockfd none, accepted := 0, children := fun _ => none }

variable {sockfd fd : Fd} {Prog : Fd → List (Call κ) → Prop} {ph : Phase} {tr es : List (Event κ)}
  {k k' : Kernel κ} {pid : Pid}

theorem serving_start (sockfd : Fd) (Prog : Fd → List (Call κ) → Prop) :
    Serving sockfd Prog .idle [] (start sockfd) := by
  refine ⟨rfl, ?_, ?_, ?_, ?_, ?_, ?_, ?_, ?_⟩ <;> simp [start, Phase.holds]

namespace Serving

/-- The invariant without the parent's part. -/
theorem congr (h : Serving sockfd Prog ph tr k) {ph' : Phase} {k' : Kernel κ} (haccepted : k'.accepted = k.accepted)
    (hchildren : k'.children = k.children) (hfiles : k'.files = ph'.table sockfd k'.accepted)
    (hholds : ∀ fd ∈ ph'.holds, fd ∈ ph.holds) (hunforked : ∀ fd, ph' = .accepted fd → ph = .accepted fd) :
    Serving sockfd Prog ph' tr k' := by
  refine ⟨hfiles, ?_, ?_, ?_, h.silent, ?_, ?_, ?_, ?_⟩
  · rw [haccepted]
    exact fun fd hfd => h.holding fd (hholds fd hfd)
  · rw [haccepted]
    exact fun fd hfd => h.unforked fd (hunforked fd hfd)
  · rw [haccepted]
    exact h.known
  all_goals rw [hchildren]
  · exact h.distinct
  · exact h.own
  · exact h.job
  · exact h.done

theorem accept (h : Serving sockfd Prog .idle tr k) (ha : k.accept fd = some (k', es)) :
    Serving sockfd Prog (.accepted fd) (tr ++ es) k' := by
  unfold Kernel.accept at ha
  split at ha
  · rename_i hfree
    cases ha
    have hne : fd ≠ sockfd := by
      rintro rfl
      rw [h.files] at hfree
      simp [Phase.table] at hfree
    have hforked : ∀ n, Forked n (tr ++ [.accepted k.accepted]) ↔ Forked n tr := fun n => forked_snoc (by simp)
    have hhits : ∀ n, hits n (tr ++ [.accepted k.accepted]) = hits n tr := by
      intro n
      rw [hits_append, hits_accepted, List.append_nil]
    refine ⟨?_, ?_, ?_, ?_, ?_, h.distinct, h.own, ?_, ?_⟩
    · simp only [h.files, Phase.table, Nat.add_sub_cancel]
      exact update_table hne _
    · intro d hd
      obtain rfl : fd = d := by simpa [Phase.holds] using hd
      exact ⟨hne, Nat.succ_pos _⟩
    · intro _ _ hf
      have hlt := h.known _ ((hforked _).1 hf)
      simp only [Nat.add_sub_cancel] at hlt
      omega
    · intro n hn
      exact Nat.lt_succ_of_lt (h.known n ((hforked n).1 hn))
    · intro n hn
      rw [hhits]
      exact h.silent n (mt (hforked n).2 hn)
    · intro pid c hc
      rw [hforked, hhits]
      exact h.job pid c hc
    · intro n hn hnone
      rw [hhits]
      exact h.done n ((hforked n).1 hn) hnone
  · cases ha

theorem close (h : Serving sockfd Prog ph tr k) (hfd : ph.holds = some fd) :
    Serving sockfd Prog .idle tr (k.close fd) := by
  obtain ⟨hne, -⟩ := h.holding fd hfd
  have htable : ph.table sockfd k.accepted = table sockfd (some (fd, k.accepted - 1)) := by
    cases ph <;> simp_all [Phase.holds, Phase.table]
  refine h.congr rfl rfl ?_ (by simp [Phase.holds]) (by simp)
  simp only [Kernel.close, h.files, htable, close_table hne]
  rfl

/-- The parent closes the listening socket, to exit. -/
theorem closeListener (h : Serving sockfd Prog .idle tr k) : Serving sockfd Prog .quit tr (k.close sockfd) := by
  refine h.congr rfl rfl ?_ (by simp [Phase.holds]) (by simp)
  simp only [Kernel.close, h.files]
  exact close_listener sockfd

theorem quit (h : Serving sockfd Prog ph tr k) : Serving sockfd Prog .quit tr k.quit :=
  h.congr rfl rfl rfl (by simp [Phase.holds]) (by simp)

theorem fork (h : Serving sockfd Prog (.accepted fd) tr k) {prog : List (Call κ)} {exits : Bool}
    (hprog : Prog fd prog) (hf : k.fork pid prog exits = some (k', es)) :
    Serving sockfd Prog (.forked fd) (tr ++ es) k' := by
  obtain ⟨hne, hpos⟩ := h.holding fd rfl
  have hunforked := h.unforked fd rfl
  have hfiles := h.files
  unfold Kernel.fork at hf
  split at hf
  · cases hf
  · rename_i hfree
    cases hf
    have hnew : Forked (k.accepted - 1) [(.forked pid (k.accepted - 1) : Event κ)] := ⟨pid, by simp⟩
    have hforked : ∀ n, n ≠ k.accepted - 1 →
        (Forked n (tr ++ [.forked pid (k.accepted - 1)]) ↔ Forked n tr) := by
      intro n hn
      exact forked_snoc (by simp [Ne.symm hn])
    have hhits : ∀ n, hits n (tr ++ [.forked pid (k.accepted - 1)]) = hits n tr := by
      intro n
      rw [hits_append, hits_forked, List.append_nil]
    -- no other process has this connection
    have hother : ∀ pid' c, k.children pid' = some c → c.conn ≠ k.accepted - 1 := by
      intro pid' c hc heq
      exact hunforked (heq ▸ (h.job pid' c hc).1)
    refine ⟨hfiles, ?_, by simp, ?_, ?_, ?_, ?_, ?_, ?_⟩
    · intro d hd
      exact h.holding d hd
    · intro n hn
      by_cases hlast : n = k.accepted - 1
      · simp only
        omega
      · exact h.known n ((hforked n hlast).1 hn)
    · intro n hn
      rw [hhits]
      exact h.silent n fun hn' => hn ((forked_append n _ _).2 (.inl hn'))
    · intro pid₁ pid₂ c₁ c₂ h₁ h₂ heq
      simp only [Function.update_apply] at h₁ h₂
      split at h₁ <;> split at h₂
      · rename_i e₁ e₂
        rw [e₁, e₂]
      · cases h₁
        exact absurd heq.symm (hother pid₂ c₂ h₂)
      · cases h₂
        exact absurd heq (hother pid₁ c₁ h₁)
      · exact h.distinct pid₁ pid₂ c₁ c₂ h₁ h₂ heq
    · intro pid' c hc d f hd
      simp only [Function.update_apply] at hc
      split at hc
      · cases hc
        simp only [hfiles, Phase.table] at hd
        exact eq_of_table hd
      · exact h.own pid' c hc d f hd
    · intro pid' c hc
      simp only [Function.update_apply] at hc
      split at hc
      · cases hc
        refine ⟨(forked_append _ _ _).2 (.inr hnew), fd, prog, hne, hprog, ?_⟩
        simp only [hhits, h.silent _ hunforked, List.nil_append, hfiles, Phase.table]
      · obtain ⟨hf, hpromised⟩ := h.job pid' c hc
        rw [hhits]
        exact ⟨(forked_append _ _ _).2 (.inl hf), hpromised⟩
    · intro n hn hnone
      rw [hhits]
      by_cases hlast : n = k.accepted - 1
      · exact absurd hlast.symm (hnone pid _ (Function.update_self _ _ _))
      · refine h.done n ((hforked n hlast).1 hn) fun pid' c hc => ?_
        refine hnone pid' c ?_
        have hpid : pid' ≠ pid := by
          rintro rfl
          rw [hfree] at hc
          cases hc
        simp only [Function.update_of_ne hpid, hc]

theorem run (h : Serving sockfd Prog ph tr k) (hr : k.run pid = some (k', es)) :
    Serving sockfd Prog ph (tr ++ es) k' := by
  unfold Kernel.run at hr
  split at hr
  · rename_i conn files call todo exits hchild
    cases hr
    have hforked : ∀ n, Forked n (tr ++ [.call pid (call.file files) call.act]) ↔ Forked n tr :=
      fun n => forked_snoc (by simp)
    -- a call gets to the listener or to the connection of its caller
    have hfile : ∀ n, call.file files = some (.conn n) → n = conn := by
      intro n hn
      obtain ⟨d, -, hd⟩ := Option.bind_eq_some_iff.1 hn
      rcases h.own pid _ hchild d _ hd with ⟨-, hl⟩ | hc
      · cases hl
      · exact File.conn.inj hc
    have hhits : ∀ n, n ≠ conn → hits n (tr ++ [.call pid (call.file files) call.act]) = hits n tr := by
      intro n hn
      rw [hits_append, hits_call, if_neg fun h => hn (hfile n h), List.append_nil]
    obtain ⟨hconn, hpromised⟩ := h.job pid _ hchild
    refine ⟨h.files, h.holding, ?_, ?_, ?_, ?_, ?_, ?_, ?_⟩
    · intro d hd
      rw [hforked]
      exact h.unforked d hd
    · intro n hn
      exact h.known n ((hforked n).1 hn)
    · intro n hn
      have hn' := mt (hforked n).2 hn
      have hne : n ≠ conn := by
        rintro rfl
        exact hn' hconn
      rw [hhits n hne]
      exact h.silent n hn'
    · intro pid₁ pid₂ c₁ c₂ h₁ h₂ heq
      simp only [Function.update_apply] at h₁ h₂
      split at h₁ <;> split at h₂
      · rename_i e₁ e₂
        rw [e₁, e₂]
      · rename_i e₁ e₂
        cases h₁
        exact e₁.trans (h.distinct pid pid₂ _ c₂ hchild h₂ heq)
      · rename_i e₁ e₂
        cases h₂
        exact (h.distinct pid₁ pid c₁ _ h₁ hchild heq).trans e₂.symm
      · exact h.distinct pid₁ pid₂ c₁ c₂ h₁ h₂ heq
    · intro pid' c hc d f hd
      simp only [Function.update_apply] at hc
      split at hc
      · cases hc
        exact h.own pid _ hchild d f (Call.of_after hd)
      · exact h.own pid' c hc d f hd
    · intro pid' c hc
      simp only [Function.update_apply] at hc
      split at hc
      · cases hc
        refine ⟨(hforked _).2 hconn, ?_⟩
        rw [hits_append, hits_call, List.append_assoc]
        exact hpromised
      · rename_i hpid
        have hne : c.conn ≠ conn := fun heq => hpid (h.distinct pid' pid c _ hc hchild heq)
        rw [hforked, hhits _ hne]
        exact h.job pid' c hc
    · intro n hn hnone
      have hne : n ≠ conn := fun heq => hnone pid _ (Function.update_self _ _ _) heq.symm
      rw [hhits n hne]
      refine h.done n ((hforked n).1 hn) fun pid' c hc => ?_
      by_cases hpid : pid' = pid
      · subst hpid
        rw [hchild] at hc
        cases hc
        exact Ne.symm hne
      · refine hnone pid' c ?_
        simp only [Function.update_of_ne hpid, hc]
  · cases hr

theorem exit (h : Serving sockfd Prog ph tr k) (he : k.exit pid = some (k', es)) :
    Serving sockfd Prog ph (tr ++ es) k' := by
  unfold Kernel.exit at he
  split at he
  · rename_i conn files hchild
    cases he
    have hforked : ∀ n, Forked n (tr ++ [.exited pid]) ↔ Forked n tr := fun n => forked_snoc (by simp)
    have hhits : ∀ n, hits n (tr ++ [.exited pid]) = hits n tr := by
      intro n
      rw [hits_append, hits_exited, List.append_nil]
    have hleft : ∀ pid' c, Function.update k.children pid none pid' = some c → k.children pid' = some c := by
      intro pid' c hc
      simp only [Function.update_apply] at hc
      split at hc
      · cases hc
      · exact hc
    refine ⟨h.files, h.holding, ?_, ?_, ?_, ?_, ?_, ?_, ?_⟩
    · intro d hd
      rw [hforked]
      exact h.unforked d hd
    · intro n hn
      exact h.known n ((hforked n).1 hn)
    · intro n hn
      rw [hhits]
      exact h.silent n (mt (hforked n).2 hn)
    · intro pid₁ pid₂ c₁ c₂ h₁ h₂ heq
      exact h.distinct pid₁ pid₂ c₁ c₂ (hleft _ _ h₁) (hleft _ _ h₂) heq
    · intro pid' c hc
      exact h.own pid' c (hleft pid' c hc)
    · intro pid' c hc
      rw [hforked, hhits]
      exact h.job pid' c (hleft pid' c hc)
    · intro n hn hnone
      rw [hhits]
      by_cases hmine : n = conn
      · -- the process that exits had no more calls to make
        subst hmine
        obtain ⟨-, hpromised⟩ := h.job pid _ hchild
        simpa [hitsOf] using hpromised
      · refine h.done n ((hforked n).1 hn) fun pid' c hc => ?_
        by_cases hpid : pid' = pid
        · subst hpid
          rw [hchild] at hc
          cases hc
          exact Ne.symm hmine
        · refine hnone pid' c ?_
          simp only [Function.update_of_ne hpid, hc]
  · cases he

/-! ## What it says -/

/-- The calls on a connection are a front part of those of one program. -/
theorem hits_prefix (h : Serving sockfd Prog ph tr k) {n : Nat} (hn : Forked n tr) :
    ∃ acts, Promised sockfd Prog n acts ∧ hits n tr <+: acts ∧ (¬ k.Open n → hits n tr = acts) := by
  by_cases hchild : ∃ pid c, k.children pid = some c ∧ c.conn = n
  · obtain ⟨pid, c, hc, rfl⟩ := hchild
    obtain ⟨-, hpromised⟩ := h.job pid c hc
    refine ⟨_, hpromised, List.prefix_append _ _, ?_⟩
    intro hopen
    have hnone : hitsOf c.conn c.files c.todo = [] :=
      hitsOf_eq_nil (fun fd hfd => hopen (.inr ⟨pid, c, fd, hc, hfd⟩)) _
    rw [hnone, List.append_nil]
  · have hdone := h.done n hn fun pid c hc heq => hchild ⟨pid, c, hc, heq⟩
    exact ⟨_, hdone, List.prefix_refl _, fun _ => rfl⟩

/-- A connection that is open is in the parent's hand or in that of its process. -/
theorem open_cases (h : Serving sockfd Prog ph tr k) {n : Nat} (hn : k.Open n) :
    (∃ fd, ph.holds = some fd ∧ n = k.accepted - 1) ∨ ∃ pid c, k.children pid = some c ∧ c.conn = n := by
  rcases hn with ⟨fd, hfd⟩ | ⟨pid, c, fd, hc, hfd⟩
  · left
    rw [h.files] at hfd
    cases ph with
    | quit => cases hfd
    | idle =>
      by_cases hs : fd = sockfd <;> simp [Phase.table, table, hs] at hfd
    | accepted d | forked d =>
      refine ⟨d, rfl, ?_⟩
      rcases eq_of_table hfd with ⟨-, hl⟩ | hc
      · cases hl
      · exact File.conn.inj hc
  · right
    rcases h.own pid c hc fd _ hfd with ⟨-, hl⟩ | hconn
    · cases hl
    · exact ⟨pid, c, hc, (File.conn.inj hconn).symm⟩

end Serving

end ForkServer
