import CHell.Lib.Reactive
import Mathlib.Data.Finset.Basic

/-!
# What a chat server is for

The events of a chat server are its system calls (`Call`). `connected` reads off a history
which accepted sockets have not been closed, so it does not depend on any table the server
keeps. `HubStep` is the abstract server: a set of connected sockets, and the system calls one
turn may make: let a client in, drop one that hung up, or pass one chunk to everybody else.

Both servers (`Chat/Poll.lean` for `multi-chat-v1.c`, `Chat/Select.lean` for
`multi-chat-v2.c`) are proved to take hub steps only.
-/

namespace CHell.Chat

/-- A file descriptor returned by the kernel; a failed call returns none. -/
abbrev Fd := Nat

/-- System calls with their results, as far as a chat server can tell them apart. -/
inductive Call
  /-- `poll` on these entries, with the `revents` it wrote for each. -/
  | poll (entries : List (Fd × Nat))
  /-- `select` on `asked`, which it narrowed down to `ready`. -/
  | select (asked ready : Finset Fd)
  | accept (newfd : Option Fd)
  /-- `recv`: `none` is -1, `some []` is 0, else the bytes stored in `buf`. -/
  | recv (fd : Fd) (res : Option (List UInt8))
  | send (fd : Fd) (bytes : List UInt8)
  | close (fd : Fd)
deriving DecidableEq

/-- Accepted sockets not yet closed. -/
def connected (tr : List Call) : Finset Fd :=
  tr.foldl (fun H c =>
    match c with
    | .accept (some fd) => insert fd H
    | .close fd => H.erase fd
    | _ => H) ∅

/-- The call leaves the set of connected sockets alone. -/
def Call.neutral : Call → Bool
  | .accept (some _) | .close _ => false
  | _ => true

@[simp] theorem connected_nil : connected [] = ∅ := rfl

theorem connected_accept (tr : List Call) (fd : Fd) :
    connected (tr ++ [.accept (some fd)]) = insert fd (connected tr) := by
  simp [connected, List.foldl_append]

theorem connected_close (tr : List Call) (fd : Fd) :
    connected (tr ++ [.close fd]) = (connected tr).erase fd := by
  simp [connected, List.foldl_append]

theorem connected_neutral (tr : List Call) {c : Call} (hc : c.neutral = true) :
    connected (tr ++ [c]) = connected tr := by
  cases c with
  | accept r => cases r <;> simp_all [Call.neutral, connected, List.foldl_append]
  | close fd => cases hc
  | _ => simp [connected, List.foldl_append]

theorem connected_neutrals (tr : List Call) : ∀ {es : List Call}, (∀ c ∈ es, c.neutral = true) →
    connected (tr ++ es) = connected tr
  | [], _ => by simp
  | c :: es, h => by
    rw [List.append_cons, connected_neutrals (tr ++ [c]) (fun d hd => h d (List.mem_cons_of_mem c hd)),
      connected_neutral tr (h c List.mem_cons_self)]

/-- The calls that pass `bytes` to the sockets `ds`. -/
def sends (bytes : List UInt8) (ds : List Fd) : List Call := ds.map fun d => .send d bytes

theorem neutral_of_mem_sends {bytes : List UInt8} {ds : List Fd} {c : Call}
    (h : c ∈ sends bytes ds) : c.neutral = true := by
  obtain ⟨d, -, rfl⟩ := List.mem_map.1 h
  rfl

/-- The descriptor a call serves: `accept` the listener, `recv` a client. -/
def Call.serves (listener : Fd) : Call → Option Fd
  | .accept _ => some listener
  | .recv fd _ => some fd
  | _ => none

/-- The descriptors served, in order. -/
def served (listener : Fd) (calls : List Call) : List Fd := calls.filterMap (Call.serves listener)

@[simp] theorem served_nil (listener : Fd) : served listener [] = [] := rfl

theorem served_append (listener : Fd) (es es' : List Call) :
    served listener (es ++ es') = served listener es ++ served listener es' := List.filterMap_append

@[simp] theorem served_sends (listener : Fd) (bytes : List UInt8) (ds : List Fd) :
    served listener (sends bytes ds) = [] := by
  rw [served, List.filterMap_eq_nil_iff]
  intro c hc
  obtain ⟨d, -, rfl⟩ := List.mem_map.1 hc
  rfl

/-- `accept` hands out descriptors that are not open. -/
def AcceptFresh (listener : Fd) (pre : List Call) (c : Call) : Prop :=
  ∀ fd, c = .accept (some fd) → fd ≠ listener ∧ fd ∉ connected pre

/-! ## The hub -/

/-- One turn of the abstract server with connected sockets `H`. -/
inductive HubStep (listener : Fd) (H : Finset Fd) : List Call → Finset Fd → Prop
  | idle : HubStep listener H [] H
  | wait {c} (hc : (∃ es, c = .poll es) ∨ ∃ a r, c = .select a r) : HubStep listener H [c] H
  | refuse : HubStep listener H [.accept none] H
  | join {fd} (hl : fd ≠ listener) (hn : fd ∉ H) :
      HubStep listener H [.accept (some fd)] (insert fd H)
  /-- The client hung up or its socket failed. -/
  | leave {fd r} (hm : fd ∈ H) (hr : r = none ∨ r = some []) :
      HubStep listener H [.recv fd r, .close fd] (H.erase fd)
  /-- A chunk goes exactly once to every other client. -/
  | say {fd bytes ds} (hm : fd ∈ H) (hb : bytes ≠ []) (hd : ds.Nodup)
      (hds : ∀ d, d ∈ ds ↔ d ∈ H ∧ d ≠ fd) :
      HubStep listener H (.recv fd (some bytes) :: sends bytes ds) H

/-- The hub's set is the one its calls leave behind. -/
theorem HubStep.connected {listener : Fd} {tr es : List Call} {H : Finset Fd}
    (h : HubStep listener (Chat.connected tr) es H) : H = Chat.connected (tr ++ es) := by
  cases h with
  | idle => simp
  | wait hc =>
    rw [connected_neutral tr (by rcases hc with ⟨_, rfl⟩ | ⟨_, _, rfl⟩ <;> rfl)]
  | refuse => rw [connected_neutral tr rfl]
  | join _ _ => rw [connected_accept]
  | leave _ _ => rw [List.append_cons, connected_close, connected_neutral tr rfl]
  | say _ _ _ _ =>
    rw [List.append_cons, connected_neutrals _ fun c hc => neutral_of_mem_sends hc,
      connected_neutral tr rfl]

/-! ## The relay guarantee -/

/-- What a turn's calls say about relaying, spelled out: a turn that received a non-empty
chunk from `c` passes it, and only it, once to each other connected socket; a turn that
received nothing sends nothing. -/
def Relays (listener : Fd) (H : Finset Fd) (es : List Call) : Prop :=
  (∀ c bytes, .recv c (some bytes) ∈ es → bytes ≠ [] →
    c ∈ H ∧ ∀ d b, es.count (.send d b) = if b = bytes ∧ d ∈ H ∧ d ≠ c ∧ d ≠ listener then 1 else 0) ∧
  ((∀ c bytes, .recv c (some bytes) ∈ es → bytes = []) → ∀ d b, Call.send d b ∉ es)

theorem count_sends {ds : List Fd} (hd : ds.Nodup) (bytes b : List UInt8) (d : Fd) :
    (sends bytes ds).count (.send d b) = if b = bytes ∧ d ∈ ds then 1 else 0 := by
  by_cases hb : b = bytes
  · subst hb
    have hinj : Function.Injective fun x : Fd => Call.send x b := fun x y h => by
      simpa using h
    have hcount := List.count_map_of_injective ds (fun x : Fd => Call.send x b) hinj d
    rw [sends, hcount, hd.count]
    simp
  · rw [if_neg fun h => hb h.1]
    exact List.count_eq_zero.2 fun h => by
      obtain ⟨x, -, hx⟩ := List.mem_map.1 h
      exact hb (by injection hx with _ h2; exact h2.symm)

/-- **Hub steps relay**: exactly once, with the bytes received, to everybody else. -/
theorem HubStep.relays {listener : Fd} {es : List Call} {H H' : Finset Fd}
    (h : HubStep listener H es H') (hl : listener ∉ H) : Relays listener H es := by
  cases h with
  | @say fd bytes ds hm hb hd hds =>
    refine ⟨?_, fun h => absurd (h fd bytes (by simp)) hb⟩
    intro c bytes' hc hne
    have heq : fd = c ∧ bytes = bytes' := by
      rcases List.mem_cons.1 hc with h | h
      · injection h with h1 h2
        exact ⟨h1.symm, (Option.some.inj h2).symm⟩
      · obtain ⟨x, -, hx⟩ := List.mem_map.1 h; cases hx
    obtain ⟨rfl, rfl⟩ := heq
    refine ⟨hm, ?_⟩
    intro d b
    rw [List.count_cons_of_ne (by simp), count_sends hd]
    have hiff : (b = bytes ∧ d ∈ ds) ↔ (b = bytes ∧ d ∈ H ∧ d ≠ fd ∧ d ≠ listener) := by
      rw [hds]
      constructor
      · rintro ⟨h1, h2, h3⟩; exact ⟨h1, h2, h3, fun e => hl (e ▸ h2)⟩
      · rintro ⟨h1, h2, h3, -⟩; exact ⟨h1, h2, h3⟩
    simp only [hiff]
  | leave hm hr =>
    refine ⟨?_, fun _ => by simp⟩
    intro c bytes hc hne
    rcases hr with rfl | rfl <;> simp_all
  | wait hc =>
    rcases hc with ⟨_, rfl⟩ | ⟨_, _, rfl⟩ <;> exact ⟨by simp, by simp⟩
  | _ => exact ⟨by simp, by simp⟩

end CHell.Chat
