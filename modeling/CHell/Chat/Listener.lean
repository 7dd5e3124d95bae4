import CHell.Chat.Hub
import CHell.Lib.Traced
import Mathlib.Data.Finset.Insert

/-!
# The listening socket of the chat servers

| here | there |
| --- | --- |
| `Candidate`          | one `struct addrinfo`, with what `socket`, `setsockopt` and `bind` answer for it |
| `listenerLoop`       | the `for` loop of `create_listener_sock` (`multi-chat-v1.c:39-56`, `multi-chat-v2.c:41-58`) |
| `createListenerSock` | `create_listener_sock` after `getaddrinfo` succeeded (v1:23, v2:25; the texts are equal) |

`firstWorking` is the socket a server should end up with. The loop finds it and closes every other one
(`listenerLoop_spec`); the function does not close it when `listen` fails (`createListenerSock_keeps_iff`).
-/

namespace CHell.Chat

open Traced

structure Candidate where
  /-- `none` is a negative result. -/
  socket : Option Fd
  setsockopt : Bool
  bind : Bool
deriving DecidableEq

inductive SockCall
  | socket (res : Option Fd)
  | setsockopt (fd : Fd)
  | bind (fd : Fd) (ok : Bool)
  | close (fd : Fd)
  | listen (fd : Fd) (ok : Bool)
deriving DecidableEq

/-- `listener` when the loop is left by `break`; `none` when `p == NULL`. -/
def listenerLoop : List Candidate → Traced SockCall (Option Fd)
  | [] => pure none
  | p :: ai_next => do
    emit (.socket p.socket)
    match p.socket with
    | none => listenerLoop ai_next
    | some listener => do
      -- the result of `setsockopt` is not looked at
      emit (.setsockopt listener)
      emit (.bind listener p.bind)
      if p.bind then pure (some listener)
      else do
        emit (.close listener)
        listenerLoop ai_next

def createListenerSock (ai : List Candidate) (listen : Bool) : Traced SockCall Int := do
  match ← listenerLoop ai with
  | none => pure (-1)
  | some listener => do
    emit (.listen listener listen)
    if listen then pure (listener : Int) else pure (-1)

/-! ## Which socket, and which are open -/

/-- The socket of a candidate, if it can be bound. -/
def Candidate.bound (c : Candidate) : Option Fd := if c.bind then c.socket else none

def firstWorking (ai : List Candidate) : Option Fd := ai.findSome? Candidate.bound

/-- The sockets open after these calls, of those open before and those opened by them. -/
def openAfter (H : Finset Fd) (calls : List SockCall) : Finset Fd :=
  calls.foldl (fun H c =>
    match c with
    | .socket (some fd) => insert fd H
    | .close fd => H.erase fd
    | _ => H) H

theorem openAfter_listen (H : Finset Fd) (calls : List SockCall) (fd : Fd) (ok : Bool) :
    openAfter H (calls ++ [.listen fd ok]) = openAfter H calls := by
  rw [openAfter, List.foldl_append]
  rfl

/-- The loop selects the first candidate that can be bound and leaves no other socket open. -/
theorem listenerLoop_spec (ai : List Candidate) :
    (listenerLoop ai).value = some (firstWorking ai) ∧
      openAfter ∅ (listenerLoop ai).events = (firstWorking ai).elim ∅ fun fd => {fd} := by
  induction ai with
  | nil => exact ⟨rfl, rfl⟩
  | cons p ai_next ih =>
    obtain ⟨ihvalue, ihopen⟩ := ih
    cases hs : p.socket with
    | none =>
      have hfirst : firstWorking (p :: ai_next) = firstWorking ai_next := by simp [firstWorking, Candidate.bound, hs]
      simp [listenerLoop, hs, hfirst, ihvalue, ← ihopen, openAfter]
    | some listener =>
      cases hb : p.bind with
      | true =>
        have hfirst : firstWorking (p :: ai_next) = some listener := by simp [firstWorking, Candidate.bound, hs, hb]
        simp [listenerLoop, hs, hb, hfirst, openAfter]
      | false =>
        have hfirst : firstWorking (p :: ai_next) = firstWorking ai_next := by simp [firstWorking, Candidate.bound, hb]
        simp [listenerLoop, hs, hb, hfirst, ihvalue, ← ihopen, openAfter]

/-- The socket to return: the first that works, if `listen` succeeds on it. -/
def toReturn (ai : List Candidate) (listen : Bool) : Option Fd := if listen then firstWorking ai else none

/-- What `create_listener_sock` is for. -/
structure Keeps (ai : List Candidate) (listen : Bool) (run : Traced SockCall Int) : Prop where
  returns : run.value = some ((toReturn ai listen).elim (-1) fun fd => (fd : Int))
  /-- Only the returned socket is open. -/
  keepsOpen : openAfter ∅ run.events = (toReturn ai listen).elim ∅ fun fd => {fd}

theorem createListenerSock_of_none {ai : List Candidate} (h : firstWorking ai = none) (listen : Bool) :
    createListenerSock ai listen = ⟨(listenerLoop ai).events, some (-1)⟩ := by
  have hvalue := (listenerLoop_spec ai).1
  rw [h] at hvalue
  rw [createListenerSock, bind_of_some hvalue]
  simp

theorem createListenerSock_of_some {ai : List Candidate} {fd : Fd} (h : firstWorking ai = some fd) (listen : Bool) :
    createListenerSock ai listen =
      ⟨(listenerLoop ai).events ++ [.listen fd listen], some (if listen then (fd : Int) else -1)⟩ := by
  have hvalue := (listenerLoop_spec ai).1
  rw [h] at hvalue
  rw [createListenerSock, bind_of_some hvalue]
  cases listen <;> simp

/-- **The right socket is returned; one is left open if `listen` fails on it**, and only then. -/
theorem createListenerSock_keeps_iff (ai : List Candidate) (listen : Bool) :
    (createListenerSock ai listen).value = some ((toReturn ai listen).elim (-1) fun fd => (fd : Int)) ∧
      (Keeps ai listen (createListenerSock ai listen) ↔ firstWorking ai = none ∨ listen = true) := by
  have hopen := (listenerLoop_spec ai).2
  have hvalue : (createListenerSock ai listen).value = some ((toReturn ai listen).elim (-1) fun fd => (fd : Int)) := by
    cases hf : firstWorking ai with
    | none => cases listen <;> simp [createListenerSock_of_none hf, toReturn, hf]
    | some fd => cases listen <;> simp [createListenerSock_of_some hf, toReturn, hf]
  refine ⟨hvalue, ?_, ?_⟩
  · rintro ⟨-, hkeeps⟩
    by_contra hne
    push Not at hne
    obtain ⟨fd, hf⟩ := Option.ne_none_iff_exists'.1 hne.1
    have hto : toReturn ai listen = none := by simp [toReturn, hne.2]
    have hnone : openAfter ∅ ((listenerLoop ai).events ++ [.listen fd listen]) = ∅ := by
      simpa [createListenerSock_of_some hf, hto] using hkeeps
    rw [openAfter_listen, hopen, hf] at hnone
    exact Finset.singleton_ne_empty fd hnone
  · intro h
    refine ⟨hvalue, ?_⟩
    cases hf : firstWorking ai with
    | none =>
      rw [createListenerSock_of_none hf, hopen]
      cases listen <;> simp [toReturn, hf]
    | some fd =>
      have hlisten : listen = true := by simpa [hf] using h
      have hto : toReturn ai listen = some fd := by rw [toReturn, if_pos hlisten, hf]
      rw [createListenerSock_of_some hf, hto, openAfter_listen, hopen, hf]

/-- One candidate, bound, and then `listen` fails: descriptor 3 stays open. -/
theorem createListenerSock_leaks :
    ¬ ∀ (ai : List Candidate) (listen : Bool), Keeps ai listen (createListenerSock ai listen) := by
  intro hclaim
  have hopen := (hclaim [⟨some 3, true, true⟩] false).keepsOpen
  revert hopen
  decide

end CHell.Chat
