import CHell.Chat.Listener
import CHell.Lib.Loop

/-!
# The address loops of `network/bambi_tcp.c` and `network/bambi_udp.c`

| here | there |
| --- | --- |
| `addressBody` | a round of `while (servinfo != NULL)` (`bambi_tcp.c:101-120`, `bambi_udp.c:81-101`) |

The two loops are the same statements. Their `servinfo` is the list of candidates still to be tried, and it is
advanced behind the successful `bind` only: after a `continue` the candidate that failed is tried again.
-/

namespace CHell.Bambi

open CHell.Chat Loop

/-- How the loop ends. -/
inductive Outcome
  /-- `servinfo == NULL` -/
  | exhausted
  /-- `exit(1)`, after `setsockopt` failed -/
  | exit
  /-- `break`, with `sockfd` bound -/
  | bound (sockfd : Fd) (servinfo : List Candidate)
deriving DecidableEq

def addressBody : List Candidate → List Candidate ⊕ Outcome
  | [] => .inr .exhausted
  | c :: ai_next =>
    match c.socket with
    | none => .inl (c :: ai_next)
    | some sockfd =>
      if !c.setsockopt then .inr .exit
      -- close(sockfd); continue
      else if !c.bind then .inl (c :: ai_next)
      else .inr (.bound sockfd ai_next)

/-- The socket selected, unless the program ended. -/
def Outcome.selected : Outcome → Option (Option Fd)
  | .exhausted => some none
  | .exit => none
  | .bound sockfd _ => some (some sockfd)

/-- The loop ends, with the socket the loop of `create_listener_sock` ends with. -/
def SelectsFirst (servinfo : List Candidate) : Prop :=
  ∃ r, Returns addressBody servinfo r ∧ r.selected = some (firstWorking servinfo) ∧
    (listenerLoop servinfo).value = some (firstWorking servinfo)

/-- `socket`, `setsockopt` and `bind` all succeed. -/
def Works (c : Candidate) : Prop := c.socket.isSome ∧ c.setsockopt = true ∧ c.bind = true

/-- A candidate that fails is tried for ever. -/
theorem address_stuck {c : Candidate} {ai_next : List Candidate}
    (hc : addressBody (c :: ai_next) = .inl (c :: ai_next)) : ¬ ∃ r, Returns addressBody (c :: ai_next) r := by
  refine not_returns_of_invariant (P := fun s => s = c :: ai_next) ?_ rfl
  rintro _ rfl
  exact ⟨_, hc, rfl⟩

/-- **The first candidate decides.** The loop selects what it should if and only if there is no candidate, or the
first one works. -/
theorem address_selects_iff (servinfo : List Candidate) :
    SelectsFirst servinfo ↔ ∀ c ∈ servinfo.head?, Works c := by
  have hlistener := (listenerLoop_spec servinfo).1
  cases servinfo with
  | nil => simpa using ⟨.exhausted, .of_exit rfl, rfl, hlistener⟩
  | cons c ai_next =>
    simp only [List.head?_cons, Option.mem_some_iff, forall_eq']
    constructor
    · rintro ⟨r, hr, hsel, -⟩
      by_cases hagain : addressBody (c :: ai_next) = .inl (c :: ai_next)
      · exact absurd ⟨r, hr⟩ (address_stuck hagain)
      cases hs : c.socket with
      | none => exact absurd (by simp [addressBody, hs]) hagain
      | some sockfd =>
        cases ho : c.setsockopt with
        | false =>
          have hexit : addressBody (c :: ai_next) = .inr .exit := by simp [addressBody, hs, ho]
          obtain rfl := hr.unique (.of_exit hexit)
          cases hsel
        | true =>
          cases hb : c.bind with
          | false => exact absurd (by simp [addressBody, hs, ho, hb]) hagain
          | true => exact ⟨by simp [hs], ho, hb⟩
    · rintro ⟨hs, ho, hb⟩
      obtain ⟨sockfd, hs⟩ := Option.isSome_iff_exists.1 hs
      refine ⟨.bound sockfd ai_next, .of_exit ?_, ?_, hlistener⟩
      · simp [addressBody, hs, ho, hb]
      · simp [Outcome.selected, firstWorking, Candidate.bound, hs, hb]

/-- The first address cannot be bound, the second could. -/
theorem address_endless : ¬ ∀ servinfo : List Candidate, SelectsFirst servinfo := by
  intro hclaim
  obtain ⟨r, hr, -⟩ := hclaim [⟨some 3, true, false⟩, ⟨some 3, true, true⟩]
  exact address_stuck rfl ⟨r, hr⟩

end CHell.Bambi
