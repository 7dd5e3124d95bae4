import CHell.Lib.Memory
import CHell.Lib.Traced

/-!
# The datagram server, `network/bambi_udp.c`

| here | there |
| --- | --- |
| `iteration` | one round of `main`'s `while (1)` (:114-126) |
| `serve`     | the loop, for a list of results of `recvfrom` |
| `banner`    | `banner` (:21-43) |

`their_addr` and the storage of `buffer` outlive a round; a failed `recvfrom` changes neither and makes `n` -1. A store
outside the buffer is an event, and then the run is not defined any more (`none`). Standard output is left out.
-/

namespace CHell.Bambi

open Memory Traced

def banner : String :=
    "              ------------\n" ++
    "          -----          -----\n" ++
    "       ---                    ---\n" ++
    "     ---      -          -      ---\n" ++
    "    --       --          --       --\n" ++
    "  -- ----    -m          m-    ---- --\n" ++
    " --  mmmmmm- -m-        -m- -mmmmmm  --\n" ++
    " -   -mmmmmmm--m-      -m--mmmmmmm-   - \n" ++
    "--    --mmmmmm-mm------mm-mmmmmm--    --\n" ++
    "-        ---mmmmmmmmmmmmmmmm----       -\n" ++
    "-           mmmmmmmmmmmmmmmm           -\n" ++
    "-           mmmmmmmmmmmmmmmm-          -\n" ++
    "-          -mm--mmmmmmmm--mm-          -\n" ++
    "--        --mm--mmmmmmmm--mm-         --\n" ++
    " -        - -mmmmmmmmmmmmmm-          - \n" ++
    " --    ----  --mmmm-mmmmm--          --\n" ++
    "  --   ---- ------mmmm------        --\n" ++
    "    --      ----------------      --\n" ++
    "     ---                        ---\n" ++
    "       ----                  ----\n" ++
    "          ------        ------\n" ++
    "              ------------\n" ++
    "~JustHumanz~\n"

variable {Addr : Type}

/-- `char buffer[1024]` -/
abbrev Buffer := { m : Mem // m.length = 1024 }

/-- A datagram's bytes, as far as they were asked for. -/
abbrev Bytes := { bs : List UInt8 // bs.length ≤ 1024 }

/-- `none` is -1; a datagram comes with its sender. -/
abbrev Result (Addr : Type) := Option (Addr × Bytes)

structure Server (Addr : Type) where
  their_addr : Addr
  buffer : Buffer

inductive UdpEvent (Addr : Type)
  | recvfrom (res : Result Addr)
  /-- `buffer[n] = '\0'` -/
  | terminate (n : Int)
  | sendto (their_addr : Addr) (text : String)

/-- The value of `n`. -/
def recvResult (res : Result Addr) : Int :=
  match res with
  | none => -1
  | some (_, bs) => bs.1.length

/-- What `recvfrom` writes. -/
def received (s : Server Addr) (res : Result Addr) : Server Addr :=
  match res with
  | none => s
  | some (sender, bs) =>
    ⟨sender, bs.1 ++ s.buffer.1.drop bs.1.length, by
      have hbs := bs.2
      have hbuf := s.buffer.2
      rw [List.length_append, List.length_drop]
      omega⟩

def Buffer.terminate (buffer : Buffer) (n : Int) : Option Buffer :=
  if 0 ≤ n ∧ n < 1024 then some ⟨buffer.1.set n.toNat 0, by rw [List.length_set, buffer.2]⟩ else none

def iteration (s : Server Addr) (res : Result Addr) : Traced (UdpEvent Addr) (Server Addr) := do
  emit (.recvfrom res)
  let n := recvResult res
  let s := received s res
  emit (.terminate n)
  let buffer ← lift (s.buffer.terminate n)
  emit (.sendto s.their_addr banner)
  pure { s with buffer := buffer }

def serve (s : Server Addr) : List (Result Addr) → Traced (UdpEvent Addr) (Server Addr)
  | [] => pure s
  | res :: results => do
    let s ← iteration s res
    serve s results

/-! ## One banner for each datagram -/

/-- A NUL is stored inside the buffer only. -/
def Inside : UdpEvent Addr → Prop
  | .terminate n => 0 ≤ n ∧ n ≤ 1023
  | _ => True

/-- What is sent, and to whom. -/
def sent : UdpEvent Addr → Option (Addr × String)
  | .sendto their_addr text => some (their_addr, text)
  | _ => none

/-- What is to be sent: the banner, to the sender. -/
def reply (res : Result Addr) : Option (Addr × String) := res.map fun d => (d.1, banner)

/-- A datagram that leaves room for the NUL. -/
def Short (res : Result Addr) : Prop := ∃ d, res = some d ∧ d.2.1.length ≤ 1023

theorem short_iff {res : Result Addr} : Short res ↔ 0 ≤ recvResult res ∧ recvResult res < 1024 := by
  cases res with
  | none => simp [Short, recvResult]
  | some d =>
    obtain ⟨sender, bs⟩ := d
    simp only [Short, recvResult, Option.some.injEq, exists_eq_left']
    omega

theorem iteration_of_short (s : Server Addr) {res : Result Addr} (h : Short res) :
    ∃ s', iteration s res =
      ⟨[.recvfrom res, .terminate (recvResult res), .sendto (received s res).their_addr banner], some s'⟩ := by
  have hterm : ∃ buffer, (received s res).buffer.terminate (recvResult res) = some buffer := ⟨_, if_pos (short_iff.1 h)⟩
  obtain ⟨buffer, hbuffer⟩ := hterm
  refine ⟨{ received s res with buffer := buffer }, ?_⟩
  simp only [iteration, hbuffer, emit_bind, lift_some_bind]
  rfl

/-- Otherwise the store is the last thing that is known of the run. -/
theorem iteration_of_not_short (s : Server Addr) {res : Result Addr} (h : ¬ Short res) :
    iteration s res = ⟨[.recvfrom res, .terminate (recvResult res)], none⟩ := by
  have hterm : (received s res).buffer.terminate (recvResult res) = none := if_neg (mt short_iff.2 h)
  simp only [iteration, hterm, emit_bind]
  rfl

theorem iteration_spec (s : Server Addr) (res : Result Addr) :
    ∃ s', Spec Inside sent (iteration s res) (Short res) (reply res).toList s' := by
  by_cases h : Short res
  · obtain ⟨s', hs'⟩ := iteration_of_short s h
    rw [hs']
    refine ⟨s', ⟨iff_of_true ?_ h, fun _ => rfl, fun _ => ?_⟩⟩
    · have hn := short_iff.1 h
      simp [Traced.All, Inside]
      omega
    · obtain ⟨⟨sender, bs⟩, rfl, -⟩ := h
      rfl
  · rw [iteration_of_not_short s h]
    refine ⟨s, ⟨iff_of_false ?_ h, fun h' => absurd h' h, fun h' => absurd h' h⟩⟩
    intro hall
    have hn : 0 ≤ recvResult res ∧ recvResult res ≤ 1023 := hall (.terminate (recvResult res)) (by simp)
    exact h (short_iff.2 ⟨hn.1, by omega⟩)

theorem serve_spec (s : Server Addr) (results : List (Result Addr)) :
    ∃ s', Spec Inside sent (serve s results) (∀ res ∈ results, Short res) (results.filterMap reply) s' := by
  induction results generalizing s with
  | nil => exact ⟨s, (Spec.pure s).congr (by simp)⟩
  | cons res results ih =>
    obtain ⟨s₁, h₁⟩ := iteration_spec s res
    obtain ⟨s₂, h₂⟩ := ih s₁
    have hsplit : (res :: results).filterMap reply = (reply res).toList ++ results.filterMap reply := by
      cases h : reply res <;> simp [h]
    rw [hsplit]
    exact ⟨s₂, (h₁.bind h₂).congr (by simp)⟩

/-- What the server is for: the run goes on, every datagram is answered to its sender, and nothing else is sent. -/
structure Serves (results : List (Result Addr)) (run : Traced (UdpEvent Addr) (Server Addr)) : Prop where
  goesOn : ∃ s, run.value = some s
  inside : run.All Inside
  banners : run.events.filterMap sent = results.filterMap reply

/-- **The server serves as long as nothing fails and no datagram fills the buffer**, and no longer. -/
theorem serve_serves_iff (s : Server Addr) (results : List (Result Addr)) :
    Serves results (serve s results) ↔ ∀ res ∈ results, Short res := by
  obtain ⟨s', hspec⟩ := serve_spec s results
  constructor
  · exact fun h => hspec.all.1 h.inside
  · exact fun h => ⟨⟨s', hspec.value h⟩, hspec.all.2 h, hspec.out h⟩

/-- One datagram of 1024 bytes: the NUL is stored behind the buffer. -/
theorem serve_overflow : ¬ ∀ (s : Server Nat) (results : List (Result Nat)), Serves results (serve s results) := by
  intro hclaim
  have hserves := hclaim ⟨0, ⟨List.replicate 1024 0, List.length_replicate⟩⟩
    [some (1, ⟨List.replicate 1024 65, by rw [List.length_replicate]⟩)]
  obtain ⟨s', hspec⟩ := serve_spec _ _
  obtain ⟨d, hd, hlen⟩ := hspec.all.1 hserves.inside _ List.mem_cons_self
  obtain rfl := Option.some.inj hd
  rw [List.length_replicate] at hlen
  omega

end CHell.Bambi
