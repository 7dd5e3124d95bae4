import CHell.Netlink.Header
import Mathlib.Logic.Function.Basic

/-!
# Reading attributes, `network/route_print.c`

| here | there |
| --- | --- |
| `parseRtattr` | `parse_rtattr` (:72-83); `parseBody` is one test and one round of its `while` |
| `parseReads`  | the bytes that test and that round read |

The table `tb` maps a type to the offset of an attribute; `none` is `NULL`.
-/

namespace CHell.Netlink

open CInt Memory

/-- `RTA_OK(rta, len)`: it reads `rta_len` only if a header fits. -/
def RTA_OK (m : Mem) (rta : Nat) (len : Int) : Option Bool :=
  if 4 ≤ len then (rtaLen m rta).map fun (l : Nat) => decide (4 ≤ l) && decide ((l : Int) ≤ len)
  else some false

structure AttrWalk where
  rta : Nat
  len : Int
  tb : Nat → Option Nat

def parseBody (m : Mem) (max : Int) (s : AttrWalk) : AttrWalk ⊕ Option (Nat → Option Nat) :=
  match RTA_OK m s.rta s.len, rtaType m s.rta, rtaLen m s.rta with
  | some false, _, _ => .inr (some s.tb)
  | some true, some type, some l =>
    .inl { rta := s.rta + (RTA_ALIGN l).toNat
           len := shorten s.len (RTA_ALIGN l)
           tb := if (type : Int) ≤ max then Function.update s.tb type (some s.rta) else s.tb }
  | _, _, _ => .inr none

/-- Offsets and numbers of bytes: `rta_len` if a header fits, `rta_type` if `RTA_OK` holds. -/
def parseReads (m : Mem) (s : AttrWalk) : List (Nat × Nat) :=
  if 4 ≤ s.len then
    if RTA_OK m s.rta s.len = some true then [(s.rta, 2), (s.rta + 2, 2)] else [(s.rta, 2)]
  else []

theorem parseBody_decreases {m : Mem} {max : Int} {s s' : AttrWalk} (h : parseBody m max s = .inl s') :
    s'.len.toNat < s.len.toNat := by
  unfold parseBody at h
  split at h
  · cases h
  · rename_i type l hok _ hl
    unfold RTA_OK at hok
    split at hok
    · rw [hl, Option.map_some, Option.some.injEq, Bool.and_eq_true, decide_eq_true_eq,
        decide_eq_true_eq] at hok
      have hlt := shorten_align_lt (by omega : 0 < l) hok.2
      cases h
      simp only
      omega
    · cases hok
  · cases h

/-- `max + 1` is the number of pointers `memset` clears. -/
def parseRtattr (m : Mem) (max : Int) (rta : Nat) (len : Int) : Option (Nat → Option Nat) := do
  let count ← addInt max 1
  if count < 0 then none
  else
    Loop.runLoop (parseBody m max) (fun s => s.len.toNat) (fun _ _ => parseBody_decreases)
      { rta, len, tb := fun _ => none }

end CHell.Netlink
