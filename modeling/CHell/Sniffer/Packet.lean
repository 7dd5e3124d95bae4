import CHell.Lib.Inet
import Mathlib.Logic.Basic

/-!
# What the sniffers look at in a packet

`pkt_hdr` of `network/block_sniffer-v2.c` (:127-174) and `-v3.c` (:132-188) lays `struct iphdr` over
the packet at offset 14 and `struct tcphdr` at `14 + ihl * 4`, and goes on if the protocol is TCP,
one of the ports is 443 and the flags are 20.

| field | byte |
| --- | --- |
| `ihl`, `protocol` | low half of 14; 23 |
| `saddr`, `daddr`  | 26..29, 30..33 |
| `source`, `dest`, `doff`, `th_flags`, `window` | 0..1, 2..3, high half of 12, 13, 14..15 of the TCP header |

The packet is a partial lookup, so that reading a byte it does not have is seen.
-/

namespace CHell.Sniffer

open Inet

/-- The memory `pkt` points to. -/
abbrev Packet := Nat → Option UInt8

def ETH_HLEN : Nat := 14
def IPPROTO_TCP : UInt8 := 6

/-- `ntohs` of the two bytes at an offset. -/
def readPort (pkt : Packet) (off : Nat) : Option Nat := do
  let hi ← pkt off
  let lo ← pkt (off + 1)
  some (256 * hi.toNat + lo.toNat)

def readAddr4 (pkt : Packet) (off : Nat) : Option InAddr := do
  some ⟨← pkt off, ← pkt (off + 1), ← pkt (off + 2), ← pkt (off + 3)⟩

/-- `iph->ihl * 4` -/
def readIphdrlen (pkt : Packet) : Option Nat := do
  let b ← pkt ETH_HLEN
  some (b.toNat % 16 * 4)

/-- `source == 443 || dest == 443`: `dest` is read only if `source` is not 443. -/
def readIs443 (pkt : Packet) (tcph : Nat) : Option Bool := do
  let source ← readPort pkt tcph
  if source = 443 then some true
  else
    let dest ← readPort pkt (tcph + 2)
    some (decide (dest = 443))

/-- The callback up to its test `pktflag == 20`: the source address if all tests pass. `trace` is
version 2, which prints both ports and the window of every packet of port 443. -/
def resetSource (trace : Bool) (pkt : Packet) : Option (Option InAddr) := do
  let _ ← readIphdrlen pkt
  let source ← readAddr4 pkt (ETH_HLEN + 12)
  let _ ← readAddr4 pkt (ETH_HLEN + 16)
  let protocol ← pkt (ETH_HLEN + 9)
  if protocol = IPPROTO_TCP then
    let iphdrlen ← readIphdrlen pkt
    let tcph := ETH_HLEN + iphdrlen
    let _doff ← pkt (tcph + 12)
    if ← readIs443 pkt tcph then
      let pktflag ← pkt (tcph + 13)
      if trace then
        let _dest ← readPort pkt (tcph + 2)
        let _window ← readPort pkt (tcph + 14)
      if pktflag.toNat = 20 then some (some source) else some none
    else some none
  else some none

/-! ## Packets that are all there -/

section Total

variable (mem : Nat → UInt8)

/-- Where the callback takes the TCP header to be. -/
def tcpAt : Nat := ETH_HLEN + (mem ETH_HLEN).toNat % 16 * 4

def portAt (off : Nat) : Nat := 256 * (mem off).toNat + (mem (off + 1)).toNat

def sourceAt : InAddr :=
  ⟨mem (ETH_HLEN + 12), mem (ETH_HLEN + 12 + 1), mem (ETH_HLEN + 12 + 2), mem (ETH_HLEN + 12 + 3)⟩

/-- The tests of the callback. -/
def Passes : Prop :=
  mem (ETH_HLEN + 9) = IPPROTO_TCP ∧
    (portAt mem (tcpAt mem) = 443 ∨ portAt mem (tcpAt mem + 2) = 443) ∧ (mem (tcpAt mem + 13)).toNat = 20

instance : Decidable (Passes mem) := inferInstanceAs (Decidable (_ ∧ _ ∧ _))

variable {mem}

theorem readIs443_total : readIs443 (fun i => some (mem i)) (tcpAt mem) =
    some (decide (portAt mem (tcpAt mem) = 443 ∨ portAt mem (tcpAt mem + 2) = 443)) := by
  have hport : ∀ off, readPort (fun i => some (mem i)) off = some (portAt mem off) := fun _ => rfl
  unfold readIs443
  rw [hport, hport, Option.bind_eq_bind, Option.bind_some]
  by_cases hsource : portAt mem (tcpAt mem) = 443 <;> simp [hsource]

/-- **The tests on a packet whose every byte can be read.** -/
theorem resetSource_total (mem : Nat → UInt8) (trace : Bool) :
    resetSource trace (fun i => some (mem i)) = some (if Passes mem then some (sourceAt mem) else none) := by
  have hlen : readIphdrlen (fun i => some (mem i)) = some ((mem ETH_HLEN).toNat % 16 * 4) := rfl
  have haddr : ∀ off, readAddr4 (fun i => some (mem i)) off =
      some ⟨mem off, mem (off + 1), mem (off + 2), mem (off + 3)⟩ := fun _ => rfl
  have hport : ∀ off, readPort (fun i => some (mem i)) off = some (portAt mem off) := fun _ => rfl
  have htcp : ETH_HLEN + (mem ETH_HLEN).toNat % 16 * 4 = tcpAt mem := rfl
  unfold resetSource
  simp only [hlen, haddr, hport, htcp, readIs443_total, Option.bind_eq_bind, Option.bind_some, ite_self,
    decide_eq_true_eq]
  by_cases hpasses : Passes mem
  · obtain ⟨hprotocol, h443, hflag⟩ := hpasses
    rw [if_pos hprotocol, if_pos h443, if_pos hflag, if_pos ⟨hprotocol, h443, hflag⟩]
    rfl
  · rw [if_neg hpasses]
    split
    · rename_i hprotocol
      split
      · rename_i h443
        rw [if_neg fun hflag => hpasses ⟨hprotocol, h443, hflag⟩]
      · rfl
    · rfl

end Total

end CHell.Sniffer
