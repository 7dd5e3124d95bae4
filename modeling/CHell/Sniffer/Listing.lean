import CHell.Lib.Inet
import CHell.Lib.Traced
import CHell.Netlink.Header
import Mathlib.Data.List.TakeWhile

/-!
# The addresses of the devices, `network/net-device-ip.c`

| here | there |
| --- | --- |
| `addrEntry`   | the `if` over one address (:21-31) |
| `addrLoop`    | the loop over the addresses of one device (:20-32) |
| `devLoop`     | `while (dev != NULL)` (:18-34) |
| `listDevices` | `main` (:7-38) |

The condition of :21 compares `addr` with NULL behind its first use. So the first entry without an address ends the
program, wherever it stands and whatever it is of (`listDevices_iff`), and is not passed over. In the other case
what goes to `pcap_freealldevs` is NULL, for the loop has moved `dev` behind the last device.
-/

namespace CHell.Sniffer

open Inet Netlink Traced

/-- `struct sockaddr`: the family, and what `sin_addr` is laid over. -/
structure Sockaddr where
  sa_family : Nat
  sin_addr : InAddr
deriving DecidableEq

/-- `pcap_addr_t`; `none` is NULL. -/
structure PcapAddr where
  addr : Option Sockaddr
  netmask : Option Sockaddr
deriving DecidableEq

/-- `pcap_if_t` -/
structure PcapIf where
  name : List UInt8
  addresses : List PcapAddr
deriving DecidableEq

inductive ListEvent
  /-- `"Found a device %s on address %s netmask %s\n"` -/
  | found (name ipstr netmsk : List UInt8)
  | freealldevs (dev : List PcapIf)
deriving DecidableEq

/-- One round of `addrLoop`. -/
def addrEntry (name : List UInt8) (dev_addr : PcapAddr) : Traced ListEvent PUnit := do
  let addr ← lift dev_addr.addr
  ifPresent (if addr.sa_family = AF_INET then dev_addr.netmask else none) fun net_mask =>
    emit (.found name (inetNtoa addr.sin_addr) (inetNtoa net_mask.sin_addr))

def addrLoop (name : List UInt8) : List PcapAddr → Traced ListEvent PUnit
  | [] => pure ⟨⟩
  | dev_addr :: next => do
    addrEntry name dev_addr
    addrLoop name next

/-- Returns what `dev` is behind the loop. -/
def devLoop : List PcapIf → Traced ListEvent (List PcapIf)
  | [] => pure []
  | dev :: next => do
    addrLoop dev.name dev.addresses
    devLoop next

/-- `none` is a `pcap_findalldevs` that returns -1. -/
def listDevices (devs : Option (List PcapIf)) : Traced ListEvent Int :=
  match devs with
  | none => pure (-1)
  | some dev => do
    let dev ← devLoop dev
    emit (.freealldevs dev)
    pure 0

/-! ## What is listed -/

/-- The entries of all devices, each with the name of its device. -/
def entries (devs : List PcapIf) : List (List UInt8 × PcapAddr) :=
  devs.flatMap fun dev => dev.addresses.map (Prod.mk dev.name)

/-- The line of an entry: there is one for an IPv4 address with a netmask. -/
def shown (entry : List UInt8 × PcapAddr) : Option ListEvent := do
  let addr ← entry.2.addr
  let net_mask ← if addr.sa_family = AF_INET then entry.2.netmask else none
  some (.found entry.1 (inetNtoa addr.sin_addr) (inetNtoa net_mask.sin_addr))

def HasAddr (entry : List UInt8 × PcapAddr) : Prop := entry.2.addr.isSome

instance (entry : List UInt8 × PcapAddr) : Decidable (HasAddr entry) := inferInstanceAs (Decidable (_ = true))

/-- `x` goes through these entries as far as they have addresses, and returns `v` if all have. -/
structure Shows {α : Type} (x : Traced ListEvent α) (es : List (List UInt8 × PcapAddr)) (v : α) : Prop where
  events : x.events = (es.takeWhile fun e => HasAddr e).filterMap shown
  value : x.value = if ∀ e ∈ es, HasAddr e then some v else none

section
variable {α β : Type} {x : Traced ListEvent α} {f : α → Traced ListEvent β} {es es' : List (List UInt8 × PcapAddr)}
  {v : α} {w : β}

theorem Shows.pure (v : α) : Shows (pure v : Traced ListEvent α) [] v := ⟨rfl, by simp⟩

/-- One after the other; where the first ends early, the second adds nothing. -/
theorem Shows.bind (hx : Shows x es v) (hf : Shows (f v) es' w) : Shows (x >>= f) (es ++ es') w := by
  have hself : es.takeWhile (fun e => HasAddr e) = es ↔ ∀ e ∈ es, HasAddr e := by simp [List.takeWhile_eq_self_iff]
  have hvalue := hx.value
  by_cases hall : ∀ e ∈ es, HasAddr e
  · rw [if_pos hall] at hvalue
    rw [bind_of_some hvalue]
    constructor
    · rw [hx.events, hf.events, List.takeWhile_append, if_pos (by rw [hself.2 hall]), hself.2 hall,
        List.filterMap_append]
    · rw [hf.value]
      simp only [List.forall_mem_append, iff_true_intro hall, true_and]
  · rw [if_neg hall] at hvalue
    rw [bind_of_none hvalue]
    constructor
    · have hfront := List.takeWhile_prefix (fun e => HasAddr e) (l := es)
      have hshort : (es.takeWhile fun e => HasAddr e).length ≠ es.length := fun hlen =>
        hall (hself.1 (hfront.eq_of_length hlen))
      rw [hx.events, List.takeWhile_append, if_neg hshort]
    · rw [if_neg]
      intro h
      exact hall fun e he => h e (List.mem_append_left _ he)

end

theorem entry_shows (name : List UInt8) (a : PcapAddr) : Shows (addrEntry name a) [(name, a)] ⟨⟩ := by
  unfold addrEntry
  cases haddr : a.addr with
  | none => constructor <;> simp [lift, bind_of_none, HasAddr, haddr]
  | some addr =>
    rw [lift_some_bind]
    by_cases hfamily : addr.sa_family = AF_INET
    · cases hmask : a.netmask <;> constructor <;>
        simp [ifPresent, emit, shown, HasAddr, haddr, hfamily, hmask]
    · constructor <;> simp [ifPresent, shown, HasAddr, haddr, hfamily]

theorem addrLoop_shows (name : List UInt8) (addrs : List PcapAddr) :
    Shows (addrLoop name addrs) (addrs.map (Prod.mk name)) ⟨⟩ := by
  induction addrs with
  | nil => exact .pure PUnit.unit
  | cons dev_addr next ih => exact (entry_shows name dev_addr).bind ih

theorem devLoop_shows (devs : List PcapIf) : Shows (devLoop devs) (entries devs) [] := by
  induction devs with
  | nil => exact .pure []
  | cons dev next ih => exact (addrLoop_shows dev.name dev.addresses).bind ih

/-- **What is listed, and when the program gets to its end.** It prints a line for each IPv4 address with a netmask,
device by device, up to the first entry without an address; there it goes wrong. If every entry has an address it
returns 0, and what it frees is nothing. -/
theorem listDevices_iff (devs : List PcapIf) :
    ((listDevices (some devs)).value = some 0 ↔ ∀ dev ∈ devs, ∀ a ∈ dev.addresses, a.addr ≠ none) ∧
      (listDevices (some devs)).events =
        ((entries devs).takeWhile fun e => HasAddr e).filterMap shown ++
          if ∀ e ∈ entries devs, HasAddr e then [.freealldevs []] else [] := by
  have hloop := devLoop_shows devs
  have hall : (∀ e ∈ entries devs, HasAddr e) ↔ ∀ dev ∈ devs, ∀ a ∈ dev.addresses, a.addr ≠ none := by
    simp only [entries, HasAddr, List.mem_flatMap, List.mem_map, Option.isSome_iff_ne_none]
    constructor
    · intro h dev hdev a ha
      exact h _ ⟨dev, hdev, a, ha, rfl⟩
    · rintro h e ⟨dev, hdev, a, ha, rfl⟩
      exact h dev hdev a ha
  have hvalue := hloop.value
  unfold listDevices
  rw [← hall, ← hloop.events]
  by_cases hok : ∀ e ∈ entries devs, HasAddr e
  · rw [if_pos hok] at hvalue
    simp only [bind_of_some hvalue, if_pos hok]
    exact ⟨⟨fun _ => hok, fun _ => rfl⟩, rfl⟩
  · rw [if_neg hok] at hvalue
    simp only [bind_of_none hvalue, if_neg hok]
    exact ⟨⟨nofun, fun h => absurd h hok⟩, (List.append_nil _).symm⟩

end CHell.Sniffer
