import CHell.Lib.Inet
import CHell.Lib.Memory
import Mathlib.Data.List.Nodup

/-!
# Which device the captures are opened on

| here | there |
| --- | --- |
| `Device`        | `pcap_if_t`, and of its `addresses` what `sin_addr` is laid over |
| `selectLoop`    | `while (dev != NULL)` of `network/net-cap.c` (:31-37), `net-cap-v2.c` (:35-41) and `net-cap-v3.c` (:80-86) |
| `V4.selectLoop` | the loop of `net-cap-v4.c` (:163-173) |

The first three loops are the same statements. `strcmp` returns 0 on equal texts, and they take what it returns for
true: the device they stop at is the first one that was *not* asked for.
-/

namespace CHell.Sniffer

open Inet Memory

structure Device where
  name : Text
  /-- `addresses`, with `none` where `addr` is NULL. -/
  addresses : List (Option InAddr)
deriving DecidableEq

/-- `sin_addr` of `dev->addresses->addr`; `none` is a NULL that is dereferenced. -/
def Device.sinAddr (dev : Device) : Option InAddr := do
  let addr ← dev.addresses.head?
  addr

/-- What a loop leaves behind. -/
structure Selected where
  /-- `dev_name`, which goes to `pcap_open_live`; `none` is not assigned. -/
  devName : Option Text
  /-- `dev`, which goes to `pcap_freealldevs`. -/
  dev : List Device
deriving DecidableEq

def selectLoop (argv1 : Text) : List Device → Selected
  | [] => ⟨none, []⟩
  | dev :: next =>
    if strcmp dev.name.1 argv1.1 ≠ 0 then ⟨some dev.name, dev :: next⟩
    else selectLoop argv1 next

/-- With `ip_local`, if it was assigned. -/
def V4.selectLoop (argv1 : Text) : List Device → Option (Selected × Option (List UInt8))
  | [] => some (⟨none, []⟩, none)
  | dev :: next =>
    if strcmp dev.name.1 argv1.1 = 0 then do
      let sin_addr ← dev.sinAddr
      some (⟨some dev.name, dev :: next⟩, some (inetNtoa sin_addr))
    else V4.selectLoop argv1 next

/-! ## Where the loops stop -/

variable {devs : List Device} {dev : Device}

theorem selectLoop_eq (argv1 : Text) (devs : List Device) :
    selectLoop argv1 devs = ⟨(devs.find? fun dev => dev.name ≠ argv1).map Device.name,
      devs.dropWhile fun dev => dev.name = argv1⟩ := by
  induction devs with
  | nil => rfl
  | cons dev next ih =>
    have hcmp := strcmp_eq_zero dev.name argv1
    by_cases hname : dev.name = argv1
    · rw [selectLoop, if_neg (not_not.2 (hcmp.2 hname)), ih]
      simp [hname]
    · rw [selectLoop, if_pos (hcmp.not.2 hname)]
      simp [hname]

theorem V4.selectLoop_eq (argv1 : Text) (devs : List Device) :
    V4.selectLoop argv1 devs =
      match devs.dropWhile fun dev => dev.name ≠ argv1 with
      | [] => some (⟨none, []⟩, none)
      | dev :: next => dev.sinAddr.map fun sin_addr => (⟨some dev.name, dev :: next⟩, some (inetNtoa sin_addr)) := by
  induction devs with
  | nil => rfl
  | cons dev next ih =>
    have hcmp := strcmp_eq_zero dev.name argv1
    by_cases hname : dev.name = argv1
    · rw [V4.selectLoop, if_pos (hcmp.2 hname)]
      cases hsin : dev.sinAddr <;> simp [hname, hsin]
    · rw [V4.selectLoop, if_neg (hcmp.not.2 hname), ih]
      simp [hname]

/-- Distinct names: of the devices in front of `dev` none has its name. -/
theorem dropWhile_name (hnodup : (devs.map Device.name).Nodup) (hdev : dev ∈ devs) :
    ∃ next, devs.dropWhile (fun d => d.name ≠ dev.name) = dev :: next := by
  induction devs with
  | nil => cases hdev
  | cons d devs ih =>
    rw [List.map_cons, List.nodup_cons] at hnodup
    rcases List.mem_cons.1 hdev with rfl | hmem
    · exact ⟨devs, by simp⟩
    · have hname : d.name ≠ dev.name := fun h => hnodup.1 (h ▸ List.mem_map_of_mem hmem)
      obtain ⟨next, hnext⟩ := ih hnodup.2 hmem
      exact ⟨next, by simpa [hname] using hnext⟩

/-- The capture is opened on `dev`. -/
def Selects (dev : Device) (r : Selected) : Prop := r.devName = some dev.name

theorem not_selects (dev : Device) (devs : List Device) : ¬ Selects dev (selectLoop dev.name devs) := by
  rw [Selects, selectLoop_eq]
  intro hsel
  obtain ⟨d, hd, hname⟩ := Option.map_eq_some_iff.1 hsel
  have hne := List.find?_some hd
  simp [hname] at hne

/-- **The device asked for is never selected**, but the first one with another name, if there is one. The loop of
version 4 selects the device, if it has an address. -/
theorem selectLoop_wrong (hnodup : (devs.map Device.name).Nodup) (hdev : dev ∈ devs) :
    ¬ Selects dev (selectLoop dev.name devs) ∧
      (selectLoop dev.name devs).devName = (devs.find? fun d => d.name ≠ dev.name).map Device.name ∧
      ∃ next, V4.selectLoop dev.name devs =
        dev.sinAddr.map fun sin_addr => (⟨some dev.name, dev :: next⟩, some (inetNtoa sin_addr)) := by
  obtain ⟨next, hnext⟩ := dropWhile_name hnodup hdev
  refine ⟨not_selects dev devs, by rw [selectLoop_eq], next, ?_⟩
  rw [V4.selectLoop_eq, hnext]

/-- `lo`, 127.0.0.1. -/
def lo : Device := ⟨⟨[108, 111], by decide⟩, [some ⟨127, 0, 0, 1⟩]⟩

/-- `eth0`, 10.0.0.2. -/
def eth0 : Device := ⟨⟨[101, 116, 104, 48], by decide⟩, [some ⟨10, 0, 0, 2⟩]⟩

theorem selectLoop_wrong_eth0 :
    ¬ Selects eth0 (selectLoop eth0.name [lo, eth0]) ∧
      (selectLoop eth0.name [lo, eth0]).devName = ([lo, eth0].find? fun d => d.name ≠ eth0.name).map Device.name ∧
      ∃ next, V4.selectLoop eth0.name [lo, eth0] =
        eth0.sinAddr.map fun sin_addr => (⟨some eth0.name, eth0 :: next⟩, some (inetNtoa sin_addr)) :=
  selectLoop_wrong (by decide) (by simp)

/-- Asked for `eth0`, they open `lo`. -/
theorem selectLoop_lo :
    ¬ ∀ (devs : List Device) (dev : Device), (devs.map Device.name).Nodup → dev ∈ devs →
      Selects dev (selectLoop dev.name devs) := by
  intro hclaim
  have hsel := hclaim [lo, eth0] eth0 (by decide) (by simp)
  have hlo : (selectLoop eth0.name [lo, eth0]).devName = some lo.name := by decide
  rw [Selects, hlo] at hsel
  revert hsel
  decide

end CHell.Sniffer
