import CHell.Sniffer.Block
import CHell.Sniffer.Devices

/-!
# What the sniffer is started with, `network/block_sniffer-v3.c`

| here | there |
| --- | --- |
| `options`    | the loop over the arguments (:195-205), with `NEXT_CMD_ARG` (:190) |
| `deviceLoop` | `while (dev != NULL)` (:217-225) |
| `main`       | `main` up to `pcap_loop` (:192-247) |

The options can stand anywhere, the last one of a kind counts, and what follows one is its value whatever it looks like.
`Item` is the grammar of that, and the loop reads it and nothing else (`options_iff`). A name no option has given is
not initialised (`none`). `main_captures_iff` says which command lines come to a capture, and to which.
-/

namespace CHell.Sniffer

open CInt Memory

/-- `-dev` -/
def DEV : Text := ⟨[45, 100, 101, 118], by decide⟩

/-- `-vpn` -/
def VPN : Text := ⟨[45, 118, 112, 110], by decide⟩

def NLM_F_CREATE : Int := 0x400

structure Names where
  dev_name : Option Text
  vpn_name : Option Text
deriving DecidableEq

/-- `none` is `exit(-1)`. -/
def options : List Text → Names → Option Names
  | [], names => some names
  | arg :: argv, names =>
    if strcmp arg.1 DEV.1 = 0 then
      match argv with
      | [] => none
      | dev_name :: argv => options argv { names with dev_name := some dev_name }
    else if strcmp arg.1 VPN.1 = 0 then
      match argv with
      | [] => none
      | vpn_name :: argv => options argv { names with vpn_name := some vpn_name }
    else options argv names

/-- The value of `dev_name` behind the loop, or `none` if a NULL or a name that is none is used. -/
def deviceLoop (dev_name : Option Text) : List Device → Option (Option Text)
  | [] => some dev_name
  | dev :: next => do
    let name ← dev_name
    if strcmp dev.name.1 name.1 = 0 then
      let _ ← dev.addresses.head?
      some (some dev.name)
    else deviceLoop dev_name next

/-- What the calls of `main` answer. -/
structure Host where
  /-- `pcap_findalldevs`; `none` is -1. -/
  devs : Option (List Device)
  ifNametoindex : Text → Nat
  /-- `calloc` does not return NULL. -/
  calloc : Bool
  /-- `pcap_open_live` does not return NULL. -/
  openLive : Text → Bool

inductive Startup
  | exit (status : Int)
  | undefined
  | loop (dev_name : Text) (conf : Config)

def main (host : Host) (argv : List Text) : Startup :=
  match options argv ⟨none, none⟩ with
  | none => .exit (-1)
  | some names =>
    match host.devs with
    | none => .exit (-1)
    | some devs =>
      match deviceLoop names.dev_name devs, names.vpn_name with
      | some dev_name, some vpn_name =>
        let routeconf := start (toInt (host.ifNametoindex vpn_name)) NLM_F_CREATE
        if host.calloc = false then .exit (-1)
        else
          match dev_name with
          | none => .undefined
          | some dev_name => if host.openLive dev_name then .loop dev_name routeconf else .exit 1
      | _, _ => .undefined

/-! ## The command line -/

/-- An option with its value, or anything else. -/
inductive Item
  | dev (value : Text)
  | vpn (value : Text)
  | other (arg : Text)

def Item.args : Item → List Text
  | .dev value => [DEV, value]
  | .vpn value => [VPN, value]
  | .other arg => [arg]

def Item.Ok : Item → Prop
  | .other arg => arg ≠ DEV ∧ arg ≠ VPN
  | _ => True

def Item.set (names : Names) : Item → Names
  | .dev value => { names with dev_name := some value }
  | .vpn value => { names with vpn_name := some value }
  | .other _ => names

variable {items : List Item} {names : Names} {argv : List Text}

theorem options_dev (value : Text) (argv : List Text) (names : Names) :
    options (DEV :: value :: argv) names = options argv { names with dev_name := some value } := by
  rw [options, if_pos ((strcmp_eq_zero DEV DEV).2 rfl)]

theorem options_vpn (value : Text) (argv : List Text) (names : Names) :
    options (VPN :: value :: argv) names = options argv { names with vpn_name := some value } := by
  rw [options, if_neg (by decide), if_pos ((strcmp_eq_zero VPN VPN).2 rfl)]

theorem options_other {arg : Text} (hdev : arg ≠ DEV) (hvpn : arg ≠ VPN) (argv : List Text) (names : Names) :
    options (arg :: argv) names = options argv names := by
  conv_lhs => unfold options
  rw [if_neg ((strcmp_eq_zero arg DEV).not.2 hdev), if_neg ((strcmp_eq_zero arg VPN).not.2 hvpn)]

/-- The loop reads a row of items. -/
theorem options_items (h : ∀ x ∈ items, x.Ok) (rest : List Text) (names : Names) :
    options (items.flatMap Item.args ++ rest) names = options rest (items.foldl Item.set names) := by
  induction items generalizing names with
  | nil => rfl
  | cons x items ih =>
    obtain ⟨hx, hitems⟩ := List.forall_mem_cons.1 h
    rw [List.flatMap_cons, List.append_assoc, List.foldl_cons, ← ih hitems]
    cases x with
    | dev value => exact options_dev value _ names
    | vpn value => exact options_vpn value _ names
    | other arg => exact options_other hx.1 hx.2 _ names

theorem options_dangling {opt : Text} (h : opt = DEV ∨ opt = VPN) (names : Names) : options [opt] names = none := by
  rcases h with rfl | rfl
  · rw [options, if_pos ((strcmp_eq_zero DEV DEV).2 rfl)]
  · rw [options, if_neg (by decide), if_pos ((strcmp_eq_zero VPN VPN).2 rfl)]

/-- A row of items, and perhaps an option behind it that has no value. -/
def Reads (argv : List Text) (items : List Item) (rest : List Text) : Prop :=
  (∀ x ∈ items, x.Ok) ∧ argv = items.flatMap Item.args ++ rest ∧ (rest = [] ∨ rest = [DEV] ∨ rest = [VPN])

theorem Reads.cons {x : Item} {rest : List Text} (hx : x.Ok) (h : Reads argv items rest) :
    Reads (x.args ++ argv) (x :: items) rest := by
  obtain ⟨hitems, rfl, hrest⟩ := h
  exact ⟨List.forall_mem_cons.2 ⟨hx, hitems⟩, by rw [List.flatMap_cons, List.append_assoc], hrest⟩

/-- Every command line is one or the other. -/
theorem exists_reads : ∀ argv : List Text, ∃ items rest, Reads argv items rest
  | [] => ⟨[], [], by simp, rfl, .inl rfl⟩
  | [arg] => by
    by_cases hopt : arg = DEV ∨ arg = VPN
    · exact ⟨[], [arg], by simp, rfl, by simpa using hopt⟩
    · exact ⟨[.other arg], [], by simpa [Item.Ok] using hopt, rfl, .inl rfl⟩
  | arg :: value :: argv => by
    by_cases hdev : arg = DEV
    · obtain ⟨items, rest, h⟩ := exists_reads argv
      exact ⟨.dev value :: items, rest, hdev ▸ h.cons trivial⟩
    by_cases hvpn : arg = VPN
    · obtain ⟨items, rest, h⟩ := exists_reads argv
      exact ⟨.vpn value :: items, rest, hvpn ▸ h.cons trivial⟩
    obtain ⟨items, rest, h⟩ := exists_reads (value :: argv)
    exact ⟨.other arg :: items, rest, h.cons ⟨hdev, hvpn⟩⟩

theorem Reads.options_eq {rest : List Text} (h : Reads argv items rest) (names : Names) :
    options argv names = if rest = [] then some (items.foldl Item.set names) else none := by
  obtain ⟨hitems, rfl, hrest⟩ := h
  rw [options_items hitems]
  rcases hrest with rfl | hrest
  · rfl
  · have hne : rest ≠ [] := by rintro rfl; simp at hrest
    rw [if_neg hne]
    rcases hrest with rfl | rfl
    · exact options_dangling (.inl rfl) _
    · exact options_dangling (.inr rfl) _

/-- **The loop reads the grammar.** It comes to names exactly for the rows of items, and then to the last value of each
kind. -/
theorem options_iff (argv : List Text) (names names' : Names) :
    options argv names = some names' ↔ ∃ items, Reads argv items [] ∧ items.foldl Item.set names = names' := by
  constructor
  · intro h
    obtain ⟨items, rest, hreads⟩ := exists_reads argv
    rw [hreads.options_eq] at h
    split at h
    · rename_i hrest
      subst hrest
      exact ⟨items, hreads, Option.some.inj h⟩
    · cases h
  · rintro ⟨items, hreads, rfl⟩
    rw [hreads.options_eq, if_pos rfl]

/-- A value may look like an option. -/
example : options [DEV, VPN, ⟨[120], by decide⟩] ⟨none, none⟩ = some ⟨some VPN, none⟩ := by decide

/-! ## The program -/

/-- The first device of this name, if there is one, has an address. -/
def Addressed (name : Text) (devs : List Device) : Prop :=
  ∀ dev ∈ devs.find? fun dev => dev.name = name, dev.addresses ≠ []

/-- The name stays what it was: the loop is there to find the device, and then takes its name. -/
theorem deviceLoop_some {name : Text} {devs : List Device} {r : Option Text} :
    deviceLoop (some name) devs = some r ↔ Addressed name devs ∧ r = some name := by
  unfold Addressed
  induction devs with
  | nil => simp [deviceLoop, eq_comm]
  | cons dev next ih =>
    have hcmp := strcmp_eq_zero dev.name name
    rw [deviceLoop]
    simp only [Option.bind_eq_bind, Option.bind_some]
    by_cases hname : dev.name = name
    · rw [if_pos (hcmp.2 hname)]
      cases haddr : dev.addresses <;> simp [hname, haddr, eq_comm]
    · rw [if_neg (hcmp.not.2 hname), ih]
      simp [hname]

theorem deviceLoop_none {devs : List Device} {name : Text} : deviceLoop none devs ≠ some (some name) := by
  cases devs <;> simp [deviceLoop]

theorem deviceLoop_eq_some {dev_name : Option Text} {devs : List Device} {name : Text} :
    deviceLoop dev_name devs = some (some name) ↔ dev_name = some name ∧ Addressed name devs := by
  cases dev_name with
  | none => simpa using deviceLoop_none
  | some name' =>
    rw [deviceLoop_some]
    constructor
    · rintro ⟨haddr, hname⟩
      cases hname
      exact ⟨rfl, haddr⟩
    · rintro ⟨hname, haddr⟩
      cases hname
      exact ⟨haddr, rfl⟩

/-- **Which command lines come to a capture.** Those of complete items that give both names, where `pcap_findalldevs`,
`calloc` and `pcap_open_live` succeed and the first device of the name given last, if there is one, has an address.
The capture is then on the device of that name and no other, with routes through the interface given last, also where
`if_nametoindex` has found none. -/
theorem main_captures_iff (host : Host) (argv : List Text) (dev_name : Text) (conf : Config) :
    main host argv = .loop dev_name conf ↔
      ∃ items vpn_name devs, Reads argv items [] ∧
        items.foldl Item.set ⟨none, none⟩ = ⟨some dev_name, some vpn_name⟩ ∧ host.devs = some devs ∧
        Addressed dev_name devs ∧ host.calloc = true ∧ host.openLive dev_name = true ∧
        conf = start (toInt (host.ifNametoindex vpn_name)) NLM_F_CREATE := by
  unfold main
  constructor
  · intro h
    split at h
    · cases h
    rename_i names hnames
    obtain ⟨items, hreads, rfl⟩ := (options_iff _ _ _).1 hnames
    split at h
    · cases h
    rename_i devs hdevs
    split at h
    · rename_i name vpn_name hloop hvpn
      split at h
      · cases h
      rename_i hcalloc
      split at h
      · cases h
      rename_i name
      split at h
      · rename_i hopen
        cases h
        obtain ⟨hname, haddr⟩ := deviceLoop_eq_some.1 hloop
        exact ⟨items, vpn_name, devs, hreads, by rw [← hname, ← hvpn], hdevs, haddr, by simpa using hcalloc, hopen, rfl⟩
      · cases h
    · cases h
  · rintro ⟨items, vpn_name, devs, hreads, hnames, hdevs, haddr, hcalloc, hopen, rfl⟩
    have hoptions := (options_iff argv ⟨none, none⟩ _).2 ⟨items, hreads, hnames⟩
    have hloop : deviceLoop (some dev_name) devs = some (some dev_name) := deviceLoop_eq_some.2 ⟨rfl, haddr⟩
    simp [hoptions, hdevs, hloop, hcalloc, hopen]

end CHell.Sniffer
