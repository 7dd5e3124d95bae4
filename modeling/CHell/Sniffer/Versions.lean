import CHell.Sniffer.Callback
import CHell.Lib.Dedup
import CHell.Lib.Reactive

/-!
# Version 3 is version 2 without repeats

Both versions, on one capture, against the list of the source addresses that pass the tests
(`resets`): version 2 routes all of them, version 3 lets through the first occurrence of each and
keeps their texts. The list of version 3 plays the part of what a duplicate filter remembers.
-/

namespace CHell.Sniffer

open CInt Inet Netlink Dedup

variable {p : InetPton}

/-- A capture: each packet, with the answers to the calls it leads to. -/
abbrev Capture := List ((Nat → UInt8) × Answer)

/-- As `pcap_loop` hands it over. -/
def feed (is : Capture) : List (Packet × Answer) := is.map fun i => (whole i.1, i.2)

theorem feed_append (is js : Capture) : feed (is ++ js) = feed is ++ feed js := List.map_append

/-- The source addresses of the packets that pass the tests. -/
def resets (is : Capture) : List InAddr :=
  is.filterMap fun i => if Passes i.1 then some (sourceAt i.1) else none

theorem resets_append (is js : Capture) : resets (is ++ js) = resets is ++ resets js := List.filterMap_append

theorem resets_cons (i : (Nat → UInt8) × Answer) (is : Capture) :
    resets (i :: is) = if Passes i.1 then sourceAt i.1 :: resets is else resets is := by
  unfold resets
  rw [List.filterMap_cons]
  split <;> rename_i h <;> split at h <;> simp_all

theorem step_running {conf conf' : Config} {mem : Nat → UInt8} {a : Answer} {status : Status} {es : List Event}
    (h : pktHdr p conf (whole mem) a = (status, conf', es)) :
    step p { status := .running, conf } (whole mem, a) = some ({ status, conf := conf' }, es) := by
  unfold step
  rw [if_pos rfl, h]

theorem V2.step_running {conf : V2.Config} {total total' : Int} {mem : Nat → UInt8} {a : Answer}
    {status : Status} {es : List Event} (h : V2.pktHdr p conf total (whole mem) a = (status, total', es)) :
    V2.step p conf { status := .running, total } (whole mem, a) = some ({ status, total := total' }, es) := by
  unfold V2.step
  rw [if_pos rfl, h]

/-- **A run of version 3**, from a list that holds the texts of `seen`. -/
theorem exec_v3 (hp : Recovers p) (conf : Config) (is : Capture) {seen : List InAddr}
    (htexts : conf.texts = seen.map inetNtoa) (hok : ∀ i ∈ is, i.2.Ok)
    (hbound : ((seen.length + (resets is).length : Nat) : Int) ≤ INT_MAX) :
    ∃ conf' es, Reactive.exec (step p) { status := .running, conf } (feed is) =
        some ({ status := .running, conf := conf' }, es) ∧
      conf'.texts = (seen ++ firsts seen (resets is)).map inetNtoa ∧
      destinations es = (firsts seen (resets is)).map routeTo := by
  induction is generalizing conf seen with
  | nil => exact ⟨conf, [], rfl, by simpa [resets, firsts] using htexts, rfl⟩
  | cons i is ih =>
    have hok' : ∀ j ∈ is, j.2.Ok := fun j hj => hok j (List.mem_cons_of_mem i hj)
    rw [resets_cons] at hbound ⊢
    by_cases hpasses : Passes i.1
    · rw [if_pos hpasses] at hbound ⊢
      rw [List.length_cons] at hbound
      have hmem : inetNtoa (sourceAt i.1) ∈ conf.texts ↔ sourceAt i.1 ∈ seen := by
        rw [htexts]
        exact List.mem_map_of_injective inetNtoa_injective
      by_cases hseen : sourceAt i.1 ∈ seen
      · obtain ⟨conf', es, hexec, htexts', hdest⟩ := ih conf htexts hok' (by omega)
        have hpacket := pktHdr_listed (p := p) (a := i.2) hpasses (hmem.2 hseen)
        refine ⟨conf', _, Reactive.exec_cons (step_running hpacket) hexec, ?_, ?_⟩
        · rw [firsts, if_pos hseen]; exact htexts'
        · rw [firsts, if_pos hseen, destinations_append, destinations_isNew]; exact hdest
      · have hcounter : conf.counter < INT_MAX := by
          rw [conf.counter_texts, htexts, List.length_map]
          omega
        obtain ⟨conf1, hpacket, htexts1⟩ :=
          pktHdr_new hp (hok i List.mem_cons_self) hcounter hpasses (hmem.not.2 hseen)
        have hseen1 : conf1.texts = (seen ++ [sourceAt i.1]).map inetNtoa := by
          rw [htexts1, htexts, List.map_append]
          rfl
        have hbound1 : (((seen ++ [sourceAt i.1]).length + (resets is).length : Nat) : Int) ≤ INT_MAX := by
          simp only [List.length_append, List.length_singleton]
          omega
        obtain ⟨conf', es, hexec, htexts', hdest⟩ := ih conf1 hseen1 hok' hbound1
        refine ⟨conf', _, Reactive.exec_cons (step_running hpacket) hexec, ?_, ?_⟩
        · rw [firsts, if_neg hseen, List.append_cons]; exact htexts'
        · rw [firsts, if_neg hseen, destinations_append, destinations_append, destinations_append, destinations_isNew, hdest]
          rfl
    · rw [if_neg hpasses] at hbound ⊢
      obtain ⟨conf', es, hexec, htexts', hdest⟩ := ih conf htexts hok' hbound
      have hpacket : pktHdr p conf (whole i.1) i.2 = (.running, conf, []) := pktHdr_rejected hpasses
      exact ⟨conf', es, Reactive.exec_cons (step_running hpacket) hexec, htexts', hdest⟩

/-! ## Version 2 -/

theorem V2.pktHdr_ok (hp : Recovers p) (conf : V2.Config) {total : Int} (mem : Nat → UInt8) {a : Answer}
    (ha : a.Ok) (htotal : InInt (total + 1)) :
    V2.pktHdr p conf total (whole mem) a = (.running, total + 1,
      if Passes mem then [.doRoute conf.netlinkFlags (routeTo (sourceAt mem)) conf.ifaceId] else []) := by
  have htests := resetSource_total mem true
  have hnext : addInt total 1 = some (total + 1) := addInt_eq_some.2 ⟨rfl, htotal⟩
  unfold V2.pktHdr whole
  by_cases h : Passes mem
  · rw [if_pos h] at htests ⊢
    simp only [hnext, htests, V2.reroute_ok hp ha]
  · rw [if_neg h] at htests ⊢
    simp only [hnext, htests]

/-- **A run of version 2** routes every reset, and counts the packets. -/
theorem exec_v2 (hp : Recovers p) (conf : V2.Config) (is : Capture) {total : Int} (h0 : 0 ≤ total)
    (hok : ∀ i ∈ is, i.2.Ok) (hbound : total + is.length ≤ INT_MAX) :
    ∃ es, Reactive.exec (V2.step p conf) { status := .running, total } (feed is) =
        some ({ status := .running, total := total + is.length }, es) ∧
      destinations es = (resets is).map routeTo := by
  induction is generalizing total with
  | nil => exact ⟨[], by simp [feed, Reactive.exec], rfl⟩
  | cons i is ih =>
    rw [List.length_cons] at hbound
    have htotal : InInt (total + 1) := by
      unfold INT_MAX at hbound
      constructor <;> omega
    obtain ⟨es, hexec, hdest⟩ := ih (by omega : 0 ≤ total + 1) (fun j hj => hok j (List.mem_cons_of_mem i hj))
      (by omega)
    have hpacket := V2.pktHdr_ok hp conf i.1 (hok i List.mem_cons_self) htotal
    have hlen : total + 1 + is.length = total + (is.length + 1 : Nat) := by omega
    rw [hlen] at hexec
    refine ⟨_, Reactive.exec_cons (V2.step_running hpacket) hexec, ?_⟩
    · rw [destinations_append, hdest, resets_cons]
      split <;> rfl

/-! ## The two versions together -/

/-- On these captures, both versions run to the end, version 3 calls `do_route` for what version 2
calls it for without the later repeats, and its list holds exactly those destinations, each once. -/
def Agree (p : InetPton) (conf : Config) (conf2 : V2.Config) (is is2 : Capture) : Prop :=
  ∃ s es s2 es2, Reactive.exec (step p) { status := .running, conf } (feed is) = some (s, es) ∧
    Reactive.exec (V2.step p conf2) { status := .running, total := 0 } (feed is2) = some (s2, es2) ∧
    destinations es = (destinations es2).eraseDups ∧
    s.conf.counter = s.conf.texts.length ∧ s.conf.texts.Nodup ∧
    s.conf.texts.map (fun text => (readAddr p text zeroAddr).2) = destinations es

/-- **Version 3 routes what version 2 routes, once.** Whatever the packets, as long as they can be
counted in an `int`. -/
theorem versions_agree (hp : Recovers p) (ifaceId netlinkFlags : Int) (conf2 : V2.Config) {is is2 : Capture}
    (hsame : is.map Prod.fst = is2.map Prod.fst) (hok : ∀ i ∈ is, i.2.Ok) (hok2 : ∀ i ∈ is2, i.2.Ok)
    (hbound : (is.length : Int) ≤ INT_MAX) : Agree p (start ifaceId netlinkFlags) conf2 is is2 := by
  have hresets : ∀ js : Capture, resets js =
      (js.map Prod.fst).filterMap fun mem => if Passes mem then some (sourceAt mem) else none := by
    intro js
    rw [List.filterMap_map]
    rfl
  have hlen : is2.length = is.length := by simpa using (congrArg List.length hsame).symm
  have hle : (resets is).length ≤ is.length := List.length_filterMap_le _ _
  have hempty : (start ifaceId netlinkFlags).texts = ([] : List InAddr).map inetNtoa := rfl
  obtain ⟨conf', es, hexec, htexts, hdest⟩ := exec_v3 hp (start ifaceId netlinkFlags) is hempty hok
    (by rw [List.length_nil, Nat.zero_add]; omega)
  obtain ⟨es2, hexec2, hdest2⟩ := exec_v2 hp conf2 is2 (Int.le_refl 0) hok2 (by omega)
  rw [List.nil_append] at htexts
  refine ⟨_, es, _, es2, hexec, hexec2, ?_, conf'.counter_texts, ?_, ?_⟩
  · have hmap := firsts_map routeTo_injective [] (resets is)
    rw [hdest, hdest2, hresets is2, ← hsame, ← hresets is, ← firsts_nil_left, ← hmap]
    rfl
  · rw [htexts]
    exact (nodup_append_firsts List.nodup_nil (resets is)).map inetNtoa_injective
  · rw [hdest, htexts, List.map_map]
    apply List.map_congr_left
    intro x _
    rw [Function.comp_apply, readAddr_ntoa hp]

/-! ### Samples -/

/-- The IPv4 half of the real `inet_pton`. -/
def dottedPton : InetPton where
  v4 text := (inetPton4 text).map fun x => ⟨x.bytes, x.length_bytes⟩
  v6 _ := none

theorem dottedPton_recovers : Recovers dottedPton := by
  intro x
  simp only [dottedPton, inetPton4_ntoa, Option.map_some]

def okAnswer : Answer := { malloc := true, sock := 3, request := zeroRequest, send := 4124 }

theorem okAnswer_ok : okAnswer.Ok := ⟨rfl, by decide, by decide⟩

/-- A frame, followed by zeros. -/
def padded (frame : List UInt8) : Nat → UInt8 := fun i => frame.getD i 0

/-- A reset from port 443 of 10.0.0.1. -/
def resetFrame : List UInt8 :=
  [0, 0, 0, 0, 0, 0, 0, 0, 0, 0, 0, 0, 8, 0,
   0x45, 0, 0, 40, 0, 0, 0, 0, 64, 6, 0, 0, 10, 0, 0, 1, 10, 0, 0, 2,
   1, 187, 192, 0, 0, 0, 0, 0, 0, 0, 0, 0, 0x50, 20, 0, 0, 0, 0, 0, 0]

/-- The same packet twice. -/
theorem versions_agree_repeated :
    Agree dottedPton (start 3 0x400) ⟨3, 0x600⟩ [(padded resetFrame, okAnswer), (padded resetFrame, okAnswer)]
      [(padded resetFrame, okAnswer), (padded resetFrame, okAnswer)] :=
  versions_agree dottedPton_recovers 3 0x400 ⟨3, 0x600⟩ rfl (by simp [okAnswer_ok]) (by simp [okAnswer_ok])
    (by decide)

/-- **Too many packets for an `int`**: behind 2147483647 others a reset makes version 3 route, but
`++total` of version 2 overflows. -/
theorem versions_disagree :
    ¬ ∀ (p : InetPton), Recovers p → ∀ (ifaceId netlinkFlags : Int) (conf2 : V2.Config) (is is2 : Capture),
      is.map Prod.fst = is2.map Prod.fst → (∀ i ∈ is, i.2.Ok) → (∀ i ∈ is2, i.2.Ok) →
      Agree p (start ifaceId netlinkFlags) conf2 is is2 := by
  intro hclaim
  have hzero : ¬ Passes (padded []) := by decide
  have hreset : Passes (padded resetFrame) := by decide
  generalize hidle : List.replicate 2147483647 (padded [], okAnswer) = idle at *
  have hidleLen : idle.length = 2147483647 := by rw [← hidle, List.length_replicate]
  have hidleOk : ∀ i ∈ idle, i = (padded [], okAnswer) := by
    rw [← hidle]
    exact fun i hi => List.eq_of_mem_replicate hi
  clear hidle
  have hidleResets : resets idle = [] := by
    refine List.filterMap_eq_nil_iff.2 ?_
    intro i hi
    rw [hidleOk i hi, if_neg hzero]
  have hresets : resets (idle ++ [(padded resetFrame, okAnswer)]) = [sourceAt (padded resetFrame)] := by
    rw [resets_append, hidleResets, resets_cons, if_pos hreset]
    rfl
  have hok : ∀ i ∈ idle ++ [(padded resetFrame, okAnswer)], i.2.Ok := by
    intro i hi
    rcases List.mem_append.1 hi with hi | hi
    · rw [hidleOk i hi]; exact okAnswer_ok
    · rw [List.mem_singleton.1 hi]; exact okAnswer_ok
  obtain ⟨s, es, s2, es2, hexec, hexec2, hdest, -⟩ := hclaim dottedPton dottedPton_recovers 3 0x400 ⟨3, 0x600⟩
    (idle ++ [(padded resetFrame, okAnswer)]) (idle ++ [(padded resetFrame, okAnswer)]) rfl hok hok
  -- version 3 gets to the reset and routes it
  obtain ⟨conf', es', hexec', -, hdest'⟩ := exec_v3 dottedPton_recovers (start 3 0x400)
    (idle ++ [(padded resetFrame, okAnswer)]) (show _ = [].map inetNtoa from rfl) hok
    (by rw [hresets]; decide)
  rw [hexec] at hexec'
  cases hexec'
  -- version 2 counts to `INT_MAX`, and is undefined on the reset
  obtain ⟨es1, hexec1, hdest1⟩ := exec_v2 dottedPton_recovers ⟨3, 0x600⟩ idle (Int.le_refl 0)
    (fun i hi => hok i (List.mem_append_left _ hi)) (by rw [hidleLen]; decide)
  have hlast : Reactive.exec (V2.step dottedPton ⟨3, 0x600⟩) { status := .running, total := 0 + (idle.length : Nat) }
      (feed [(padded resetFrame, okAnswer)]) = some ({ status := .undefined, total := 2147483647 }, []) := by
    rw [hidleLen]
    rfl
  have hall := Reactive.exec_append hexec1 hlast
  rw [← feed_append, hexec2] at hall
  cases hall
  rw [hdest', hresets, destinations_append, hdest1, hidleResets] at hdest
  exact absurd hdest (by decide)

end CHell.Sniffer
