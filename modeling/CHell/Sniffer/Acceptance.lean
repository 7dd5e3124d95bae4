import CHell.Sniffer.Versions

/-!
# Which packets version 3 acts on, and where it writes

The callback looks at three fields only (`Passes`). It does not ask whether the frame is IPv4 at
all, which `network/net-cap-v3.c` does, nor whether the header length is a possible one, which
`network/net-cap-v4.c` does: `onlyResets_iff` says what has to hold besides for a packet that passes
to be a reset of port 443. And the list it keeps has no room: `start` asks `calloc` for no cell and
`record` asks `malloc` for as many bytes as there are entries, so that a run stays inside its
allocations exactly if no packet passes (`accesses_iff`).
-/

namespace CHell.Sniffer

open CInt Inet Netlink

variable {p : InetPton} {conf : Config} {mem : Nat → UInt8} {frame : List UInt8}

/-! ## Resets of port 443 -/

/-- The packet memory starts with the captured frame. -/
def Captures (mem : Nat → UInt8) (frame : List UInt8) : Prop := ∀ i (h : i < frame.length), mem i = frame[i]

/-- The bytes captured, as a packet. -/
def captured (frame : List UInt8) : Packet := fun i => frame[i]?

/-- Ethernet type 0x0800, IP version 4, header length at least 5, protocol TCP, one port 443 and
the flags RST and ACK in the TCP header behind the IP header. -/
def IsReset (frame : List UInt8) : Prop :=
  frame[12]? = some 0x08 ∧ frame[13]? = some 0x00 ∧
  ∃ b, frame[14]? = some b ∧ b.toNat / 16 = 4 ∧ 5 ≤ b.toNat % 16 ∧ frame[23]? = some 6 ∧
    (readPort (captured frame) (14 + b.toNat % 16 * 4) = some 443 ∨
      readPort (captured frame) (14 + b.toNat % 16 * 4 + 2) = some 443) ∧
    frame[14 + b.toNat % 16 * 4 + 13]? = some 20

/-- On this frame the callback records an address or calls `do_route` only if the frame is a reset,
and then what it records is the frame's source address. -/
def OnlyResets (p : InetPton) (conf : Config) (mem : Nat → UInt8) (frame : List UInt8) : Prop :=
  ∀ a, ∀ e ∈ (pktHdr p conf (whole mem) a).2.2,
    (∀ size text, e = .strcpy size text →
      IsReset frame ∧ ∃ source, readAddr4 (captured frame) 26 = some source ∧ text = inetNtoa source) ∧
    (∀ flags dst ifIdx, e = .doRoute flags dst ifIdx → IsReset frame)

/-- What the callback leaves unchecked: the Ethernet type, the IP version, the header length, and
that the flags byte was captured. -/
def Unchecked (mem : Nat → UInt8) (frame : List UInt8) : Prop :=
  frame[12]? = some 0x08 ∧ frame[13]? = some 0x00 ∧ (mem 14).toNat / 16 = 4 ∧ 5 ≤ (mem 14).toNat % 16 ∧
    tcpAt mem + 13 < frame.length

theorem Captures.getElem? (h : Captures mem frame) {i : Nat} (hi : i < frame.length) :
    frame[i]? = some (mem i) := by
  rw [List.getElem?_eq_getElem hi, h i hi]

theorem Captures.eq_of_getElem? (h : Captures mem frame) {i : Nat} {b : UInt8} (hb : frame[i]? = some b) :
    mem i = b ∧ i < frame.length := by
  obtain ⟨hi, rfl⟩ := List.getElem?_eq_some_iff.1 hb
  exact ⟨h i hi, hi⟩

theorem Captures.readPort (h : Captures mem frame) {off : Nat} (hoff : off + 1 < frame.length) :
    Sniffer.readPort (captured frame) off = some (portAt mem off) := by
  unfold Sniffer.readPort captured
  rw [h.getElem? (by omega), h.getElem? hoff]
  rfl

theorem Captures.readAddr4 (h : Captures mem frame) (hlen : 30 ≤ frame.length) :
    Sniffer.readAddr4 (captured frame) 26 = some (sourceAt mem) := by
  unfold Sniffer.readAddr4 captured
  rw [h.getElem? (by omega), h.getElem? (by omega), h.getElem? (by omega), h.getElem? (by omega)]
  rfl

theorem IsReset.unchecked (hcap : Captures mem frame) (h : IsReset frame) : Unchecked mem frame := by
  obtain ⟨h12, h13, b, h14, hversion, hihl, -, -, hflags⟩ := h
  obtain ⟨rfl, -⟩ := hcap.eq_of_getElem? h14
  exact ⟨h12, h13, hversion, hihl, (hcap.eq_of_getElem? hflags).2⟩

theorem isReset_of_unchecked (hcap : Captures mem frame) (h : Passes mem) (hrest : Unchecked mem frame) :
    IsReset frame ∧ 30 ≤ frame.length := by
  obtain ⟨hprotocol, h443, hflags⟩ := h
  obtain ⟨h12, h13, hversion, hihl, hlen⟩ := hrest
  have htcp : tcpAt mem = 14 + (mem 14).toNat % 16 * 4 := rfl
  have hflags' : mem (tcpAt mem + 13) = 20 := UInt8.toNat_inj.1 hflags
  rw [htcp] at hlen h443 hflags'
  refine ⟨⟨h12, h13, mem 14, hcap.getElem? (by omega), hversion, hihl, ?_, ?_, ?_⟩, by omega⟩
  · rw [hcap.getElem? (by omega)]
    exact congrArg some hprotocol
  · rcases h443 with h443 | h443
    · exact Or.inl (by rw [hcap.readPort (by omega), h443])
    · exact Or.inr (by rw [hcap.readPort (by omega), h443])
  · rw [hcap.getElem? hlen, hflags']

/-- On a new packet that passes, nothing less than the rest of the checks will do. -/
theorem OnlyResets.unchecked (hcap : Captures mem frame) (h : OnlyResets p conf mem frame) (hpasses : Passes mem)
    (hnew : inetNtoa (sourceAt mem) ∉ conf.texts) : Unchecked mem frame := by
  obtain ⟨es, hes, -⟩ := pktHdr_unlisted (p := p)
    (a := { malloc := true, sock := -1, request := zeroRequest, send := 0 }) hpasses hnew
  have hmem : Event.strcpy (toSize conf.counter).toNat (inetNtoa (sourceAt mem)) ∈
      (pktHdr p conf (whole mem) { malloc := true, sock := -1, request := zeroRequest, send := 0 }).2.2 := by
    rw [hes, record_events]
    simp [recordEvents]
  exact ((h _ _ hmem).1 _ _ rfl).1.unchecked hcap

/-- **Which frames are handled as they should be**: those on which the callback does not act because
a test fails or the source is listed, and those that hold up to what is not checked. -/
theorem onlyResets_iff (p : InetPton) (conf : Config) (hcap : Captures mem frame) :
    OnlyResets p conf mem frame ↔
      (Passes mem → inetNtoa (sourceAt mem) ∉ conf.texts → Unchecked mem frame) := by
  constructor
  · intro h hpasses hnew
    exact h.unchecked hcap hpasses hnew
  · intro h a e he
    obtain ⟨hpasses, ⟨k, rfl⟩ | ⟨hnew, hact⟩⟩ := pktHdr_effect he
    · exact ⟨by simp, by simp⟩
    · obtain ⟨hreset, hlen⟩ := isReset_of_unchecked hcap hpasses (h hpasses hnew)
      rcases hact with ⟨size, rfl⟩ | ⟨flags, dst, ifIdx, rfl⟩
      · refine ⟨fun size' text htext => ⟨hreset, sourceAt mem, hcap.readAddr4 hlen, ?_⟩, by simp⟩
        cases htext
        rfl
      · exact ⟨by simp, fun _ _ _ _ => hreset⟩

theorem captures_padded (frame : List UInt8) : Captures (padded frame) frame := by
  intro i hi
  simp [padded, hi]

theorem onlyResets_sample : OnlyResets dottedPton (start 3 0x400) (padded resetFrame) resetFrame :=
  (onlyResets_iff dottedPton (start 3 0x400) (captures_padded resetFrame)).2 fun _ _ => by
    refine ⟨rfl, rfl, ?_, ?_, ?_⟩ <;> decide

/-- An IPv6 packet from 2006:0:14::1, with flow label 443 and no next header. -/
def ipv6Frame : List UInt8 :=
  [0, 0, 0, 0, 0, 0, 0, 0, 0, 0, 0, 0, 0x86, 0xdd,
   0x60, 0, 0x01, 0xbb, 0, 0, 59, 64,
   0x20, 0x06, 0, 0, 0, 20, 0, 0, 0, 0, 0, 0, 0, 0, 0, 1,
   0x20, 0x01, 0x0d, 0xb8, 0, 0, 0, 0, 0, 0, 0, 0, 0, 0, 0, 2]

/-- **An IPv6 packet is taken for a reset.** -/
theorem onlyResets_ipv6 :
    ¬ ∀ (p : InetPton) (conf : Config) (mem : Nat → UInt8) (frame : List UInt8),
      Captures mem frame → OnlyResets p conf mem frame := by
  intro hclaim
  have hcap := captures_padded ipv6Frame
  have hunchecked := (hclaim dottedPton (start 3 0x400) (padded ipv6Frame) ipv6Frame hcap).unchecked hcap
    (by decide) (by simp [start, Config.texts])
  exact absurd hunchecked.1 (by decide)

/-! ## The allocations -/

/-- The access stays inside what was asked for. -/
def InBounds : Event → Prop
  | .slot i => i < BLOCKED_SLOTS
  | .strcpy size text => text.length + 1 ≤ size
  | .doRoute _ _ _ => True

/-- A packet that passes makes an access to a cell, and there is none. -/
theorem not_inBounds_of_passes (p : InetPton) (conf : Config) (a : Answer) (h : Passes mem) :
    ∃ e ∈ (pktHdr p conf (whole mem) a).2.2, ¬ InBounds e := by
  suffices hslot : ∃ k, Event.slot k ∈ (pktHdr p conf (whole mem) a).2.2 by
    obtain ⟨k, hk⟩ := hslot
    exact ⟨_, hk, Nat.not_lt_zero k⟩
  by_cases hlisted : inetNtoa (sourceAt mem) ∈ conf.texts
  · have hne : conf.blocked ≠ [] := by
      rintro hnil
      simp [Config.texts, hnil] at hlisted
    rw [pktHdr_listed h hlisted]
    exact ⟨0, (isNewLoop_snd 0 conf.blocked).2 hne⟩
  · obtain ⟨es, hes, -⟩ := pktHdr_unlisted (p := p) (a := a) h hlisted
    rw [hes, record_events]
    refine ⟨conf.counter.toNat, ?_⟩
    cases a.malloc <;> simp [recordEvents]

theorem accesses_of_exec {is : Capture} {s s' : State} {es : List Event}
    (hrun : Reactive.exec (step p) s (feed is) = some (s', es)) :
    (∀ e ∈ es, InBounds e) ↔ ∀ i ∈ is, ¬ Passes i.1 := by
  induction is generalizing s s' es with
  | nil =>
    cases hrun
    simp
  | cons i is ih =>
    rw [feed, List.map_cons] at hrun
    obtain ⟨s1, es1, es2, hstep, hrest, rfl⟩ := Reactive.exec_cons_eq_some.1 hrun
    have hes1 : es1 = (pktHdr p s.conf (whole i.1) i.2).2.2 := by
      unfold step at hstep
      split at hstep
      · exact (Prod.mk.inj (Option.some.inj hstep)).2.symm
      · cases hstep
    have hhead : (∀ e ∈ es1, InBounds e) ↔ ¬ Passes i.1 := by
      constructor
      · intro hall hpasses
        obtain ⟨e, he, hout⟩ := not_inBounds_of_passes p s.conf i.2 hpasses
        exact hout (hall e (hes1 ▸ he))
      · intro hrejected e he
        rw [hes1, pktHdr_rejected hrejected] at he
        cases he
    simp only [List.forall_mem_append, List.forall_mem_cons, hhead, ih hrest]

/-- **Which runs stay inside the allocations**: those in which no packet passes the tests. -/
theorem accesses_iff (p : InetPton) (ifaceId netlinkFlags : Int) (is : Capture) {s : State}
    {es : List Event}
    (hrun : Reactive.exec (step p) { status := .running, conf := start ifaceId netlinkFlags } (feed is) =
      some (s, es)) :
    (∀ e ∈ es, InBounds e) ↔ ∀ i ∈ is, ¬ Passes i.1 := accesses_of_exec hrun

/-- A packet without a protocol, and then a reset. -/
theorem accesses_sample : ∃ s es,
    Reactive.exec (step dottedPton) { status := .running, conf := start 3 0x400 }
      (feed [(padded [], okAnswer), (padded resetFrame, okAnswer)]) = some (s, es) ∧
    ¬ ∀ e ∈ es, InBounds e := by
  rcases hpacket : pktHdr dottedPton (start 3 0x400) (whole (padded resetFrame)) okAnswer with ⟨status, conf', es⟩
  have hfirst : pktHdr dottedPton (start 3 0x400) (whole (padded [])) okAnswer = (.running, start 3 0x400, []) :=
    pktHdr_rejected (by decide)
  have hrun := Reactive.exec_cons (step_running hfirst) (Reactive.exec_singleton (step_running hpacket))
  refine ⟨_, _, hrun, ?_⟩
  intro hall
  have hnone := (accesses_iff dottedPton 3 0x400 [(padded [], okAnswer), (padded resetFrame, okAnswer)] hrun).1 hall
  exact hnone (padded resetFrame, okAnswer) (by simp) (by decide)

/-- **The first reset is recorded where there is no cell.** -/
theorem accesses_out_of_bounds :
    ¬ ∀ (p : InetPton) (ifaceId netlinkFlags : Int) (is : Capture) (s : State) (es : List Event),
      Reactive.exec (step p) { status := .running, conf := start ifaceId netlinkFlags } (feed is) = some (s, es) →
      ∀ e ∈ es, InBounds e := by
  intro hclaim
  obtain ⟨e, he, hout⟩ := not_inBounds_of_passes dottedPton (start 3 0x400) okAnswer
    (show Passes (padded resetFrame) by decide)
  rcases hpacket : pktHdr dottedPton (start 3 0x400) (whole (padded resetFrame)) okAnswer with ⟨status, conf', es⟩
  rw [hpacket] at he
  have hrun := Reactive.exec_singleton (step_running hpacket)
  exact hout (hclaim dottedPton 3 0x400 [(padded resetFrame, okAnswer)] _ _ hrun e he)

end CHell.Sniffer
