import CHell.Sniffer.Truncation

/-!
# The first version, `network/block_sniffer.c`

| here | there |
| --- | --- |
| `V1.report` | `pkt_hdr` behind `++total` (:31-52), what it prints |
| `V1.pktHdr` | `pkt_hdr` (:19-55) |

It prints a block of lines about every packet of port 443, and says of the source of a reset that it was blocked.
`V1.step` is one packet of `pcap_loop`. Where this version says that, the next one requests a route, packet by
packet, and neither is defined on a packet the other is not defined on (`versions_report`).
-/

namespace CHell.Sniffer

open CInt Inet Netlink

namespace V1

/-- One `printf`, with the values it is given. -/
inductive Line
  | separator
  | headerLength (dwords bytes : Nat)
  | sender (addr : InAddr) (port : Nat)
  | receiver (addr : InAddr) (port : Nat)
  | flag (pktflag : Nat)
  | window (n : Nat)
  | blocked (addr : InAddr) (port : Nat)
deriving DecidableEq

/-- What is said about a TCP packet, with its header at `tcph`. -/
def tcpReport (pkt : Packet) (source dest : InAddr) (tcph : Nat) : Option (List Line) := do
  let doff ← pkt (tcph + 12)
  if ← readIs443 pkt tcph then
    let pktflag ← pkt (tcph + 13)
    let source_port ← readPort pkt tcph
    let dest_port ← readPort pkt (tcph + 2)
    let window ← readPort pkt (tcph + 14)
    let lines := [.separator, .headerLength (doff.toNat / 16) (doff.toNat / 16 * 4), .sender source source_port,
      .receiver dest dest_port, .flag pktflag.toNat, .window window]
    some (if pktflag.toNat = 20 then lines ++ [.blocked source source_port] else lines)
  else some []

def report (pkt : Packet) : Option (List Line) := do
  let iphdrlen ← readIphdrlen pkt
  let source ← readAddr4 pkt (ETH_HLEN + 12)
  let dest ← readAddr4 pkt (ETH_HLEN + 16)
  let protocol ← pkt (ETH_HLEN + 9)
  if protocol = IPPROTO_TCP then tcpReport pkt source dest (ETH_HLEN + iphdrlen) else some []

def pktHdr (total : Int) (pkt : Packet) : Status × Int × List Line :=
  match addInt total 1 with
  | none => (.undefined, total, [])
  | some total =>
    match report pkt with
    | none => (.undefined, total, [])
    | some lines => (.running, total, lines)

structure State where
  status : Status
  total : Int

def step (s : State) (pkt : Packet) : Option (State × List Line) :=
  if s.status = .running then
    let r := pktHdr s.total pkt
    some ({ status := r.1, total := r.2.1 }, r.2.2)
  else none

/-- The addresses that were said to be blocked. -/
def blocked (lines : List Line) : List InAddr :=
  lines.filterMap fun l => match l with
    | .blocked addr _ => some addr
    | _ => none

theorem blocked_append (ls ls' : List Line) : blocked (ls ++ ls') = blocked ls ++ blocked ls' := List.filterMap_append

theorem tcpReport_captured (frame : List UInt8) (source dest : InAddr) (tcph : Nat) :
    (tcpReport (captured frame) source dest tcph).map blocked =
      (do
        let _doff ← captured frame (tcph + 12)
        if ← readIs443 (captured frame) tcph then
          let pktflag ← captured frame (tcph + 13)
          let _dest ← readPort (captured frame) (tcph + 2)
          let _window ← readPort (captured frame) (tcph + 14)
          if pktflag.toNat = 20 then some (some source) else some none
        else some none).map Option.toList := by
  unfold tcpReport
  rw [captured_eq]
  by_cases hdoff : tcph + 12 < frame.length
  · have hsource : readPort (captured frame) tcph = some (portAt (padded frame) tcph) := by
      rw [readPort_captured, if_pos (by omega)]
    have hdest : readPort (captured frame) (tcph + 2) = some (portAt (padded frame) (tcph + 2)) := by
      rw [readPort_captured, if_pos (by omega)]
    rw [if_pos hdoff]
    simp only [Option.bind_eq_bind, Option.bind_some, hsource, hdest]
    cases readIs443 (captured frame) tcph with
    | none => rfl
    | some is443 =>
      cases is443 with
      | false => rfl
      | true =>
        cases captured frame (tcph + 13) with
        | none => rfl
        | some pktflag =>
          cases readPort (captured frame) (tcph + 14) with
          | none => rfl
          | some window => by_cases hflag : pktflag.toNat = 20 <;> simp [hflag, blocked]
  · rw [if_neg hdoff]
    rfl

/-- **One packet**: it is read as in version 2, and the source version 2 finds is the one that is said to be blocked. -/
theorem report_captured (frame : List UInt8) :
    (report (captured frame)).map blocked = (resetSource true (captured frame)).map Option.toList := by
  unfold report resetSource
  cases readIphdrlen (captured frame) with
  | none => rfl
  | some iphdrlen =>
    cases readAddr4 (captured frame) (ETH_HLEN + 12) with
    | none => rfl
    | some source =>
      cases readAddr4 (captured frame) (ETH_HLEN + 16) with
      | none => rfl
      | some dest =>
        cases captured frame (ETH_HLEN + 9) with
        | none => rfl
        | some protocol =>
          by_cases hprotocol : protocol = IPPROTO_TCP
          · simp only [Option.bind_eq_bind, Option.bind_some, if_pos hprotocol]
            exact tcpReport_captured frame source dest (ETH_HLEN + iphdrlen)
          · simp [hprotocol, blocked]

end V1

variable {p : InetPton}

theorem pktHdr_report (hp : Recovers p) (conf : V2.Config) {a : Answer} (ha : a.Ok) (frame : List UInt8) (total : Int) :
    ∃ status total' lines es, V1.pktHdr total (captured frame) = (status, total', lines) ∧
      V2.pktHdr p conf total (captured frame) a = (status, total', es) ∧
      destinations es = (V1.blocked lines).map routeTo := by
  have hreport := V1.report_captured frame
  unfold V1.pktHdr V2.pktHdr
  cases addInt total 1 with
  | none => exact ⟨_, _, [], [], rfl, rfl, rfl⟩
  | some total' =>
    cases hlines : V1.report (captured frame) with
    | none =>
      rw [hlines] at hreport
      have hnone : resetSource true (captured frame) = none := Option.map_eq_none_iff.1 hreport.symm
      simp only [hnone]
      exact ⟨_, _, [], [], rfl, rfl, rfl⟩
    | some lines =>
      rw [hlines] at hreport
      obtain ⟨source, hsource, hblocked⟩ := Option.map_eq_some_iff.1 hreport.symm
      simp only [hsource]
      cases source with
      | none => exact ⟨_, _, lines, [], rfl, rfl, by rw [← hblocked]; rfl⟩
      | some source =>
        simp only [V2.reroute_ok hp ha]
        exact ⟨_, _, lines, _, rfl, rfl, by rw [← hblocked]; rfl⟩

/-- **Version 1 says what version 2 does.** For all captured frames, cut off anywhere: as long as the calls of version 2
succeed, both go through the same packets to the same status and the same count, and the routes version 2 asks for are
those to the addresses version 1 has said to be blocked, in this order. -/
theorem versions_report (hp : Recovers p) (conf : V2.Config) {is : List (List UInt8 × Answer)} (hok : ∀ i ∈ is, i.2.Ok)
    (total : Int) :
    Option.Rel (fun r r2 => (r.1.status = r2.1.status ∧ r.1.total = r2.1.total) ∧
        destinations r2.2 = (V1.blocked r.2).map routeTo)
      (Reactive.exec V1.step { status := .running, total } (is.map fun i => captured i.1))
      (Reactive.exec (V2.step p conf) { status := .running, total } (is.map fun i => (captured i.1, i.2))) := by
  refine Reactive.exec_lockstep (fun (s : V1.State) (s2 : V2.State) => s.status = s2.status ∧ s.total = s2.total)
    (fun ls es => destinations es = (V1.blocked ls).map routeTo) rfl ?_ ?_ ⟨rfl, rfl⟩
  · intro ls es ls' es' hs hs'
    rw [destinations_append, V1.blocked_append, List.map_append, hs, hs']
  · rintro ⟨frame, a⟩ hi ⟨status, total⟩ ⟨status2, total2⟩ ⟨rfl, rfl⟩
    obtain ⟨status', total', lines, es, h1, h2, hdest⟩ := pktHdr_report hp conf (hok _ hi) frame total
    unfold V1.step V2.step
    by_cases hrunning : status = .running
    · simp only [if_pos hrunning, h1, h2]
      exact .some ⟨⟨rfl, rfl⟩, hdest⟩
    · simp only [if_neg hrunning]
      exact .none

/-- A reset, and one that was cut off in front of the flags. -/
theorem versions_report_cut :
    Option.Rel (fun r r2 => (r.1.status = r2.1.status ∧ r.1.total = r2.1.total) ∧
        destinations r2.2 = (V1.blocked r.2).map routeTo)
      (Reactive.exec V1.step { status := .running, total := 0 }
        ([(resetFrame, okAnswer), (resetFrame.take 47, okAnswer)].map fun i => captured i.1))
      (Reactive.exec (V2.step dottedPton ⟨3, 0x600⟩) { status := .running, total := 0 }
        ([(resetFrame, okAnswer), (resetFrame.take 47, okAnswer)].map fun i => (captured i.1, i.2))) :=
  versions_report dottedPton_recovers ⟨3, 0x600⟩ (by simp [okAnswer_ok]) 0

end CHell.Sniffer
