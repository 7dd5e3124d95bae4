import CHell.Sniffer.Block
import CHell.Netlink.RouteMessage

/-!
# What one packet does

`pktHdr` on a packet whose every byte can be read: nothing if a test fails (`pktHdr_rejected`), a
search if the source is listed (`pktHdr_listed`), and a new entry and a route otherwise
(`pktHdr_new`). `pktHdr_effect` bounds what any packet can do, whatever the calls answer.
-/

namespace CHell.Sniffer

open CInt Inet Netlink

variable {p : InetPton} {conf : Config} {mem : Nat → UInt8} {a : Answer} {src : List UInt8} {x : InAddr}

/-- A packet whose every byte can be read. -/
def whole (mem : Nat → UInt8) : Packet := fun i => some (mem i)

/-- The texts in the list. -/
def Config.texts (conf : Config) : List (List UInt8) := conf.blocked.map Slot.text

theorem Config.counter_texts (conf : Config) : conf.counter = conf.texts.length := by
  rw [conf.counter_eq, Config.texts, List.length_map]

theorem destinations_append (es es' : List Event) :
    destinations (es ++ es') = destinations es ++ destinations es' := List.filterMap_append

/-! ## The search -/

theorem isNewLoop_fst (i : Nat) (xs : List Slot) :
    (isNewLoop src i xs).1 = if src ∈ xs.map Slot.text then -1 else 0 := by
  induction xs generalizing i with
  | nil => rfl
  | cons x xs ih =>
    rw [isNewLoop]
    by_cases hx : x.text = src
    · rw [if_pos hx, if_pos (by simp [hx])]
    · have hiff : src ∈ (x :: xs).map Slot.text ↔ src ∈ xs.map Slot.text := by simp [Ne.symm hx]
      simp only [if_neg hx, ih, hiff]

/-- The search only reads cells of the list, the first one of a non-empty list among them. -/
theorem isNewLoop_snd (i : Nat) (xs : List Slot) :
    (∀ e ∈ (isNewLoop src i xs).2, ∃ k < i + xs.length, e = .slot k) ∧
      (xs ≠ [] → .slot i ∈ (isNewLoop src i xs).2) := by
  induction xs generalizing i with
  | nil => simp [isNewLoop]
  | cons x xs ih =>
    rw [isNewLoop]
    split
    · simp
    · refine ⟨?_, fun _ => List.mem_cons_self⟩
      intro e he
      rcases List.mem_cons.1 he with rfl | he
      · exact ⟨i, by simp, rfl⟩
      · obtain ⟨k, hk, rfl⟩ := (ih (i + 1)).1 e he
        exact ⟨k, by rw [List.length_cons]; omega, rfl⟩

theorem slot_of_isNew {e : Event} (he : e ∈ (isNew conf src).2) : ∃ k < conf.texts.length, e = .slot k := by
  obtain ⟨k, hk, rfl⟩ := (isNewLoop_snd 0 conf.blocked).1 e he
  exact ⟨k, by simpa [Config.texts] using hk, rfl⟩

theorem isNew_fst : (isNew conf src).1 = if src ∈ conf.texts then -1 else 0 := isNewLoop_fst 0 conf.blocked

theorem destinations_isNew : destinations (isNew conf src).2 = [] := by
  refine List.filterMap_eq_nil_iff.2 ?_
  intro e he
  obtain ⟨k, -, rfl⟩ := slot_of_isNew he
  rfl

/-! ## The entry and the route -/

/-- The events of `record`. -/
def recordEvents (conf : Config) (text : List UInt8) : List Event :=
  [.slot conf.counter.toNat, .slot conf.counter.toNat, .strcpy (toSize conf.counter).toNat text]

theorem record_events (text : List UInt8) (malloc : Bool) :
    (record conf text malloc).2.2 = if malloc then recordEvents conf text else [.slot conf.counter.toNat] := by
  cases malloc with
  | false => rfl
  | true =>
    unfold record
    rw [if_neg (by decide)]
    split <;> rfl

theorem record_ok (text : List UInt8) (hcounter : conf.counter < INT_MAX) :
    ∃ conf', record conf text true = (.running, conf', recordEvents conf text) ∧
      conf'.texts = conf.texts ++ [text] ∧ conf'.netlinkFlags = conf.netlinkFlags ∧
      conf'.ifaceId = conf.ifaceId := by
  have hnext : addInt conf.counter 1 = some (conf.counter + 1) := by
    have hlen := conf.counter_eq
    unfold INT_MAX at hcounter
    exact addInt_eq_some.2 ⟨rfl, by omega, by omega⟩
  unfold record
  rw [if_neg (by decide)]
  split
  · rename_i hnone
    rw [hnone] at hnext
    cases hnext
  · exact ⟨_, rfl, by simp [Config.texts], rfl, rfl⟩

/-- What `read_addr` makes of the text of an address. -/
def routeTo (x : InAddr) : InetAddr where
  family := AF_INET
  bitlen := 32
  data := x.bytes ++ List.replicate 12 0
  data_length := by simp

theorem routeTo_injective : Function.Injective routeTo := by
  intro x y h
  have hdata : x.bytes ++ List.replicate 12 (0 : UInt8) = y.bytes ++ List.replicate 12 0 :=
    congrArg InetAddr.data h
  have hbytes := List.append_cancel_right hdata
  cases x
  cases y
  simpa [InAddr.bytes] using hbytes

/-- `inet_pton` reads the texts of `inet_ntoa`. -/
def Recovers (p : InetPton) : Prop := ∀ x : InAddr, p.v4 (inetNtoa x) = some ⟨x.bytes, x.length_bytes⟩

theorem readAddr_ntoa (hp : Recovers p) (x : InAddr) : readAddr p (inetNtoa x) zeroAddr = (1, routeTo x) := by
  have hcolon := colon_notMem_inetNtoa x
  have hcall : p.call AF_INET (inetNtoa x) = (1, x.bytes) := by
    unfold InetPton.call
    rw [if_pos rfl, hp x]
  have hfamily : toChar (AF_INET : Int) = AF_INET := rfl
  unfold readAddr
  simp only [if_neg hcolon, hfamily, hcall]
  rfl

/-- All calls a packet can lead to succeed. -/
structure Answer.Ok (a : Answer) : Prop where
  malloc : a.malloc = true
  sock : 0 ≤ a.sock
  send : a.send ≠ -1

theorem reroute_ok (hp : Recovers p) (ha : a.Ok) :
    reroute p conf (inetNtoa x) a = (.running, [.doRoute conf.netlinkFlags (routeTo x) conf.ifaceId]) := by
  obtain ⟨m, hm, -⟩ := doRoute_v4 (routeTo x) a.request conf.netlinkFlags conf.ifaceId rfl rfl
  have hsock : ¬ a.sock < 0 := by have := ha.sock; omega
  unfold reroute
  simp only [readAddr_ntoa hp, if_neg hsock, hm, if_neg ha.send]
  rfl

theorem V2.reroute_ok {conf : V2.Config} (hp : Recovers p) (ha : a.Ok) :
    V2.reroute p conf (inetNtoa x) a = (.running, [.doRoute conf.netlinkFlags (routeTo x) conf.ifaceId]) := by
  obtain ⟨m, hm, -⟩ := doRoute_v4 (routeTo x) a.request conf.netlinkFlags conf.ifaceId rfl rfl
  have hsock : ¬ a.sock < 0 := by have := ha.sock; omega
  unfold V2.reroute
  simp only [readAddr_ntoa hp, if_neg hsock, hm]

/-- The route goes to at most one destination and touches no entry. -/
theorem reroute_events {text : List UInt8} {e : Event} (he : e ∈ (reroute p conf text a).2) :
    ∃ flags dst ifIdx, e = .doRoute flags dst ifIdx := by
  unfold reroute at he
  split at he
  · cases he
  · simp only at he
    split at he
    · cases he
    · split at he <;> exact ⟨_, _, _, List.mem_singleton.1 he⟩

/-! ## One packet -/

theorem pktHdr_rejected (h : ¬ Passes mem) : pktHdr p conf (whole mem) a = (.running, conf, []) := by
  have htests := resetSource_total mem false
  rw [if_neg h] at htests
  unfold pktHdr whole
  rw [htests]

theorem pktHdr_listed (h : Passes mem) (hlisted : inetNtoa (sourceAt mem) ∈ conf.texts) :
    pktHdr p conf (whole mem) a = (.running, conf, (isNew conf (inetNtoa (sourceAt mem))).2) := by
  have htests := resetSource_total mem false
  rw [if_pos h] at htests
  unfold pktHdr whole
  simp only [htests, isNew_fst, if_pos hlisted]
  rfl

theorem pktHdr_new (hp : Recovers p) (ha : a.Ok) (hcounter : conf.counter < INT_MAX) (h : Passes mem)
    (hnew : inetNtoa (sourceAt mem) ∉ conf.texts) :
    ∃ conf', pktHdr p conf (whole mem) a = (.running, conf',
        (isNew conf (inetNtoa (sourceAt mem))).2 ++ recordEvents conf (inetNtoa (sourceAt mem)) ++
          [.doRoute conf.netlinkFlags (routeTo (sourceAt mem)) conf.ifaceId]) ∧
      conf'.texts = conf.texts ++ [inetNtoa (sourceAt mem)] := by
  have htests := resetSource_total mem false
  rw [if_pos h] at htests
  obtain ⟨conf', hrecord, htexts, hflags, hiface⟩ := record_ok (inetNtoa (sourceAt mem)) hcounter
  refine ⟨conf', ?_, htexts⟩
  unfold pktHdr whole
  simp only [htests, isNew_fst, if_neg hnew, ha.malloc, hrecord, reroute_ok hp ha, hflags, hiface]
  rfl

/-- The events of a packet whose source is not listed, whatever the calls answer. -/
theorem pktHdr_unlisted (h : Passes mem) (hnew : inetNtoa (sourceAt mem) ∉ conf.texts) :
    ∃ es, (pktHdr p conf (whole mem) a).2.2 = (isNew conf (inetNtoa (sourceAt mem))).2 ++
        (record conf (inetNtoa (sourceAt mem)) a.malloc).2.2 ++ es ∧
      ∀ e ∈ es, ∃ flags dst ifIdx, e = .doRoute flags dst ifIdx := by
  have htests := resetSource_total mem false
  have hsearch : ¬ (if inetNtoa (sourceAt mem) ∈ conf.texts then (-1 : Int) else 0) = -1 := by
    rw [if_neg hnew]; decide
  rw [if_pos h] at htests
  unfold pktHdr whole
  simp only [htests, isNew_fst, if_neg hsearch]
  rcases record conf (inetNtoa (sourceAt mem)) a.malloc with ⟨status, conf', es⟩
  cases status with
  | running => exact ⟨_, rfl, fun e he => reroute_events he⟩
  | exited => exact ⟨[], by simp, by simp⟩
  | undefined => exact ⟨[], by simp, by simp⟩

/-- **What a packet can do at all**: only one that passes the tests touches the list, only one that
is also new is recorded or routed, and what is recorded is its source. -/
theorem pktHdr_effect {e : Event} (he : e ∈ (pktHdr p conf (whole mem) a).2.2) :
    Passes mem ∧ ((∃ k, e = .slot k) ∨
      inetNtoa (sourceAt mem) ∉ conf.texts ∧
        ((∃ size, e = .strcpy size (inetNtoa (sourceAt mem))) ∨ ∃ flags dst ifIdx, e = .doRoute flags dst ifIdx)) := by
  by_cases h : Passes mem
  · refine ⟨h, ?_⟩
    by_cases hlisted : inetNtoa (sourceAt mem) ∈ conf.texts
    · rw [pktHdr_listed h hlisted] at he
      obtain ⟨k, -, rfl⟩ := slot_of_isNew he
      exact Or.inl ⟨k, rfl⟩
    · obtain ⟨es, hes, hroute⟩ := pktHdr_unlisted (p := p) (a := a) h hlisted
      rw [hes, record_events] at he
      rcases List.mem_append.1 he with he | he
      · rcases List.mem_append.1 he with he | he
        · obtain ⟨k, -, rfl⟩ := slot_of_isNew he
          exact Or.inl ⟨k, rfl⟩
        · split at he
          · simp only [recordEvents, List.mem_cons, List.not_mem_nil, or_false] at he
            rcases he with rfl | rfl | rfl
            · exact Or.inl ⟨_, rfl⟩
            · exact Or.inl ⟨_, rfl⟩
            · exact Or.inr ⟨hlisted, Or.inl ⟨_, rfl⟩⟩
          · exact Or.inl ⟨_, List.mem_singleton.1 he⟩
      · exact Or.inr ⟨hlisted, Or.inr (hroute e he)⟩
  · rw [pktHdr_rejected h] at he
    cases he

end CHell.Sniffer
