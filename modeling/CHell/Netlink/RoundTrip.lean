import CHell.Netlink.AttrWalk

/-!
# Written and read back

`route_add.c` writes attributes, `route_print.c` reads them: whatever sequence of `rtattr_add`
calls is made on a message, `parse_rtattr` finds for every type the last attribute of that type
that was accepted, and nothing for a type without one.
-/

namespace CHell.Netlink

open CInt Memory Records

/-! ## A sequence of calls -/

/-- Arguments of a call: `alen` is the length of `data`. -/
structure AddCall extends Attr where
  type_lt : type < 65536
  alen_le : (data.length : Int) ≤ INT_MAX

/-- A call that was made, where the message ended before it, and what it returned. -/
structure Logged where
  off : Nat
  call : AddCall
  ret : Int

/-- The calls one after the other on one message. -/
def rtattrAdds (maxlen : Nat) (m : Mem) : List AddCall → Option (Mem × List Logged)
  | [] => some (m, [])
  | c :: cs => do
    let nlmsg_len ← nlmsgLen m 0
    let (m', ret) ← rtattrAdd m maxlen c.type c.data c.data.length
    let (m'', log) ← rtattrAdds maxlen m' cs
    some (m'', { off := NLMSG_TAIL nlmsg_len, call := c, ret } :: log)

/-- The last call of type `t` that returned 0. -/
def lastAdded (t : Nat) (log : List Logged) : Option Logged :=
  (log.filter fun e => e.ret = 0 && e.call.type = t).getLast?

/-- The attributes the log says were added, where it says they were. -/
def accepted (log : List Logged) : List (Nat × Attr) :=
  (log.filter fun e => e.ret = 0).map fun e => (e.off, e.call.toAttr)

theorem lastOfType_accepted (t : Nat) (log : List Logged) :
    lastOfType t (accepted log) = (lastAdded t log).map fun e => (e.off, e.call.toAttr) := by
  unfold lastOfType accepted lastAdded
  rw [List.filter_map, List.getLast?_map, List.filter_filter]
  congr 3
  ext e
  simp [Bool.and_comm]

theorem rtattrAdds_cons {maxlen L : Nat} {m m' m'' : Mem} {c : AddCall} {cs : List AddCall} {ret : Int}
    {log : List Logged} (hmsg : nlmsgLen m 0 = some L)
    (hadd : rtattrAdd m maxlen c.type c.data c.data.length = some (m', ret))
    (hrest : rtattrAdds maxlen m' cs = some (m'', log)) :
    rtattrAdds maxlen m (c :: cs) = some (m'', { off := NLMSG_TAIL L, call := c, ret } :: log) := by
  refine Option.bind_eq_some_iff.2 ⟨L, hmsg, ?_⟩
  refine Option.bind_eq_some_iff.2 ⟨(m', ret), hadd, ?_⟩
  exact Option.bind_eq_some_iff.2 ⟨(m'', log), hrest, rfl⟩

/-- **Any sequence of calls** on a message that carries `xs`: it then carries `xs` and what the
log accepts, each where the log says, and each refused call was refused on a message it left alone. -/
theorem rtattrAdds_spec {maxlen : Nat} (hmax : maxlen < 65536) (cs : List AddCall) {m : Mem} {xs : List Attr}
    (h : Carries maxlen m xs) :
    ∃ m' log ys, rtattrAdds maxlen m cs = some (m', log) ∧ log.map Logged.call = cs ∧
      Carries maxlen m' (xs ++ ys) ∧
      accepted log = place 4 Attr.bytes (ATTRS + span 4 Attr.bytes xs) ys := by
  induction cs generalizing m xs with
  | nil => exact ⟨m, [], [], rfl, rfl, by simpa using h, rfl⟩
  | cons c cs ih =>
    have htail : NLMSG_TAIL (ATTRS + span 4 Attr.bytes xs) = ATTRS + span 4 Attr.bytes xs := by
      have hle := h.le
      have hmod := span_bytes_mod xs
      exact nlmsgTail_eq (by omega) (by unfold ATTRS; omega)
    rcases rtattrAdd_spec hmax h c.type_lt c.alen_le with ⟨-, hadd⟩ | ⟨-, m1, hadd, h1, -⟩
    · obtain ⟨m', log, ys, hrest, hcalls, hcarries, hplace⟩ := ih h
      refine ⟨m', { off := ATTRS + span 4 Attr.bytes xs, call := c, ret := -1 } :: log, ys, ?_, ?_,
        hcarries, ?_⟩
      · rw [rtattrAdds_cons h.msg hadd hrest, htail]
      · rw [List.map_cons, hcalls]
      · rw [← hplace]
        rfl
    · obtain ⟨m', log, ys, hrest, hcalls, hcarries, hplace⟩ := ih h1
      refine ⟨m', { off := ATTRS + span 4 Attr.bytes xs, call := c, ret := 0 } :: log, c.toAttr :: ys,
        ?_, ?_, ?_, ?_⟩
      · rw [rtattrAdds_cons h.msg hadd hrest, htail]
      · rw [List.map_cons, hcalls]
      · simpa using hcarries
      · rw [span_append, span_cons, span_nil, Nat.add_zero, ← Nat.add_assoc] at hplace
        rw [place, ← hplace]
        rfl

/-- A message with the headers of a route request and no attribute yet. -/
theorem carries_nil {maxlen : Nat} {m : Mem} (hlen : m.length = maxlen) (hmsg : nlmsgLen m 0 = some ATTRS)
    (hle : ATTRS ≤ maxlen) : Carries maxlen m [] :=
  ⟨hlen, hmsg, hle, trivial, by simp⟩

/-- What `parse_rtattr` with this `max` finds in the message: for every type up to `max` the
attribute written by the last call of that type that returned 0, `NULL` if there is none. -/
def ReadsBack (m : Mem) (log : List Logged) (nlmsg_len : Nat) (max : Int) : Prop :=
  ∃ tb, parseRtattr m max 28 ((nlmsg_len : Int) - 28) = some tb ∧
    ∀ t : Nat, (t : Int) ≤ max →
      (lastAdded t log = none → tb t = none) ∧
      ∀ e, lastAdded t log = some e →
        tb t = some e.off ∧ rtaLen m e.off = some (4 + e.call.data.length) ∧ rtaType m e.off = some t ∧
          slice m (RTA_DATA e.off) e.call.data.length = some e.call.data

/-- **Round trip.** From a message of 28 bytes in a buffer of 4124, after any calls of `rtattr_add`
the length is within the buffer and `parse_rtattr` reads back what the accepted calls wrote, for any
`max` below `INT_MAX`. A call that returns -1 leaves the message as it is. -/
theorem rtattr_round_trip {m₀ : Mem} (hlen : m₀.length = NL_REQUEST_SIZE)
    (hmsg : nlmsgLen m₀ 0 = some 28) (calls : List AddCall) :
    (∃ m log nlmsg_len, rtattrAdds NL_REQUEST_SIZE m₀ calls = some (m, log) ∧
      log.map Logged.call = calls ∧ nlmsgLen m 0 = some nlmsg_len ∧ nlmsg_len ≤ NL_REQUEST_SIZE ∧
      ∀ max, 0 ≤ max → max < INT_MAX → ReadsBack m log nlmsg_len max) ∧
    ∀ (m m' : Mem) (c : AddCall),
      rtattrAdd m NL_REQUEST_SIZE c.type c.data c.data.length = some (m', -1) → m' = m := by
  refine ⟨?_, fun m m' c h => rtattrAdd_unchanged h⟩
  have hsize : NL_REQUEST_SIZE < 65536 := by decide
  have hnil := carries_nil hlen hmsg (by decide)
  obtain ⟨m, log, ys, hrun, hcalls, hm, hplace⟩ := rtattrAdds_spec hsize calls hnil
  rw [List.nil_append] at hm
  refine ⟨m, log, _, hrun, hcalls, hm.msg, hm.le, ?_⟩
  intro max h0 hmax
  have hle := hm.le
  have hend : ((span 4 Attr.bytes ys : Nat) : Int) ≤ INT_MAX := by
    unfold INT_MAX
    omega
  have hparse := parseRtattr_laid hm.fits hm.laid (by rw [hm.length]; exact hle) hend h0 hmax
  have harea : ((ATTRS + span 4 Attr.bytes ys : Nat) : Int) - 28 = (span 4 Attr.bytes ys : Nat) := by
    unfold ATTRS
    omega
  rw [ReadsBack, harea]
  refine ⟨_, hparse, ?_⟩
  intro t ht
  have htb := foldl_enter (place 4 Attr.bytes ATTRS ys) ht
  rw [span_nil, Nat.add_zero] at hplace
  rw [← hplace, lastOfType_accepted] at htb
  refine ⟨?_, ?_⟩
  · intro hnone
    rw [← hplace, htb, hnone]
    rfl
  · intro e he
    rw [he, Option.map_some] at htb
    obtain ⟨hmem, hret⟩ := List.mem_filter.1 (List.mem_of_getLast? he)
    rw [Bool.and_eq_true, decide_eq_true_eq, decide_eq_true_eq] at hret
    have hp : (e.off, e.call.toAttr) ∈ place 4 Attr.bytes ATTRS ys := by
      rw [← hplace]
      exact List.mem_map.2 ⟨e, List.mem_filter.2 ⟨hmem, by simp [hret.1]⟩, rfl⟩
    have hfits := hm.fits _ (mem_of_mem_place hp)
    obtain ⟨hl, hty, hd⟩ := hfits.read (hm.laid.slice_of_mem hp)
    exact ⟨by rw [← hplace]; exact htb, hl, hret.2 ▸ hty, hd⟩

/-- A request whose headers are zero but for its length. -/
def bareRequest : Mem := toLE 4 28 ++ List.replicate 4120 0

theorem length_bareRequest : bareRequest.length = NL_REQUEST_SIZE := by
  rw [bareRequest, List.length_append, length_toLE, List.length_replicate]
  rfl

theorem nlmsgLen_bareRequest : nlmsgLen bareRequest 0 = some 28 :=
  load_eq_some.2 ⟨toLE 4 28, slice_front (toLE 4 28) _, rfl⟩

/-- A destination, an empty attribute of the same type, and an interface. -/
theorem rtattr_round_trip_sample :
    ∃ m log nlmsg_len, rtattrAdds NL_REQUEST_SIZE bareRequest
        [⟨⟨1, [10, 0, 0, 1]⟩, by decide, by decide⟩, ⟨⟨1, []⟩, by decide, by decide⟩,
         ⟨⟨4, [3, 0, 0, 0]⟩, by decide, by decide⟩] = some (m, log) ∧
      nlmsg_len ≤ NL_REQUEST_SIZE ∧ ReadsBack m log nlmsg_len 30 := by
  obtain ⟨⟨m, log, nlmsg_len, hrun, -, -, hle, hread⟩, -⟩ :=
    rtattr_round_trip length_bareRequest nlmsgLen_bareRequest
      [⟨⟨1, [10, 0, 0, 1]⟩, by decide, by decide⟩, ⟨⟨1, []⟩, by decide, by decide⟩,
       ⟨⟨4, [3, 0, 0, 0]⟩, by decide, by decide⟩]
  exact ⟨m, log, nlmsg_len, hrun, hle, hread 30 (by decide) (by decide)⟩

/-- With `max` at `INT_MAX` the size handed to `memset` overflows: there is no round trip, not even
of the empty sequence. -/
theorem rtattr_round_trip_int_max :
    ¬ ∀ (m₀ : Mem) (calls : List AddCall), m₀.length = NL_REQUEST_SIZE → nlmsgLen m₀ 0 = some 28 →
      ∃ m log nlmsg_len, rtattrAdds NL_REQUEST_SIZE m₀ calls = some (m, log) ∧
        nlmsgLen m 0 = some nlmsg_len ∧
        ∀ max, 0 ≤ max → max ≤ INT_MAX → ReadsBack m log nlmsg_len max := by
  intro h
  obtain ⟨m, log, nlmsg_len, -, -, hread⟩ := h bareRequest [] length_bareRequest nlmsgLen_bareRequest
  obtain ⟨tb, hparse, -⟩ := hread INT_MAX (by decide) (by decide)
  have hcount : addInt INT_MAX 1 = none := by decide
  rw [parseRtattr, hcount] at hparse
  cases hparse

end CHell.Netlink
