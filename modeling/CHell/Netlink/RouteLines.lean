import CHell.Netlink.DumpBuffer
import CHell.Netlink.PrintRoute

/-!
# The lines under "Main routing table IPv4"

A call of `get_route_dump_response` on a datagram of route messages from the kernel, and the lines it
prints. A message has a line if its family is `AF_INET` *or* its table is the main one, where the
heading asks for both: `print_route` leaves out what is neither (`dump_lines_iff`).
-/

namespace CHell.Netlink

open CInt Memory Records Traced

/-- A payload is large enough for what `print_route` reads of an attribute of its type. -/
def Attr.PayloadSized (family : Nat) (y : Attr) : Prop :=
  (y.type = RTA_TABLE ∨ y.type = RTA_OIF → 4 ≤ y.data.length) ∧
    (y.type = RTA_DST ∨ y.type = RTA_GATEWAY ∨ y.type = RTA_SRC → ∀ n ∈ addrSize family, n ≤ y.data.length)

/-- A well-formed route message: an `rtmsg` and attributes, all with payloads of their size. -/
structure RouteMsg extends Msg where
  attrs : List Attr
  rtmsg_le : 28 ≤ bytes.length
  attributes : Attributes bytes 28 ((bytes.length : Int) - 28) attrs
  sized : ∀ y ∈ attrs, y.PayloadSized toMsg.family

namespace RouteMsg

/-- The message belongs under the heading. -/
def Selected (x : RouteMsg) : Prop :=
  x.family = AF_INET ∧ x.table x.attrs = RT_TABLE_MAIN ∧ x.DstShown x.attrs

instance : DecidablePred Selected := fun _ => inferInstanceAs (Decidable (_ ∧ _ ∧ _))

end RouteMsg

/-- What one call of `print_route` prints. -/
def printedBy (msg : List UInt8) : List Piece := (printRoute msg 0).events.filterMap RouteEvent.piece

/-- The calls that print something, and what they print. -/
def printed (events : List DumpEvent) : List (List UInt8 × List Piece) :=
  ((handed events).map fun msg => (msg, printedBy msg)).filter fun l => l.2 ≠ []

/-- One line: there is no line break but the one at the end. -/
def OneLine (ps : List Piece) : Prop := ∃ front, ps = front ++ [.newline] ∧ .newline ∉ front

theorem not_newline_pieceOf {t : Nat} {ys : List Attr} {f : Attr → Piece} (hf : ∀ y, f y ≠ .newline) :
    Piece.newline ∉ pieceOf t ys f := by
  unfold pieceOf
  cases lastAttr t ys with
  | none => simp
  | some y => simpa using (hf y).symm

theorem OneLine.append {as bs : List Piece} (ha : .newline ∉ as) (hb : OneLine bs) : OneLine (as ++ bs) := by
  obtain ⟨front, rfl, hfront⟩ := hb
  exact ⟨as ++ front, by simp, by simp [ha, hfront]⟩

theorem OneLine.cons {p : Piece} {ps : List Piece} (hp : p ≠ .newline) (h : OneLine ps) : OneLine (p :: ps) := by
  have hnot : Piece.newline ∉ [p] := by simpa using hp.symm
  exact OneLine.append hnot h

theorem Msg.oneLine (x : Msg) (ys : List Attr) : OneLine (x.line ys) := by
  have hend : OneLine [.newline] := ⟨[], rfl, by simp⟩
  refine .cons ?_ (.append (not_newline_pieceOf ?_) (.append (not_newline_pieceOf ?_)
    (.append (not_newline_pieceOf ?_) hend)))
  · split
    · simp
    · split <;> simp
  all_goals simp

namespace RouteMsg

/-- A message is known by its bytes. -/
theorem bytes_injective : Function.Injective fun x : RouteMsg => x.bytes := by
  rintro ⟨x, ys, hx, hys, hxs⟩ ⟨y, zs, hy, hzs, hyz⟩ hbytes
  obtain rfl := Msg.bytes_injective hbytes
  obtain rfl := hys.unique hzs
  rfl

variable {x : RouteMsg}

theorem sized_toMsg (x : RouteMsg) : x.toMsg.Sized x.attrs := by
  have hmem : ∀ t, ∀ y ∈ lastAttr t x.attrs, y.PayloadSized x.family ∧ y.type = t := by
    intro t y hy
    obtain ⟨hy, htype⟩ := List.mem_filter.1 (List.mem_of_getLast? hy)
    exact ⟨x.sized y hy, by simpa using htype⟩
  have hint : ∀ t, t = RTA_TABLE ∨ t = RTA_OIF → Holds x.attrs t 4 := by
    intro t ht y hy
    obtain ⟨hsized, rfl⟩ := hmem t y hy
    exact hsized.1 ht
  have haddr : ∀ t, t = RTA_DST ∨ t = RTA_GATEWAY ∨ t = RTA_SRC → HoldsAddr x.attrs t x.family := by
    intro t ht y hy
    obtain ⟨hsized, rfl⟩ := hmem t y hy
    exact hsized.2 ht
  exact ⟨hint _ (by simp), fun _ => ⟨haddr _ (by simp), haddr _ (by simp), hint _ (by simp), haddr _ (by simp)⟩⟩

/-- What is printed for a message. -/
theorem printedBy_eq (hsize : (x.bytes.length : Int) ≤ INT_MAX) :
    printedBy x.bytes = if x.Shown x.attrs then x.line x.attrs else [] := by
  have hself : slice x.bytes 0 x.bytes.length = some x.bytes := slice_eq_some.2 ⟨by omega, by simp⟩
  exact (printRoute_spec hself hsize x.attributes x.rtmsg_le).out x.sized_toMsg

theorem shown_iff : x.Shown x.attrs ↔
    (x.family = AF_INET ∨ x.table x.attrs = RT_TABLE_MAIN) ∧ x.DstShown x.attrs :=
  and_iff_right x.rtmsg_le

theorem Selected.shown (h : x.Selected) : x.Shown x.attrs := shown_iff.2 ⟨Or.inl h.1, h.2.2⟩

/-- The lines for a row of messages. -/
theorem printed_messages {xs : List RouteMsg} (hsize : ∀ x ∈ xs, (x.bytes.length : Int) ≤ INT_MAX) :
    ((xs.map fun x => x.bytes).map fun msg => (msg, printedBy msg)).filter (fun l => l.2 ≠ []) =
      (xs.filter fun x => x.Shown x.attrs).map fun x => (x.bytes, x.line x.attrs) := by
  induction xs with
  | nil => rfl
  | cons x xs ih =>
    obtain ⟨hx, hxs⟩ := List.forall_mem_cons.1 hsize
    have hline : x.line x.attrs ≠ [] := by simp [Msg.line]
    rw [List.map_cons, List.map_cons, List.filter_cons, List.filter_cons, ih hxs, printedBy_eq hx]
    by_cases hshown : x.Shown x.attrs <;> simp [hshown, hline]

end RouteMsg

/-- Of a row, the part in front shows just what is selected of the whole: when it does. -/
theorem filter_front_eq_iff {α β : Type*} {p q : α → Prop} [DecidablePred p] [DecidablePred q] {f : α → β}
    (hf : Function.Injective f) (hqp : ∀ x, q x → p x) (front rest : List α) :
    (front.filter fun x => p x).map f = ((front ++ rest).filter fun x => q x).map f ↔
      (∀ x ∈ front, p x → q x) ∧ ∀ x ∈ rest, ¬ q x := by
  rw [(List.map_injective_iff.2 hf).eq_iff, List.filter_append]
  constructor
  · intro heq
    have hall : ∀ x ∈ front, p x → q x := by
      intro x hx hp
      have hmem : x ∈ front.filter fun x => p x := List.mem_filter.2 ⟨hx, by simpa using hp⟩
      rw [heq, ← List.filter_append] at hmem
      simpa using (List.mem_filter.1 hmem).2
    have hsame : (front.filter fun x => p x) = front.filter fun x => q x :=
      List.filter_congr fun x hx => by simpa using ⟨hall x hx, hqp x⟩
    rw [hsame, List.self_eq_append_right, List.filter_eq_nil_iff] at heq
    exact ⟨hall, by simpa using heq⟩
  · rintro ⟨hall, hnone⟩
    have hsame : (front.filter fun x => p x) = front.filter fun x => q x :=
      List.filter_congr fun x hx => by simpa using ⟨hall x hx, hqp x⟩
    have hrest : (rest.filter fun x => q x) = [] := List.filter_eq_nil_iff.2 (by simpa using hnone)
    rw [hsame, hrest, List.append_nil]

section

variable {malloc : Bool} {sock : Sock} {d : Datagram} {xs : List RouteMsg}

/-- **What a call prints**: a line for each message in front of the first interrupted one that is shown. -/
theorem dump_printed (hd : d.Carries (xs.map RouteMsg.toMsg)) :
    ∃ ret events, Loop.Returns (dumpBody d.bytes d.pid d.bytes.length) (dumpAt d.bytes 0 [.alloc, .heading])
        (some (ret, events)) ∧
      printed events = ((xs.takeWhile fun x => !x.interrupted).filter fun x => x.Shown x.attrs).map
        fun x => (x.bytes, x.line x.attrs) := by
  have hsize : ∀ x ∈ xs, (x.bytes.length : Int) ≤ INT_MAX := by
    intro x hx
    obtain ⟨o, ho⟩ := exists_mem_place (a := 4) 0 (List.mem_map_of_mem hx)
    have hend := (slice_eq_some.1 (hd.laid.slice_of_mem ho)).1
    have hd' := d.size_le
    simp only at hend
    omega
  obtain ⟨ret, tail, htail, hret⟩ := dumpBody_trace hd.messages hd.pid d.bytes.length [.alloc, .heading]
  refine ⟨ret, _, hret, ?_⟩
  rw [← RouteMsg.printed_messages fun x hx => hsize x (List.takeWhile_subset _ hx), printed, handed_append,
    handed_append, handed_msgEvents, htail.handed, List.append_nil, List.takeWhile_map, List.map_map]
  rfl

/-- **Which datagrams are listed as the heading says.** The messages that belong there have one line each, in order,
and no other message has one, if and only if no message in front of the first interrupted one passes
the test of its destination and just one of those of family and table, and no message behind belongs there. -/
theorem dump_lines_iff (hrecv : Delivers malloc sock d) (hd : d.Carries (xs.map RouteMsg.toMsg)) :
    (∃ rounds ret events sock', getRouteDumpResponse rounds malloc sock = some (some (ret, events), sock') ∧
      printed events = (xs.filter fun x => x.Selected).map (fun x => (x.bytes, x.line x.attrs)) ∧
      ∀ l ∈ printed events, OneLine l.2) ↔
    (∀ x ∈ xs.takeWhile (fun x => !x.interrupted), x.DstShown x.attrs →
      (x.family = AF_INET ↔ x.table x.attrs = RT_TABLE_MAIN)) ∧
    ∀ x ∈ xs.dropWhile (fun x => !x.interrupted), ¬ x.Selected := by
  have hinj : Function.Injective fun x : RouteMsg => (x.bytes, x.line x.attrs) :=
    fun x y h => RouteMsg.bytes_injective (Prod.mk.inj h).1
  obtain ⟨ret, events, hret, hlines⟩ := dump_printed hd
  have honeLine : ∀ l ∈ printed events, OneLine l.2 := by
    intro l hl
    rw [hlines] at hl
    obtain ⟨x, -, rfl⟩ := List.mem_map.1 hl
    exact x.oneLine x.attrs
  have hsplit := List.takeWhile_append_dropWhile (p := fun x : RouteMsg => !x.interrupted) (l := xs)
  rw [response_trace_iff hrecv hret (Q := fun events => printed events = _ ∧ ∀ l ∈ printed events, OneLine l.2),
    and_iff_left honeLine, hlines]
  generalize xs.takeWhile (fun x : RouteMsg => !x.interrupted) = front at hsplit ⊢
  generalize xs.dropWhile (fun x : RouteMsg => !x.interrupted) = rest at hsplit ⊢
  rw [← hsplit, filter_front_eq_iff hinj (fun x hx => hx.shown)]
  refine and_congr_left fun _ => forall_congr' fun x => imp_congr_right fun _ => ?_
  rw [RouteMsg.shown_iff, RouteMsg.Selected]
  by_cases hfamily : x.family = AF_INET <;> by_cases htable : x.table x.attrs = RT_TABLE_MAIN <;>
    simp [hfamily, htable]

end

/-- An IPv4 default route in a table. -/
def defaultRoute (table : UInt8) : RouteMsg where
  bytes := routeBytes 2 0 table []
  len := rfl
  header_le := by simp [length_routeBytes]
  attrs := []
  rtmsg_le := by simp [length_routeBytes]
  attributes := attributes_nil _ _ (by simp [length_routeBytes])
  sized := by simp

def defaultDatagram (table : UInt8) : Datagram := kernelDatagram (routeBytes 2 0 table []) (by simp [length_routeBytes, INT_MAX])

theorem defaultDatagram_delivered (table : UInt8) :
    Delivers true { queue := [defaultDatagram table], script := [none, none] } (defaultDatagram table) := by
  have hlen : (defaultDatagram table).bytes.length ≠ 0 := by
    simp [defaultDatagram, kernelDatagram, length_routeBytes]
  have hscript : Patient 2 [none, none] := ⟨by simp, by simp⟩
  obtain ⟨script', hrecv⟩ := rtnlRecvmsg_patient [] hlen hscript
  exact ⟨_, hrecv⟩

theorem defaultDatagram_carries (table : UInt8) :
    (defaultDatagram table).Carries ([defaultRoute table].map RouteMsg.toMsg) :=
  ⟨rfl, ⟨rfl, trivial⟩, by simp [defaultDatagram, kernelDatagram, defaultRoute, length_routeBytes, roundUp]⟩

/-- A default route in the main table. -/
theorem dump_lines_sample :
    ∃ rounds ret events sock', getRouteDumpResponse rounds true
        { queue := [defaultDatagram 254], script := [none, none] } = some (some (ret, events), sock') ∧
      printed events = ([defaultRoute 254].filter fun x => x.Selected).map (fun x => (x.bytes, x.line x.attrs)) ∧
      ∀ l ∈ printed events, OneLine l.2 :=
  (dump_lines_iff (defaultDatagram_delivered 254) (defaultDatagram_carries 254)).2 (by decide)

/-- **A route of the local table** is listed as well. -/
theorem dump_lines_local :
    ¬ ∀ (malloc : Bool) (sock : Sock) (d : Datagram) (xs : List RouteMsg), Delivers malloc sock d →
      d.Carries (xs.map RouteMsg.toMsg) →
      ∃ rounds ret events sock', getRouteDumpResponse rounds malloc sock = some (some (ret, events), sock') ∧
        printed events = (xs.filter fun x => x.Selected).map (fun x => (x.bytes, x.line x.attrs)) := by
  intro hclaim
  have hrecv := defaultDatagram_delivered 255
  have hd := defaultDatagram_carries 255
  obtain ⟨rounds, ret, events, sock', hresponse, hlines⟩ := hclaim _ _ _ _ hrecv hd
  obtain ⟨ret', events', hret, hlines'⟩ := dump_printed hd
  cases hret.unique ((response_iff_returns hrecv).1 ⟨rounds, sock', hresponse⟩)
  rw [hlines'] at hlines
  exact absurd hlines (by decide)

end CHell.Netlink
