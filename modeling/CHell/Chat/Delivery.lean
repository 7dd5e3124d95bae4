import CHell.Chat.PollRuns
import CHell.Chat.SelectRuns

/-!
# What is sent to a client

`HubRun` is a history of the abstract server of `Chat/Hub.lean`, from no client on; both servers have no others.

`inbox d` are the chunks passed to `send` for `d` since its number was last returned by `accept`, whatever `send`
made of them, `said d` those the other clients said since. They are the same for each connected client, in the same
order (`HubRun.delivers`): the server calls `send` neither too seldom nor twice, not for what was said before the
client came, also not under a number that another client had, and for any two with what a third says in one order.
-/

namespace CHell.Chat

/-- Histories of the abstract server. -/
inductive HubRun (listener : Fd) : List Call → Prop
  | start : HubRun listener []
  | next {tr es H} : HubRun listener tr → HubStep listener (connected tr) es H → HubRun listener (tr ++ es)

/-- What has been passed to `send` for `d`, after one more call. -/
def Call.post (d : Fd) (box : List (List UInt8)) : Call → List (List UInt8)
  | .accept (some fd) => if fd = d then [] else box
  | .send fd bytes => if fd = d then box ++ [bytes] else box
  | _ => box

def inbox (d : Fd) (tr : List Call) : List (List UInt8) := tr.foldl (Call.post d) []

/-- What others have said, after one more call. -/
def Call.hear (d : Fd) (said : List (List UInt8)) : Call → List (List UInt8)
  | .accept (some fd) => if fd = d then [] else said
  | .recv fd (some (b :: bs)) => if fd = d then said else said ++ [b :: bs]
  | _ => said

def said (d : Fd) (tr : List Call) : List (List UInt8) := tr.foldl (Call.hear d) []

/-- `send` is called for connected sockets only. -/
def SendsConnected (pre : List Call) (c : Call) : Prop := ∀ d bytes, c = .send d bytes → d ∈ connected pre

variable {listener d : Fd} {tr es : List Call} {H : Finset Fd}

theorem inbox_append (d : Fd) (tr es : List Call) : inbox d (tr ++ es) = es.foldl (Call.post d) (inbox d tr) :=
  List.foldl_append

theorem said_append (d : Fd) (tr es : List Call) : said d (tr ++ es) = es.foldl (Call.hear d) (said d tr) :=
  List.foldl_append

theorem foldl_post_sends (d : Fd) (bytes : List UInt8) (ds : List Fd) (box : List (List UInt8)) :
    (sends bytes ds).foldl (Call.post d) box = box ++ List.replicate (ds.count d) bytes := by
  induction ds generalizing box with
  | nil => simp [sends]
  | cons e ds ih =>
    have hcons : (sends bytes (e :: ds)).foldl (Call.post d) box =
      (sends bytes ds).foldl (Call.post d) (if e = d then box ++ [bytes] else box) := rfl
    rw [hcons, ih]
    by_cases he : e = d
    · rw [if_pos he, he, List.count_cons_self, List.replicate_succ, List.append_assoc]
      rfl
    · rw [if_neg he, List.count_cons_of_ne he]

theorem foldl_hear_sends (d : Fd) (bytes : List UInt8) (ds : List Fd) (box : List (List UInt8)) :
    (sends bytes ds).foldl (Call.hear d) box = box := by
  induction ds with
  | nil => rfl
  | cons e ds ih => exact ih

/-- **One turn.** For a client that stays, the chunk received in it, if any, is the chunk passed to `send`. -/
theorem HubStep.delivers (h : HubStep listener (Chat.connected tr) es H)
    (ih : ∀ d ∈ Chat.connected tr, inbox d tr = said d tr) :
    ∀ d ∈ Chat.connected (tr ++ es), inbox d (tr ++ es) = said d (tr ++ es) := by
  intro d hd
  rw [← h.connected] at hd
  rw [inbox_append, said_append]
  cases h with
  | idle => exact ih d hd
  | wait hc =>
    rcases hc with ⟨_, rfl⟩ | ⟨_, _, rfl⟩
    · exact ih d hd
    · exact ih d hd
  | refuse => exact ih d hd
  | @join fd _ _ =>
    by_cases hfd : fd = d
    · simp [Call.post, Call.hear, hfd]
    · have hmem := (Finset.mem_insert.1 hd).resolve_left (Ne.symm hfd)
      simpa [Call.post, Call.hear, hfd] using ih d hmem
  | leave hm hr =>
    have hmem := Finset.mem_of_mem_erase hd
    rcases hr with rfl | rfl
    · exact ih d hmem
    · exact ih d hmem
  | @say fd bytes ds hm hb hnodup hds =>
    obtain ⟨b, bs, rfl⟩ := List.exists_cons_of_ne_nil hb
    have heq := ih d hd
    simp only [List.foldl_cons, foldl_post_sends, foldl_hear_sends]
    by_cases hfd : fd = d
    · -- no `send` of its own chunk to the sender
      have hnot : ds.count d = 0 := List.count_eq_zero.2 fun hmem => ((hds d).1 hmem).2 hfd.symm
      simpa [Call.post, Call.hear, hfd, hnot] using heq
    · have honce : ds.count d = 1 := List.count_eq_one_of_mem hnodup ((hds d).2 ⟨hd, Ne.symm hfd⟩)
      simp [Call.post, Call.hear, hfd, honce, heq]

/-- Calls that leave the connections alone. -/
theorem always_sendsConnected (hes : ∀ c ∈ es, c.neutral = true ∧ SendsConnected tr c) :
    Reactive.Always (fun pre => SendsConnected (tr ++ pre)) es := by
  rintro pre c post rfl d bytes hc
  have hneutral : ∀ c ∈ pre, c.neutral = true := fun c hc => (hes c (by simp [hc])).1
  rw [connected_neutrals tr hneutral]
  exact (hes c (by simp)).2 d bytes hc

theorem HubStep.sends_connected (h : HubStep listener (Chat.connected tr) es H) :
    Reactive.Always (fun pre => SendsConnected (tr ++ pre)) es := by
  cases h with
  | @say fd bytes ds hm hb hnodup hds =>
    refine always_sendsConnected fun c hc => ?_
    rcases List.mem_cons.1 hc with rfl | hc
    · exact ⟨rfl, by simp [SendsConnected]⟩
    · refine ⟨neutral_of_mem_sends hc, ?_⟩
      obtain ⟨e, he, rfl⟩ := List.mem_map.1 hc
      intro d' bytes' heq
      cases heq
      exact ((hds e).1 he).1
  | wait hc =>
    rcases hc with ⟨_, rfl⟩ | ⟨_, _, rfl⟩ <;> exact Reactive.always_of_forall (by simp [SendsConnected])
  | _ => exact Reactive.always_of_forall (by simp [SendsConnected])

/-- **Every chunk is passed to `send` once for every other client, in the order of the server**, in every history of
the hub. -/
theorem HubRun.delivers (h : HubRun listener tr) :
    (∀ d ∈ connected tr, inbox d tr = said d tr) ∧ Reactive.Always SendsConnected tr := by
  induction h with
  | start => exact ⟨by simp, Reactive.always_nil _⟩
  | next _ hstep ih => exact ⟨hstep.delivers ih.1, Reactive.always_append.2 ⟨ih.2, hstep.sends_connected⟩⟩

/-! ## The servers -/

namespace Poll

variable {mem : Nat → Pollfd} {s : State}

theorem hubRun_of_run (hrun : Reactive.Run (step mem listener) (fun _ _ _ => True) (start mem listener) tr s)
    (hf : Reactive.Always (AcceptFresh listener) tr) : HubRun listener tr := by
  have hboth : Table listener tr s ∧ HubRun listener tr := by
    refine hrun.invariant_of_always (fun tr s => Table listener tr s ∧ HubRun listener tr) ⟨table_start, .start⟩ ?_ hf
    intro tr s a s' es ih hf' _ hs
    obtain ⟨⟨H, hstep⟩, htable⟩ := step_table ih.1 hf' hs
    exact ⟨htable, ih.2.next hstep⟩
  exact hboth.2

/-- **The poll server delivers.** In every run, whatever the calls answer: what has been passed to `send` for a
connected client since it was accepted is what the others have said since, chunk by chunk and in that order, and
`send` is never called for a socket that is not connected. -/
theorem poll_delivers (hrun : Reactive.Run (step mem listener) (fun _ _ _ => True) (start mem listener) tr s)
    (hf : Reactive.Always (AcceptFresh listener) tr) :
    (∀ d ∈ connected tr, inbox d tr = said d tr) ∧ Reactive.Always SendsConnected tr :=
  (hubRun_of_run hrun hf).delivers

/-- Two clients, and each of them says something. -/
def bothSay : List Answer :=
  [{ poll := some fun _ => 1 }, { accept := some 4 }, {}, {},
   { poll := some fun k => 1 - k }, { accept := some 5 }, {}, {}, {},
   { poll := some fun k => if k = 1 then 1 else 0 }, {}, { recv := some [104] }, {}, {},
   { poll := some fun k => if k = 2 then 1 else 0 }, {}, {}, { recv := some [105] }]

theorem exec_bothSay : ∃ s, Reactive.exec (step zeroMem 3) (start zeroMem 3) bothSay = some (s,
    [.poll [(3, 1)], .accept (some 4), .poll [(3, 1), (4, 0)], .accept (some 5),
      .poll [(3, 0), (4, 1), (5, 0)], .recv 4 (some [104]), .send 5 [104],
      .poll [(3, 0), (4, 0), (5, 1)], .recv 5 (some [105]), .send 4 [105]]) := ⟨_, rfl⟩

theorem poll_delivers_two : ∃ s tr, Reactive.Run (step zeroMem 3) (fun _ _ _ => True) (start zeroMem 3) tr s ∧
    inbox 4 tr = [[105]] ∧ inbox 5 tr = [[104]] ∧ ∀ d ∈ connected tr, inbox d tr = said d tr := by
  obtain ⟨s, hexec⟩ := exec_bothSay
  have hrun := Reactive.Run.exec (fun _ _ _ => trivial) .start hexec
  refine ⟨_, _, hrun, rfl, rfl, (poll_delivers hrun ?_).1⟩
  simp [Reactive.always_cons, AcceptFresh, connected]

end Poll

namespace Select

variable {s s₀ : State}

theorem hubRun_of_run (h0 : start listener = some s₀)
    (hrun : Reactive.Run (step listener) (fun _ _ _ => True) s₀ tr s)
    (hf : Reactive.Always (AcceptFresh listener) tr) : HubRun listener tr := by
  have hboth : Sets listener tr s ∧ HubRun listener tr := by
    refine hrun.invariant_of_always (fun tr s => Sets listener tr s ∧ HubRun listener tr) ⟨sets_start h0, .start⟩ ?_ hf
    intro tr s a s' es ih hf' _ hs
    obtain ⟨⟨H, hstep⟩, hsets⟩ := step_sets ih.1 hf' hs
    exact ⟨hsets, ih.2.next hstep⟩
  exact hboth.2

/-- **The select server delivers**, in the same sense. -/
theorem select_delivers (h0 : start listener = some s₀)
    (hrun : Reactive.Run (step listener) (fun _ _ _ => True) s₀ tr s)
    (hf : Reactive.Always (AcceptFresh listener) tr) :
    (∀ d ∈ connected tr, inbox d tr = said d tr) ∧ Reactive.Always SendsConnected tr :=
  (hubRun_of_run h0 hrun hf).delivers

/-- Client 1 says something, client 2 hangs up, and another client gets the number 2. -/
def reuse : List Answer :=
  [{ select := some {0} }, { accept := some 1 }, {}, {}, { select := some {0} }, { accept := some 2 }, {}, {}, {},
   { select := some {1} }, {}, { recv := some [104] }, {}, {}, { select := some {2} }, {}, {}, { recv := some [] }, {},
   { select := some {0} }, { accept := some 2 }]

theorem select_delivers_reuse : ∃ s tr, Reactive.Run (step 0) (fun _ _ _ => True) ⟨{0}, ∅, 0, .select⟩ tr s ∧
    2 ∈ connected tr ∧ inbox 2 tr = [] ∧ ∀ d ∈ connected tr, inbox d tr = said d tr := by
  obtain ⟨s, hexec⟩ : ∃ s, Reactive.exec (step 0) ⟨{0}, ∅, 0, .select⟩ reuse = some
      (s, [.select {0} {0}, .accept (some 1), .select {1, 0} {0}, .accept (some 2), .select {2, 1, 0} {1},
        .recv 1 (some [104]), .send 2 [104], .select {2, 1, 0} {2}, .recv 2 (some []), .close 2,
        .select {1, 0} {0}, .accept (some 2)]) := ⟨_, rfl⟩
  have hrun := Reactive.Run.exec (fun _ _ _ => trivial) .start hexec
  refine ⟨_, _, hrun, by decide, rfl, (select_delivers rfl hrun ?_).1⟩
  simp [Reactive.always_cons, AcceptFresh, connected]

end Select

end CHell.Chat
