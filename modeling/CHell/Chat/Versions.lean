import CHell.Chat.Delivery
import CHell.Chat.SelectHistories
import Mathlib.Data.Finset.Sort

/-!
# One chat server and the other

What the poll server (`network/multi-chat-v1.c`) does with its clients, the select server
(`network/multi-chat-v2.c`) can do: for each history of the one there is one of the other with the same calls in the
same order, but for the order in which a chunk is sent around (`SameTurns`), and the same is passed to `send` for every
client (`poll_refines_select`). The numbers have to be below `FD_SETSIZE`, which the poll server does not need.
-/

namespace CHell.Chat

/-- The same calls, where each chunk may be sent around in another order. -/
inductive SameTurns : List Call → List Call → Prop
  | start : SameTurns [] []
  | call {h h'} (c : Call) : SameTurns h h' → SameTurns (h ++ [c]) (h' ++ [c])
  | relay {h h' ds ds'} (bytes : List UInt8) : SameTurns h h' → ds.Perm ds' →
      SameTurns (h ++ sends bytes ds) (h' ++ sends bytes ds')

variable {listener : Fd} {tr h h' : List Call}

theorem SameTurns.connected (hsame : SameTurns h h') : Chat.connected h = Chat.connected h' := by
  induction hsame with
  | start => rfl
  | call c _ ih =>
    unfold Chat.connected at ih ⊢
    rw [List.foldl_append, List.foldl_append, ih]
  | relay bytes _ _ ih =>
    rw [connected_neutrals _ fun c hc => neutral_of_mem_sends hc, ih,
      connected_neutrals _ fun c hc => neutral_of_mem_sends hc]

theorem SameTurns.inbox (hsame : SameTurns h h') (d : Fd) : Chat.inbox d h = Chat.inbox d h' := by
  induction hsame with
  | start => rfl
  | call c _ ih => rw [inbox_append, inbox_append, ih]
  | relay bytes _ hperm ih =>
    rw [inbox_append, inbox_append, foldl_post_sends, foldl_post_sends, ih, hperm.count_eq]

theorem inbox_view (d : Fd) (tr : List Call) : inbox d (view tr) = inbox d tr := by
  induction tr using List.reverseRecOn with
  | nil => rfl
  | append_singleton tr c ih =>
    rw [view_append, inbox_append, inbox_append, ih]
    cases c <;> rfl

/-- A history of the hub, with every chunk sent in ascending order. -/
theorem HubRun.exists_legal (hrun : HubRun listener tr)
    (hlow : ∀ fd : Nat, .accept (some fd) ∈ tr → fd < Select.FD_SETSIZE) :
    ∃ size h, Select.Legal listener size h ∧ SameTurns (view tr) h := by
  induction hrun with
  | start => exact ⟨0, [], .start, .start⟩
  | @next tr es H _ hstep ih =>
    obtain ⟨size, h, hlegal, hsame⟩ := ih fun fd hfd => hlow fd (List.mem_append_left _ hfd)
    have hconn : connected h = connected tr := by rw [← hsame.connected, connected_view]
    rw [view_append]
    cases hstep with
    | idle => exact ⟨size, h, hlegal, by simpa [view] using hsame⟩
    | wait hc =>
      refine ⟨size, h, hlegal, ?_⟩
      rcases hc with ⟨_, rfl⟩ | ⟨_, _, rfl⟩
      · simpa [view, Call.waits] using hsame
      · simpa [view, Call.waits] using hsame
    | refuse => exact ⟨size, _, .refuse hlegal, hsame.call _⟩
    | @join fd hl hn =>
      have hfd := hlow fd (List.mem_append_right _ (List.mem_singleton_self _))
      exact ⟨size, _, .join hlegal hfd hl (hconn ▸ hn), hsame.call _⟩
    | @leave fd r hm hr =>
      have hboth := (hsame.call (.recv fd r)).call (.close fd)
      rw [List.append_assoc, List.append_assoc] at hboth
      exact ⟨size, _, .leave hlegal (hconn ▸ hm) hr, hboth⟩
    | @say fd bytes ds hm hb hnodup hds =>
      let sorted := ((connected tr).erase fd).sort
      have hsorted : ∀ d, d ∈ sorted ↔ d ∈ connected tr ∧ d ≠ fd := by
        intro d
        rw [Finset.mem_sort, Finset.mem_erase, and_comm]
      have hperm : ds.Perm sorted :=
        (List.perm_ext_iff_of_nodup hnodup (Finset.sort_nodup _ _)).2 fun d => (hds d).trans (hsorted d).symm
      have hrelay := (hsame.call (.recv fd (some bytes))).relay bytes hperm
      rw [List.append_assoc, List.append_assoc] at hrelay
      rw [view_eq_self Select.waits_sends]
      refine ⟨max size bytes.length, _, .say (hlegal.mono (Nat.le_max_left _ _)) (hconn ▸ hm) hb (Nat.le_max_right _ _)
        (Finset.sortedLT_sort _).pairwise ?_, hrelay⟩
      rw [hconn]
      exact hsorted

theorem Select.start_isSome (hl : listener < Select.FD_SETSIZE) : ∃ s₀, Select.start listener = some s₀ := by
  have hset : Select.fdSet listener ∅ = some {listener} := Select.fdSet_eq_some.2 ⟨hl, rfl⟩
  refine ⟨⟨{listener}, ∅, listener, .select⟩, ?_⟩
  simp only [Select.start, hset, Option.bind_eq_bind, Option.bind_some]

/-- **The select server can do what the poll server does.** For every run of the poll server on low descriptors
there is one of the select server with the same calls in the same order, but for the order in which a chunk is sent
around, and the same chunks have been passed to `send` for each client, in the same order. -/
theorem poll_refines_select {mem : Nat → Poll.Pollfd} {s : Poll.State}
    (hrun : Reactive.Run (Poll.step mem listener) (fun _ _ _ => True) (Poll.start mem listener) tr s)
    (hf : Reactive.Always (AcceptFresh listener) tr) (hl : listener < Select.FD_SETSIZE)
    (hlow : ∀ fd : Nat, .accept (some fd) ∈ tr → fd < Select.FD_SETSIZE) :
    ∃ s₀ tr' s', Select.start listener = some s₀ ∧
      Reactive.Run (Select.step listener) (fun _ _ _ => True) s₀ tr' s' ∧ Reactive.Always (AcceptFresh listener) tr' ∧
      SameTurns (view tr) (view tr') ∧ ∀ d, inbox d tr' = inbox d tr := by
  obtain ⟨s₀, h0⟩ := Select.start_isSome hl
  obtain ⟨size, h, hlegal, hsame⟩ := (Poll.hubRun_of_run hrun hf).exists_legal hlow
  obtain ⟨tr', s', hrun', hf', -, rfl⟩ := Select.comes_of_legal h0 hlegal
  refine ⟨s₀, tr', s', h0, hrun'.mono fun _ _ _ _ => trivial, hf', hsame, ?_⟩
  intro d
  rw [← inbox_view d tr', ← hsame.inbox, inbox_view]

/-- Both servers have called `send` with 104 for client 5 and with 105 for client 4. -/
theorem poll_refines_select_two : ∃ s₀ tr' s', Select.start 3 = some s₀ ∧
    Reactive.Run (Select.step 3) (fun _ _ _ => True) s₀ tr' s' ∧ inbox 4 tr' = [[105]] ∧ inbox 5 tr' = [[104]] := by
  obtain ⟨s, hexec⟩ := Poll.exec_bothSay
  have hrun := Reactive.Run.exec (fun _ _ _ => trivial) .start hexec
  obtain ⟨s₀, tr', s', h0, hrun', -, -, hinbox⟩ := poll_refines_select hrun
    (by simp [Reactive.always_cons, AcceptFresh, connected]) (by decide) (by simp [Select.FD_SETSIZE])
  exact ⟨s₀, tr', s', h0, hrun', hinbox 4, hinbox 5⟩

end CHell.Chat
