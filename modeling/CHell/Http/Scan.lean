import CHell.Http.Request

/-!
# What `parse_http` makes of a buffer

Each loop goes along a token of the buffer, the bytes up to a space or a NUL: a round copies one of them (`round_ends`),
the loop all of them, unless they are too many for its array (`scan_ends`). So the function computes `requestCode`, which
only speaks of tokens (`parseHttp_ends`). All of it holds from any start inside the buffer; from outside the first read goes
wrong (`parseHttp_wrong`).
-/

namespace CHell.Http

open CInt Memory Token Traced

/-- What the loops copy. -/
def text (b : UInt8) : Bool := decide (b ≠ SPACE ∧ b ≠ 0)

theorem text_iff {b : UInt8} : text b = true ↔ b ≠ SPACE ∧ b ≠ 0 := decide_eq_true_iff

theorem text_false_iff {b : UInt8} : text b = false ↔ b = SPACE ∨ b = 0 := by
  rw [text, decide_eq_false_iff_not]
  tauto

theorem text_of_all {l : List UInt8} (h : l.all text = true) : ∀ b ∈ l, b ≠ SPACE ∧ b ≠ 0 :=
  fun b hb => text_iff.1 (List.all_eq_true.1 h b hb)

variable {buf : Mem} {req : Int} {f : Field} {k j : Nat} {dst : Mem} {P : Access → Prop} {d : Prop} {w : List UInt8}

/-- A text in a buffer, with its NUL at `req`; the indices of the buffer are `int`s. -/
structure HasNul (buf : Mem) (req : Int) : Prop where
  nul : ∃ n : Nat, req = n ∧ buf[n]? = some 0
  length_le : (buf.length : Int) ≤ INT_MAX

theorem readReq_ends {Q : UInt8 → Prop} (hP : P (.req k)) (hQ : ∀ b, buf[k]? = some b → Q b) (hd : buf[k]? = none → d) :
    Ends P d Q (readReq buf k) := by
  refine Ends.bind (Q := fun _ => True) (.emit hP trivial) ?_
  intro _ _
  rw [if_pos (Int.natCast_nonneg k), Int.toNat_natCast]
  exact .lift hQ hd

/-- Nothing is read in front of the buffer or behind it. -/
theorem readReq_wrong {i : Int} (hi : i < 0 ∨ buf.length ≤ i) : (readReq buf i).value = none := by
  simp only [readReq]
  rw [bind_of_some rfl]
  split
  · rw [List.getElem?_eq_none (by omega)]
    rfl
  · rfl

/-- The loop after it copied the first `j` bytes of the token at `k`. -/
def copied (k : Nat) (w : List UInt8) (dst : Mem) (j : Nat) : Cursor := ⟨(k + j : Nat), j, w.take j ++ dst.drop j⟩

theorem store_copied (hj : j < w.length) (hdst : j < dst.length) :
    store (copied k w dst j).dst j [w[j]] = some (copied k w dst (j + 1)).dst := by
  have hlen : (w.take j).length = j := by rw [List.length_take]; omega
  have hroom : [w[j]].length ≤ (dst.drop j).length := by
    rw [List.length_drop, List.length_singleton]
    omega
  have hstore := store_append (w.take j) (dst.drop j) hroom
  rw [hlen] at hstore
  simp only [copied]
  rw [hstore, List.take_add_one, List.getElem?_eq_getElem hj, Option.toList_some, List.drop_drop]
  rfl

theorem writeByte_ends {array : Nat → Access} {m m' : Mem} {b : UInt8} {Q : Mem → Prop} (hP : P (array j))
    (hm : store m j [b] = some m') (hQ : Q m') : Ends P d Q (writeByte array m j b) := by
  refine Ends.bind (Q := fun _ => True) (.emit hP trivial) ?_
  intro _ _
  refine .lift ?_ ?_
  · rintro _ h
    obtain rfl := Option.some.inj (h.symm.trans hm)
    exact hQ
  · intro hnone
    cases hnone.symm.trans hm

/-- `i++` behind a byte of the buffer. -/
theorem addInt_copied (hlen : (buf.length : Int) ≤ INT_MAX) (hin : k + j < buf.length) :
    addInt (copied k w dst j).i 1 = some ((k + j + 1 : Nat) : Int) := by
  unfold INT_MAX at hlen
  refine addInt_eq_some.2 ⟨by simp [copied], ?_, ?_⟩ <;> simp only [copied] <;> omega

/-- `dst[j++] = http_req[i++]` inside the token. -/
theorem copy_ends {Q : Cursor ⊕ Except Int Cursor → Prop} (hlen : (buf.length : Int) ≤ INT_MAX)
    (hw : token text buf k = w) (hlt : j < w.length) (hdst : j < dst.length) (hread : P (.req (k + j : Nat)))
    (hwrite : P (f.array j)) (hQ : Q (.inl (copied k w dst (j + 1)))) :
    Ends P d Q (do
      let b ← readReq buf (copied k w dst j).i
      let m ← writeByte f.array (copied k w dst j).dst (copied k w dst j).j b
      let i ← lift (addInt (copied k w dst j).i 1)
      pure (.inl ⟨i, (copied k w dst j).j + 1, m⟩)) := by
  have hbyte : buf[k + j]? = some w[j] := by
    subst hw
    rw [getElem?_token hlt, List.getElem?_eq_getElem hlt]
  refine Ends.bind (readReq_ends (Q := fun b => b = w[j]) hread ?_ ?_) ?_
  · intro b hb
    exact Option.some.inj (hb.symm.trans hbyte)
  · intro hnone
    cases hnone.symm.trans hbyte
  rintro _ rfl
  refine Ends.bind (Q := fun m => m = (copied k w dst (j + 1)).dst) ?_ ?_
  · exact writeByte_ends hwrite (store_copied hlt hdst) rfl
  rintro _ rfl
  rw [addInt_copied hlen (List.getElem?_eq_some_iff.1 hbyte).1, lift_some_bind]
  exact .pure hQ

/-- One round, on its way along a token: it copies one byte more, or the loop is left. -/
theorem round_ends {Q : Except Int Cursor → Prop} (hbuf : HasNul buf req) (hw : token text buf k = w)
    (hdst : dst.length = f.size) (hj : j ≤ w.length) (hjs : j < f.size) (hread : P (.req (k + j : Nat)))
    (hwrite : j < w.length → j < f.size - 1 → P (f.array j))
    (hlong : f.size ≤ w.length → Q (.error f.tooLong))
    (hspace : j = w.length → buf[k + j]? = some SPACE → Q (.ok (copied k w dst j)))
    (hnul : j = w.length → buf[k + j]? = some 0 → Q (f.nul (copied k w dst j)))
    (hwrong : j = w.length → buf[k + j]? = none → d) :
    Ends P d (Sum.elim (fun c => c = copied k w dst (j + 1) ∧ j + 1 ≤ w.length ∧ j + 1 < f.size) Q)
      (round buf req f (copied k w dst j)) := by
  have hreads : ∀ {R : UInt8 → Prop}, (∀ b, buf[k + j]? = some b → R b) →
      Ends P d R (readReq buf (copied k w dst j).i) :=
    fun hR => readReq_ends hread hR fun hnone => hwrong (hw ▸ eq_of_none (hw.symm ▸ hj) hnone) hnone
  -- while (http_req[i] != ' ')
  refine Ends.bind (hreads fun b hb => hb) ?_
  intro b hb
  split
  · rename_i hspc
    have hstop := eq_of_stop (hw.symm ▸ hj) hb (text_false_iff.2 (.inl hspc))
    exact .pure (hspace (hw ▸ hstop) (hspc ▸ hb))
  rename_i hspc
  -- if (http_req[i] == NULL)
  refine Ends.bind (hreads fun b' hb' => hb') ?_
  intro b' hb'
  obtain rfl : b' = b := Option.some.inj (hb'.symm.trans hb)
  split
  · rename_i hzero
    have hstop := eq_of_stop (hw.symm ▸ hj) hb (text_false_iff.2 (.inr hzero))
    exact .pure (hnul (hw ▸ hstop) (hzero ▸ hb))
  rename_i hzero
  have hlt : j < w.length := hw ▸ lt_of_inside (hw.symm ▸ hj) hb (text_iff.2 ⟨hspc, hzero⟩)
  split
  · rename_i hmax
    have hmax : f.size - 1 ≤ j := hmax
    exact .pure (hlong (by omega))
  rename_i hmax
  have hmax : ¬ f.size - 1 ≤ j := hmax
  split
  · -- the byte at `req` is the NUL
    rename_i hreq
    obtain ⟨n, rfl, hn⟩ := hbuf.nul
    have hkn : k + j = n := Int.ofNat.inj hreq
    rw [hkn, hn] at hb
    exact absurd (Option.some.inj hb).symm hzero
  · exact copy_ends hbuf.length_le hw hlt (by omega) hread (hwrite hlt (by omega)) ⟨rfl, hlt, by omega⟩

/-- **A loop of `parse_http`** copies the token it starts at, unless that is too long for its array. -/
theorem scan_ends {Q : Except Int Cursor → Prop} (hbuf : HasNul buf req) (hw : token text buf k = w)
    (hdst : dst.length = f.size) (hsize : 0 < f.size)
    (hread : ∀ j ≤ w.length, j < f.size → P (.req (k + j : Nat)))
    (hwrite : ∀ j < w.length, j < f.size - 1 → P (f.array j))
    (hlong : f.size ≤ w.length → Q (.error f.tooLong))
    (hspace : w.length < f.size → buf[k + w.length]? = some SPACE → Q (.ok (copied k w dst w.length)))
    (hnul : w.length < f.size → buf[k + w.length]? = some 0 → Q (f.nul (copied k w dst w.length)))
    (hwrong : w.length < f.size → buf[k + w.length]? = none → d) :
    Ends P d Q (scan buf req f ⟨k, 0, dst⟩) := by
  refine Ends.loop (fun c => ∃ j, c = copied k w dst j ∧ j ≤ w.length ∧ j < f.size) (fun c => f.size - 1 - c.j) ?_
    ⟨0, by simp [copied], Nat.zero_le _, hsize⟩ (by simp; omega)
  rintro _ ⟨j, rfl, hj, hjs⟩
  refine (round_ends (Q := Q) hbuf hw hdst hj hjs (hread j hj hjs) (hwrite j) hlong ?_ ?_ ?_).mono ?_
  · rintro rfl
    exact hspace hjs
  · rintro rfl
    exact hnul hjs
  · rintro rfl
    exact hwrong hjs
  · rintro (c | r) h
    · obtain ⟨rfl, hj', hjs'⟩ := h
      refine ⟨⟨j + 1, rfl, hj', hjs'⟩, ?_⟩
      simp only [copied]
      omega
    · exact h

/-- A round that goes on counts `j` up, below the limit. -/
theorem round_counts (buf : Mem) (req : Int) (f : Field) (c : Cursor) :
    Ends (fun _ => True) True (fun r => ∀ c', r = .inl c' → c'.j = c.j + 1 ∧ c.j < f.size - 1) (round buf req f c) := by
  refine (Ends.trivial _).bind fun b _ => ?_
  split
  · exact .pure fun _ h => by cases h
  refine (Ends.trivial _).bind fun b _ => ?_
  split
  · exact .pure fun _ h => by cases h
  split
  · exact .pure fun _ h => by cases h
  rename_i hj
  split
  · exact .pure fun _ h => by cases h
  refine (Ends.trivial _).bind fun b _ => (Ends.trivial _).bind fun m _ => (Ends.trivial _).bind fun i _ => .pure ?_
  rintro _ ⟨⟩
  exact ⟨rfl, by omega⟩

/-- More rounds than the array has places change nothing. -/
theorem scan_eq_loop (buf : Mem) (req : Int) {f : Field} (hsize : 0 < f.size) (i : Int) (dst : Mem) {n : Nat}
    (hn : f.size ≤ n) : scan buf req f ⟨i, 0, dst⟩ = loop (round buf req f) n ⟨i, 0, dst⟩ := by
  refine loop_eq_of_variant (fun c => f.size - 1 - c.j) ?_ (by simp; omega) (by simp; omega)
  intro c c' hc
  have hcount := (round_counts buf req f c).of_value hc c' rfl
  omega

/-! ## The whole line -/

/-- What is left to return once the method is GET and `i` is at `k`. -/
def pathCode (buf : Mem) (k : Nat) : Option Int :=
  let path := token text buf k
  if MAX_HTTPSTR_LEN ≤ path.length then some (-7) else buf[k + path.length]?.map fun _ => 1

/-- What `parse_http` returns when `i` starts at `k`; `none` if the scan runs out of the buffer. -/
def requestCode (buf : Mem) (k : Nat) : Option Int :=
  let method := token text buf k
  if MAX_METHOD_LEN ≤ method.length then some (-3)
  else
    match buf[k + method.length]? with
    | none => none
    | some b =>
      if b = 0 then some (-2)
      else if method ≠ GET then some (-11)
      else pathCode buf (k + method.length + 1)

theorem requestCode_long (h : MAX_METHOD_LEN ≤ (token text buf k).length) : requestCode buf k = some (-3) := by
  simp only [requestCode]
  rw [if_pos h]

theorem requestCode_of_stop (hw : token text buf k = w) (hlt : w.length < MAX_METHOD_LEN) :
    requestCode buf k = buf[k + w.length]?.bind fun b =>
      if b = 0 then some (-2) else if w ≠ GET then some (-11) else pathCode buf (k + w.length + 1) := by
  simp only [requestCode, hw]
  rw [if_neg (Nat.not_le.2 hlt)]
  cases buf[k + w.length]? <;> rfl

theorem pathCode_long (h : MAX_HTTPSTR_LEN ≤ (token text buf k).length) : pathCode buf k = some (-7) := by
  simp only [pathCode]
  rw [if_pos h]

theorem pathCode_of_stop (hw : token text buf k = w) (hlt : w.length < MAX_HTTPSTR_LEN) :
    pathCode buf k = buf[k + w.length]?.map fun _ => 1 := by
  simp only [pathCode, hw]
  rw [if_neg (Nat.not_le.2 hlt)]

/-- The token and a NUL behind it are the token as a C string. -/
theorem terminate_copied (hw : ∀ a ∈ w, text a = true) (hlt : w.length < dst.length) :
    ∃ m, store (copied k w dst w.length).dst w.length [0] = some m ∧ cString m = some w := by
  have hne : 0 ∉ w := fun h => (text_iff.1 (hw 0 h)).2 rfl
  have hroom : [(0 : UInt8)].length ≤ (dst.drop w.length).length := by
    rw [List.length_drop, List.length_singleton]
    omega
  have hstore := store_append w (dst.drop w.length) hroom
  refine ⟨w ++ 0 :: dst.drop (w.length + 1), ?_, cString_append hne _⟩
  simp only [copied, List.take_length]
  rw [hstore, List.append_assoc, List.drop_drop]
  rfl

/-- The second loop and what follows it. -/
theorem pathScan_ends (hbuf : HasNul buf req) {http : Mem} (hhttp_length : http.length = MAX_HTTPSTR_LEN)
    (hread : ∀ j ≤ (token text buf k).length, P (.req (k + j : Nat)))
    (hhttp : ∀ j < MAX_HTTPSTR_LEN, P (.http j)) :
    Ends P (pathCode buf k = none) (fun v => pathCode buf k = some v) (do
      match ← scan buf req httpField ⟨k, 0, http⟩ with
      | .error code => pure code
      | .ok c => do
        let _ ← writeByte .http c.dst c.j 0
        pure 1) := by
  generalize hw : token text buf k = w at hread
  refine Ends.bind (Q := fun r => r = .error (-7) ∧ MAX_HTTPSTR_LEN ≤ w.length ∨
    r = .ok (copied k w http w.length) ∧ w.length < MAX_HTTPSTR_LEN ∧ ∃ b, buf[k + w.length]? = some b) ?_ ?_
  · refine scan_ends hbuf hw hhttp_length (by decide) ?_ ?_ ?_ ?_ ?_ ?_
    · exact fun j hj _ => hread j hj
    · exact fun j _ hj => hhttp j (Nat.lt_of_lt_pred hj)
    · exact fun h => .inl ⟨rfl, h⟩
    · exact fun h hspace => .inr ⟨rfl, h, SPACE, hspace⟩
    · exact fun h hnul => .inr ⟨rfl, h, 0, hnul⟩
    · intro h hnone
      rw [pathCode_of_stop hw h, hnone]
      rfl
  rintro r (⟨rfl, h⟩ | ⟨rfl, h, b, hb⟩)
  · exact .pure (pathCode_long (hw ▸ h))
  · have hdst : w.length < http.length := by rw [hhttp_length]; exact h
    obtain ⟨m, hm, -⟩ := terminate_copied (k := k) (fun a ha => token_all (hw ▸ ha)) hdst
    refine Ends.bind (writeByte_ends (Q := fun _ => True) (hhttp _ h) hm trivial) fun _ _ => .pure ?_
    rw [pathCode_of_stop hw h, hb]
    rfl

/-- **`parse_http` from `i = k`** returns `requestCode` of the buffer, if the buffer has its NUL at `req`. -/
theorem parseHttp_ends {frame : Frame} (hbuf : HasNul buf req) (hi : frame.i = k)
    (hread : ∀ m : Nat, k ≤ m → (∀ n : Nat, req = n → k ≤ n → m ≤ n) → P (.req m))
    (hmethod : ∀ j < MAX_METHOD_LEN, P (.method j)) (hhttp : ∀ j < MAX_HTTPSTR_LEN, P (.http j)) :
    Ends P (requestCode buf k = none) (fun v => requestCode buf k = some v) (parseHttp (some buf) req frame) := by
  have hreads : ∀ i, k ≤ i → (∀ n : Nat, req = n → k ≤ n → i ≤ n) →
      ∀ j ≤ (token text buf i).length, P (.req (i + j : Nat)) := by
    intro i hki hi j hj
    refine hread _ (by omega) ?_
    intro n hn hkn
    obtain ⟨n', rfl, hn'⟩ := hbuf.nul
    obtain rfl : n' = n := Int.ofNat.inj hn
    have hle := token_le (p := text) rfl hn' (hi n' rfl hkn)
    omega
  generalize hw : token text buf k = w
  simp only [parseHttp, hi]
  refine Ends.bind (Q := fun r => (∃ code, r = .error code ∧ requestCode buf k = some code) ∨
    r = .ok (copied k w frame.method w.length) ∧ w.length < MAX_METHOD_LEN ∧ buf[k + w.length]? = some SPACE) ?_ ?_
  · refine scan_ends hbuf hw frame.method_length (by decide) ?_ ?_ ?_ ?_ ?_ ?_
    · intro j hj _
      exact hreads k (Nat.le_refl k) (fun _ _ h => h) j (hw ▸ hj)
    · intro j _ hj
      exact hmethod j (Nat.lt_of_lt_pred hj)
    · intro h
      exact .inl ⟨-3, rfl, requestCode_long (hw ▸ h)⟩
    · intro h hspace
      exact .inr ⟨rfl, h, hspace⟩
    · intro h h0
      refine .inl ⟨-2, rfl, ?_⟩
      rw [requestCode_of_stop hw h, h0]
      rfl
    · intro h h0
      rw [requestCode_of_stop hw h, h0]
      rfl
  rintro r (⟨code, rfl, hcode⟩ | ⟨rfl, hlt, hspace⟩)
  · exact .pure hcode
  rw [requestCode_of_stop hw hlt, hspace, Option.bind_some, if_neg (by decide)]
  have hall : ∀ a ∈ w, text a = true := fun a ha => token_all (hw ▸ ha)
  have hdst : w.length < frame.method.length := by rw [frame.method_length]; exact hlt
  obtain ⟨m, hm, hstr⟩ := terminate_copied (k := k) hall hdst
  refine Ends.bind (writeByte_ends (Q := fun m' => m' = m) (hmethod _ hlt) hm rfl) ?_
  rintro _ rfl
  rw [hstr, lift_some_bind]
  by_cases hget : w = GET
  · rw [if_neg (not_not.2 hget), if_neg (not_not.2 hget)]
    rw [addInt_copied hbuf.length_le (List.getElem?_eq_some_iff.1 hspace).1, lift_some_bind]
    refine pathScan_ends hbuf frame.http_length ?_ hhttp
    refine hreads _ (by omega) ?_
    rintro n rfl hkn
    obtain ⟨n', hn, hn'⟩ := hbuf.nul
    obtain rfl : n = n' := Int.ofNat.inj hn
    have hle : k + w.length ≤ n := hw ▸ token_le (p := text) rfl hn' hkn
    have hne : k + w.length ≠ n := by
      rintro rfl
      cases hspace.symm.trans hn'
    omega
  · rw [if_pos hget, if_pos hget]
    exact .pure rfl

theorem parseHttp_value {frame : Frame} (hbuf : HasNul buf req) (hi : frame.i = k) :
    (parseHttp (some buf) req frame).value = requestCode buf k := by
  have hends := parseHttp_ends (P := fun _ => True) hbuf hi
  exact (hends (fun _ _ _ => trivial) (fun _ _ => trivial) fun _ _ => trivial).value_eq

/-- A scan that starts outside the buffer goes wrong at once. -/
theorem parseHttp_wrong {frame : Frame} (hi : frame.i < 0 ∨ buf.length ≤ frame.i) :
    (parseHttp (some buf) req frame).value = none := by
  have hround : (round buf req methodField ⟨frame.i, 0, frame.method⟩).value = none := by
    rw [round, bind_of_none (readReq_wrong hi)]
  have hscan : (scan buf req methodField ⟨frame.i, 0, frame.method⟩).value = none := by
    simp only [scan, methodField, MAX_METHOD_LEN, loop] at hround ⊢
    rw [bind_of_none hround]
  simp only [parseHttp]
  rw [bind_of_none hscan]

end CHell.Http
