import CHell.Http.Scan

/-!
# Runs of `parse_http`

From index 0 a buffer with its NUL at `req` is parsed inside the three arrays (`parseHttp_inside`). But
`int i,j =0;` gives no value to `i`: where the scan starts is what an earlier call left in the frame, and the
result depends on it for every buffer (`parseHttp_determined_iff`).
-/

namespace CHell.Http

open CInt Memory Token Traced

variable {buf : Mem} {req : Int} {k n : Nat} {frame : Frame}

/-! ## Inside the arrays -/

/-- The code `-4` or `-8` is not among these. -/
def codes : List Int := [1, -2, -3, -7, -11]

theorem requestCode_mem {v : Int} (h : requestCode buf k = some v) : v ∈ codes := by
  unfold requestCode pathCode at h
  simp only [codes, List.mem_cons]
  grind

theorem requestCode_ne_none (hn : buf[n]? = some 0) (hk : k ≤ n) : requestCode buf k ≠ none := by
  have hstop : ∀ i ≤ n, ∃ b, buf[i + (token text buf i).length]? = some b := by
    intro i hi
    have hle := token_le (p := text) rfl hn hi
    have hlt := (List.getElem?_eq_some_iff.1 hn).1
    exact ⟨_, List.getElem?_eq_getElem (by omega)⟩
  by_cases hlong : MAX_METHOD_LEN ≤ (token text buf k).length
  · rw [requestCode_long hlong]
    simp
  obtain ⟨b, hb⟩ := hstop k hk
  rw [requestCode_of_stop rfl (Nat.lt_of_not_le hlong), hb, Option.bind_some]
  split
  · simp
  rename_i hb0
  split
  · simp
  have hle := token_le (p := text) rfl hn hk
  have hne : k + (token text buf k).length ≠ n := by
    intro heq
    rw [heq, hn] at hb
    exact hb0 (Option.some.inj hb).symm
  obtain ⟨c, hc⟩ := hstop (k + (token text buf k).length + 1) (by omega)
  simp only [pathCode, hc]
  split <;> simp

/-- The indices in use: `http_req` up to the NUL, the arrays with their terminators. -/
def Inside (n : Nat) : Access → Prop
  | .req i => 0 ≤ i ∧ i ≤ n
  | .method j => j ≤ 9
  | .http j => j ≤ 11

/-- **From index 0, `parse_http` stays inside its arrays and returns one of the five codes.** -/
theorem parseHttp_inside (content rest : Mem) (hfit : content.length + 1 + rest.length = MAX_BUF_LEN + 1)
    (frame : Frame) (hi : frame.i = 0) :
    let run := parseHttp (some (content ++ 0 :: rest)) content.length frame
    run.All (Inside content.length) ∧ ∃ v, run.value = some v ∧ v ∈ codes := by
  have hnul : (content ++ 0 :: rest)[content.length]? = some 0 := by simp
  have hlen : ((content ++ 0 :: rest).length : Int) ≤ INT_MAX := by
    simp only [List.length_append, List.length_cons, MAX_BUF_LEN, INT_MAX] at *
    omega
  have hends := parseHttp_ends (P := Inside content.length) (k := 0) ⟨⟨content.length, rfl, hnul⟩, hlen⟩ hi ?_
    (fun j hj => Nat.le_of_lt_succ hj) (fun j hj => Nat.le_of_lt_succ hj)
  · obtain ⟨v, hv⟩ := Option.ne_none_iff_exists'.1 (requestCode_ne_none hnul (Nat.zero_le _))
    exact ⟨hends.1, v, hends.value_eq.trans hv, requestCode_mem hv⟩
  · intro m _ hm
    have hle := hm content.length rfl (Nat.zero_le _)
    simp only [Inside]
    omega

/-- A frame of zeros, but for `i`. -/
def frameFrom (i : Int) (h : InInt i) : Frame :=
  ⟨i, h, List.replicate MAX_METHOD_LEN 0, List.length_replicate, List.replicate MAX_HTTPSTR_LEN 0,
    List.length_replicate⟩

/-- `"GET / HTTP/1.0"` -/
def getRoot : List UInt8 := [71, 69, 84, 32, 47, 32, 72, 84, 84, 80, 47, 49, 46, 48]

theorem parseHttp_inside_getRoot :
    let run := parseHttp (some (getRoot ++ 0 :: List.replicate 1010 0)) getRoot.length (frameFrom 0 (by decide))
    run.All (Inside getRoot.length) ∧ ∃ v, run.value = some v ∧ v ∈ codes :=
  parseHttp_inside getRoot (List.replicate 1010 0) (by rw [List.length_replicate]; rfl) (frameFrom 0 (by decide)) rfl

/-! ## The uninitialised index -/

/-- The result is the same whatever the frame held. -/
def Determined (http_req : Option Mem) (req : Int) : Prop :=
  ∃ r, ∀ frame, (parseHttp http_req req frame).value = some r

/-- Calls that return, return the same. -/
def Agrees (http_req : Option Mem) (req : Int) : Prop :=
  ∀ frame frame' v v',
    (parseHttp http_req req frame).value = some v → (parseHttp http_req req frame').value = some v' → v = v'

theorem exists_frame (hbuf : HasNul buf req) (hk : k < buf.length) {v : Int}
    (hv : requestCode buf k = some v) : ∃ frame, (parseHttp (some buf) req frame).value = some v := by
  have hint : InInt (k : Int) := by
    have hlen := hbuf.length_le
    unfold INT_MAX at hlen
    constructor <;> omega
  exact ⟨frameFrom k hint, (parseHttp_value hbuf rfl).trans hv⟩

/-- The scans of a buffer that return agree if no token fills `method` and no space ends one. -/
theorem agrees_iff (hbuf : HasNul buf req) :
    Agrees (some buf) req ↔ SPACE ∉ buf ∧ ∀ k, (token text buf k).length < MAX_METHOD_LEN := by
  constructor
  · intro hagree
    -- from the NUL at `req` the method is empty and ends with it
    obtain ⟨n, hn, hnul⟩ := hbuf.nul
    have hlt := (List.getElem?_eq_some_iff.1 hnul).1
    have hcode : requestCode buf n = some (-2) := by
      rw [requestCode_of_stop (token_eq_nil hnul rfl) (by decide)]
      simp [hnul]
    obtain ⟨frame, hframe⟩ := exists_frame hbuf hlt hcode
    refine ⟨?_, ?_⟩
    · intro hmem
      obtain ⟨p, hp, hspace⟩ := List.getElem_of_mem hmem
      have hat : buf[p]? = some SPACE := by rw [List.getElem?_eq_getElem hp, hspace]
      have hcode' : requestCode buf p = some (-11) := by
        rw [requestCode_of_stop (token_eq_nil hat rfl) (by decide)]
        simp [hat, SPACE, GET]
      obtain ⟨frame', hframe'⟩ := exists_frame hbuf hp hcode'
      cases hagree frame frame' _ _ hframe hframe'
    · intro k
      by_contra hlong
      have hlong : MAX_METHOD_LEN ≤ (token text buf k).length := Nat.le_of_not_lt hlong
      have hk : k < buf.length := by
        by_contra hge
        rw [token, List.drop_of_length_le (Nat.le_of_not_lt hge)] at hlong
        cases hlong
      obtain ⟨frame', hframe'⟩ := exists_frame hbuf hk (requestCode_long hlong)
      cases hagree frame frame' _ _ hframe hframe'
  · rintro ⟨hspace, hshort⟩ frame frame' v v' hv hv'
    suffices hminus : ∀ frame v, (parseHttp (some buf) req frame).value = some v → v = -2 by
      rw [hminus frame v hv, hminus frame' v' hv']
    intro frame v hv
    by_cases hi : frame.i < 0 ∨ buf.length ≤ frame.i
    · rw [parseHttp_wrong hi] at hv
      cases hv
    obtain ⟨k, hk⟩ : ∃ k : Nat, frame.i = k := ⟨frame.i.toNat, by omega⟩
    rw [parseHttp_value hbuf hk, requestCode_of_stop rfl (hshort k), Option.bind_eq_some_iff] at hv
    obtain ⟨b, hb, hv⟩ := hv
    rcases text_false_iff.1 (token_stop hb) with rfl | rfl
    · exact absurd (List.mem_of_getElem? hb) hspace
    · simpa using hv.symm

/-- **Only the call with NULL returns the same in every frame.** Where calls that do not return are left out, a
buffer with its NUL at `req` is parsed the same from every start if and only if it has no space and no ten bytes
of text in a row. -/
theorem parseHttp_determined_iff (http_req : Option Mem) (req : Int) :
    (Determined http_req req ↔ http_req = none) ∧
      ∀ buf, http_req = some buf → (∃ n : Nat, req = n ∧ buf[n]? = some 0) → (buf.length : Int) ≤ INT_MAX →
        (Agrees http_req req ↔ SPACE ∉ buf ∧ ∀ k, (token text buf k).length < MAX_METHOD_LEN) := by
  refine ⟨⟨?_, ?_⟩, ?_⟩
  · rintro ⟨r, hr⟩
    cases http_req with
    | none => rfl
    | some buf =>
      have hwrong : (parseHttp (some buf) req (frameFrom (-1) (by decide))).value = none :=
        parseHttp_wrong (.inl (by decide))
      rw [hr] at hwrong
      cases hwrong
  · rintro rfl
    exact ⟨-1, fun _ => rfl⟩
  · rintro buf rfl hend hlen
    exact agrees_iff ⟨hend, hlen⟩

/-- `"GET / HTTP/1.0"` parsed from index 0, and from the space behind `GET`. -/
theorem parseHttp_undetermined :
    ¬ ∀ (http_req : Option Mem) (req : Int) (frame frame' : Frame) (v v' : Int),
      (parseHttp http_req req frame).value = some v → (parseHttp http_req req frame').value = some v' → v = v' := by
  intro hclaim
  have hone : (parseHttp (some (getRoot ++ [0])) 14 (frameFrom 0 (by decide))).value = some 1 := by decide
  have heleven : (parseHttp (some (getRoot ++ [0])) 14 (frameFrom 3 (by decide))).value = some (-11) := by decide
  cases hclaim _ _ _ _ _ _ hone heleven

end CHell.Http
