import CHell.Http.Client

/-!
# Which requests are answered, `network/http.c`

`Accepted bs` says of the bytes of one `recv` that `handle_client` answers them: `GET`, a space, and no more than
eleven bytes up to the next space, NUL or the end. The version is not looked at, nor is whether there is one, and
nothing behind the first 16 bytes counts.
-/

namespace CHell.Http

open CInt Memory Token Traced

def Accepted (bs : List UInt8) : Prop :=
  bs.take 4 = GET ++ [SPACE] ∧ (token text bs 4).length < MAX_HTTPSTR_LEN

instance (bs : List UInt8) : Decidable (Accepted bs) := inferInstanceAs (Decidable (_ ∧ _))

variable {bs rest : List UInt8}

theorem exists_of_take (h : bs.take 4 = GET ++ [SPACE]) : ∃ path, bs = GET ++ SPACE :: path := by
  refine ⟨bs.drop 4, ?_⟩
  conv_lhs => rw [← List.take_append_drop 4 bs, h]
  rw [List.append_assoc]
  rfl

/-- A token that is GET, and something behind it that is no NUL. -/
theorem exists_of_token {b : UInt8} (hw : token text bs 0 = GET) (hb : (bs ++ 0 :: rest)[3]? = some b) (hne : b ≠ 0) :
    ∃ path, bs = GET ++ SPACE :: path := by
  have hsplit := token_append_rest text bs 0
  rw [hw, List.drop_zero] at hsplit
  generalize bs.dropWhile text = d at hsplit
  subst hsplit
  cases d with
  | nil =>
    have hzero : ((GET ++ []) ++ 0 :: rest)[3]? = some 0 := rfl
    rw [hzero] at hb
    exact absurd (Option.some.inj hb).symm hne
  | cons c path =>
    have hc : ((GET ++ c :: path) ++ 0 :: rest)[3]? = some c := rfl
    rw [hc] at hb
    have hstop : text c = false := token_stop (l := GET ++ c :: path) (i := 0) (by rw [hw]; rfl)
    rw [Option.some.inj hb] at hstop ⊢
    exact ⟨path, by rw [(text_false_iff.1 hstop).resolve_right hne]⟩

theorem pathCode_eq_one {k : Nat} (hk : k ≤ bs.length) :
    pathCode (bs ++ 0 :: rest) k = some 1 ↔ (token text bs k).length < MAX_HTTPSTR_LEN := by
  have htoken : token text (bs ++ 0 :: rest) k = token text bs k := token_append_stop rfl hk rest
  by_cases hlong : MAX_HTTPSTR_LEN ≤ (token text bs k).length
  · rw [pathCode_long (htoken ▸ hlong)]
    simpa using hlong
  · have hnul : (bs ++ 0 :: rest)[bs.length]? = some 0 := by simp
    have hle := token_le (p := text) rfl hnul hk
    have hlt := (List.getElem?_eq_some_iff.1 hnul).1
    rw [pathCode_of_stop htoken (Nat.lt_of_not_le hlong), List.getElem?_eq_getElem (by rw [← htoken]; omega)]
    simpa using hlong

/-- **When `parse_http` returns 1.** -/
theorem requestCode_eq_one : requestCode (bs ++ 0 :: rest) 0 = some 1 ↔ Accepted bs := by
  have htoken : token text (bs ++ 0 :: rest) 0 = token text bs 0 := token_append_stop rfl (Nat.zero_le _) rest
  constructor
  · intro h
    by_cases hlong : MAX_METHOD_LEN ≤ (token text bs 0).length
    · rw [requestCode_long (htoken ▸ hlong)] at h
      cases h
    rw [requestCode_of_stop htoken (Nat.lt_of_not_le hlong), Option.bind_eq_some_iff] at h
    obtain ⟨b, hb, h⟩ := h
    split at h
    · cases h
    rename_i hne
    split at h
    · cases h
    rename_i hget
    have hget : token text bs 0 = GET := not_not.1 hget
    rw [hget] at hb h
    obtain ⟨path, rfl⟩ := exists_of_token hget hb hne
    exact ⟨rfl, (pathCode_eq_one (k := 4) (by simp [GET])).1 h⟩
  · rintro ⟨htake, hshort⟩
    obtain ⟨path, rfl⟩ := exists_of_take htake
    have hget : token text ((GET ++ SPACE :: path) ++ 0 :: rest) 0 = GET :=
      token_eq (by rfl) (List.all_eq_true.1 rfl) rfl
    have hspace : ((GET ++ SPACE :: path) ++ 0 :: rest)[0 + GET.length]? = some SPACE := rfl
    rw [requestCode_of_stop hget (by decide), hspace, Option.bind_some, if_neg (by decide), if_neg (by decide)]
    exact (pathCode_eq_one (k := 4) (by simp [GET])).2 hshort

/-- Sixteen bytes decide. -/
theorem accepted_take : Accepted (bs.take 16) ↔ Accepted bs := by
  have hmin : min (16 - 4) (token text bs 4).length < MAX_HTTPSTR_LEN ↔ (token text bs 4).length < MAX_HTTPSTR_LEN := by
    unfold MAX_HTTPSTR_LEN
    omega
  unfold Accepted
  rw [List.take_take, length_token_take, hmin, Nat.min_eq_left (by omega)]

/-- **Exactly the requests of this form are answered.** For all bytes `recv` may have read: `handle_client` sends
its two texts if they are accepted, and otherwise returns -1 and sends nothing; and that is a matter of the
first 16 bytes. -/
theorem request_language (buffer : Buffer) (bs : Received) (frame : Frame) (hi : frame.i = 0) (sent : String → Int) :
    (Accepted bs.1 → Answers (handleClient buffer (some bs) (fun b n => (parseHttp (some b) n frame).value) sent)) ∧
    (¬ Accepted bs.1 →
      (handleClient buffer (some bs) (fun b n => (parseHttp (some b) n frame).value) sent).value = some (-1) ∧
      ∀ t, .send t ∉ (handleClient buffer (some bs) (fun b n => (parseHttp (some b) n frame).value) sent).events) ∧
    (Accepted (bs.1.take 16) ↔ Accepted bs.1) := by
  have hnul : (terminated buffer bs.1)[bs.1.length]? = some 0 := by simp [terminated]
  have hlen : ((terminated buffer bs.1).length : Int) ≤ INT_MAX := by
    have hle := bs.2
    simp only [terminated, List.length_append, List.length_cons, List.length_drop, buffer.2, MAX_BUF_LEN,
      INT_MAX] at hle ⊢
    omega
  have hvalue : (parseHttp (some (terminated buffer bs.1)) bs.1.length frame).value =
      requestCode (terminated buffer bs.1) 0 :=
    parseHttp_value ⟨⟨_, rfl, hnul⟩, hlen⟩ hi
  have hone : requestCode (terminated buffer bs.1) 0 = some 1 ↔ Accepted bs.1 := requestCode_eq_one
  refine ⟨?_, ?_, accepted_take⟩
  · intro h
    rw [hone.2 h] at hvalue
    rw [handleClient_got hvalue, reply_eq]
    simp [Answers]
  · intro h
    obtain ⟨v, hv⟩ := Option.ne_none_iff_exists'.1 (requestCode_ne_none hnul (Nat.zero_le _))
    have hcodes := requestCode_mem hv
    have hne : ¬ (v = 0 ∨ v = 1) := by
      rintro (rfl | rfl)
      · exact absurd hcodes (by decide)
      · exact h (hone.1 hv)
    rw [hv] at hvalue
    rw [handleClient_got hvalue, reply_eq, if_neg hne]
    refine ⟨rfl, fun t => ?_⟩
    split <;> simp

/-- `"GET "`, and nothing else. -/
theorem request_language_bare :
    Answers (handleClient zeroBuffer (some ⟨GET ++ [SPACE], by decide⟩)
      (fun b n => (parseHttp (some b) n (frameFrom 0 (by decide))).value) fun _ => 0) :=
  (request_language zeroBuffer ⟨GET ++ [SPACE], by decide⟩ (frameFrom 0 (by decide)) rfl fun _ => 0).1 (by decide)

end CHell.Http
