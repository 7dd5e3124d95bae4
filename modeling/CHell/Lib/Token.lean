import Mathlib.Data.List.TakeWhile

/-!
# Tokens

`token p l i` is what a scan of `l` from `i` on passes while `p` holds. Its elements meet `p`
(`token_all`), they are the elements of `l` from `i` on (`getElem?_token`), and the element behind
them, if there is one, does not meet `p` (`token_stop`).
-/

namespace Token

variable {α : Type*} {p : α → Bool} {l : List α} {i k : Nat} {a : α}

def token (p : α → Bool) (l : List α) (i : Nat) : List α := (l.drop i).takeWhile p

theorem token_append_rest (p : α → Bool) (l : List α) (i : Nat) : token p l i ++ (l.drop i).dropWhile p = l.drop i :=
  List.takeWhile_append_dropWhile

theorem token_all (ha : a ∈ token p l i) : p a = true := List.mem_takeWhile_imp ha

theorem getElem?_token (hk : k < (token p l i).length) : l[i + k]? = (token p l i)[k]? := by
  rw [← List.getElem?_drop, ← token_append_rest p l i, List.getElem?_append_left hk]

/-- What is read inside a token meets `p`. -/
theorem token_inside (hk : k < (token p l i).length) (ha : l[i + k]? = some a) : p a = true := by
  rw [getElem?_token hk] at ha
  exact token_all (List.mem_of_getElem? ha)

theorem token_stop (ha : l[i + (token p l i).length]? = some a) : p a = false := by
  have hrest := List.head?_dropWhile_not p (l.drop i)
  rw [← List.getElem?_drop, ← token_append_rest p l i, List.getElem?_append_right (Nat.le_refl _), Nat.sub_self,
    ← List.head?_eq_getElem?] at ha
  simpa [ha] using hrest

/-! Where a scan stands on its way along a token, by what it reads. -/

theorem lt_of_inside (hk : k ≤ (token p l i).length) (ha : l[i + k]? = some a) (hpa : p a = true) :
    k < (token p l i).length := by
  refine Nat.lt_of_le_of_ne hk ?_
  rintro rfl
  simp [token_stop ha] at hpa

theorem eq_of_stop (hk : k ≤ (token p l i).length) (ha : l[i + k]? = some a) (hpa : p a = false) :
    k = (token p l i).length := by
  by_contra hne
  have hlt : k < (token p l i).length := by omega
  simp [token_inside hlt ha] at hpa

theorem eq_of_none (hk : k ≤ (token p l i).length) (hl : l[i + k]? = none) : k = (token p l i).length := by
  by_contra hne
  have hlt : k < (token p l i).length := by omega
  rw [getElem?_token hlt, List.getElem?_eq_none_iff] at hl
  omega

theorem token_eq_nil (ha : l[i]? = some a) (hpa : p a = false) : token p l i = [] := by
  have hzero := eq_of_stop (Nat.zero_le _) ha hpa
  exact List.length_eq_zero_iff.1 hzero.symm

/-- A token does not pass an element that fails `p`. -/
theorem token_le (hpa : p a = false) {n : Nat} (ha : l[n]? = some a) (hi : i ≤ n) : i + (token p l i).length ≤ n := by
  by_contra hlt
  have hk : n - i < (token p l i).length := by omega
  have hin : p a = true := token_inside hk (by rwa [Nat.add_sub_cancel' hi])
  simp [hpa] at hin

theorem token_eq {w rest : List α} {b : α} (hl : l.drop i = w ++ b :: rest) (hw : ∀ a ∈ w, p a = true)
    (hb : p b = false) : token p l i = w := by
  rw [token, hl, List.takeWhile_append_of_pos hw, List.takeWhile_cons, hb]
  simp

/-- What stands behind an element that fails `p` is of no account. -/
theorem token_append_stop {b : α} (hb : p b = false) (hi : i ≤ l.length) (rest : List α) :
    token p (l ++ b :: rest) i = token p l i := by
  have hrest : (b :: rest).takeWhile p = [] := by simp [hb]
  rw [token, token, List.drop_append_of_le_length hi, List.takeWhile_append, hrest, List.append_nil]
  split
  · rename_i hall
    have hfront := List.takeWhile_prefix p (l := l.drop i)
    exact (hfront.eq_of_length hall).symm
  · rfl

/-- The token in the front of the list. -/
theorem length_token_take (p : α → Bool) (l : List α) (n i : Nat) :
    (token p (l.take n) i).length = min (n - i) (token p l i).length := by
  rw [token, token, List.drop_take]
  generalize l.drop i = m
  generalize n - i = k
  induction m generalizing k with
  | nil => simp
  | cons a m ih =>
    cases k with
    | zero => simp
    | succ k =>
      cases hpa : p a with
      | true => simp [hpa, ih]
      | false => simp [hpa]

end Token
