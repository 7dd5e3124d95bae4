import Mathlib.Data.List.Basic

/-!
# IPv4 addresses and their texts

`inet_ntoa` writes the four octets in decimal with dots between them; `inet_pton` for `AF_INET`
accepts exactly such texts (no octet above 255, no leading zero). A text is its bytes without the
terminating NUL. `inetPton4_ntoa`: the second undoes the first, so texts identify addresses.
-/

namespace Inet

/-- `struct in_addr`, in memory order. -/
structure InAddr where
  b0 : UInt8
  b1 : UInt8
  b2 : UInt8
  b3 : UInt8
deriving DecidableEq

def InAddr.bytes (x : InAddr) : List UInt8 := [x.b0, x.b1, x.b2, x.b3]

@[simp] theorem InAddr.length_bytes (x : InAddr) : x.bytes.length = 4 := rfl

/-- `%d` of an octet. -/
def decimal (n : Nat) : List UInt8 :=
  let digit d := UInt8.ofNat (48 + d)
  if n < 10 then [digit n]
  else if n < 100 then [digit (n / 10), digit (n % 10)]
  else [digit (n / 100), digit (n / 10 % 10), digit (n % 10)]

/-- The dot is 46. -/
def inetNtoa (x : InAddr) : List UInt8 :=
  decimal x.b0.toNat ++ 46 :: (decimal x.b1.toNat ++ 46 :: (decimal x.b2.toNat ++ 46 :: decimal x.b3.toNat))

/-- The parts of a text between its dots. -/
def splitDots : List UInt8 → List (List UInt8)
  | [] => [[]]
  | c :: cs =>
    if c = 46 then [] :: splitDots cs
    else match splitDots cs with
      | [] => [[c]]
      | w :: ws => (c :: w) :: ws

def octet (ds : List UInt8) : Option UInt8 :=
  let v := ds.foldl (fun v d => 10 * v + (d.toNat - 48)) 0
  if ds ≠ [] ∧ (ds.all fun d => 48 ≤ d ∧ d ≤ 57) ∧ (ds.head? = some 48 → ds.length = 1) ∧ v ≤ 255 then
    some (UInt8.ofNat v)
  else none

def inetPton4 (text : List UInt8) : Option InAddr :=
  match splitDots text with
  | [a, b, c, d] => do some ⟨← octet a, ← octet b, ← octet c, ← octet d⟩
  | _ => none

/-! ## Reading back -/

theorem octet_decimal (b : UInt8) : octet (decimal b.toNat) = some b := by
  have hall : ∀ n < 256, octet (decimal n) = some (UInt8.ofNat n) := by decide +kernel
  have hb := hall b.toNat b.toNat_lt
  rwa [UInt8.ofNat_toNat] at hb

/-- A decimal number has no dot and no colon in it. -/
theorem notMem_decimal (b : UInt8) : 46 ∉ decimal b.toNat ∧ 58 ∉ decimal b.toNat := by
  have hall : ∀ n < 256, 46 ∉ decimal n ∧ 58 ∉ decimal n := by decide +kernel
  exact hall b.toNat b.toNat_lt

theorem splitDots_word {w : List UInt8} (h : 46 ∉ w) : splitDots w = [w] := by
  induction w with
  | nil => rfl
  | cons c w ih =>
    obtain ⟨hc, hw⟩ := not_or.1 (List.mem_cons.not.1 h)
    rw [splitDots, if_neg (Ne.symm hc), ih hw]

theorem splitDots_append {w : List UInt8} (h : 46 ∉ w) (rest : List UInt8) :
    splitDots (w ++ 46 :: rest) = w :: splitDots rest := by
  induction w with
  | nil => rfl
  | cons c w ih =>
    obtain ⟨hc, hw⟩ := not_or.1 (List.mem_cons.not.1 h)
    rw [List.cons_append, splitDots, if_neg (Ne.symm hc), ih hw]

/-- **The text of an address is read back as that address.** -/
theorem inetPton4_ntoa (x : InAddr) : inetPton4 (inetNtoa x) = some x := by
  have hsplit : splitDots (inetNtoa x) =
      [decimal x.b0.toNat, decimal x.b1.toNat, decimal x.b2.toNat, decimal x.b3.toNat] := by
    rw [inetNtoa, splitDots_append (notMem_decimal x.b0).1, splitDots_append (notMem_decimal x.b1).1,
      splitDots_append (notMem_decimal x.b2).1, splitDots_word (notMem_decimal x.b3).1]
  unfold inetPton4
  rw [hsplit]
  simp only [octet_decimal]
  rfl

/-- Different addresses have different texts. -/
theorem inetNtoa_injective : Function.Injective inetNtoa := by
  intro x y h
  have hx := inetPton4_ntoa x
  rw [h, inetPton4_ntoa y] at hx
  exact (Option.some.inj hx).symm

theorem colon_notMem_inetNtoa (x : InAddr) : 58 ∉ inetNtoa x := by
  have h0 := (notMem_decimal x.b0).2
  have h1 := (notMem_decimal x.b1).2
  have h2 := (notMem_decimal x.b2).2
  have h3 := (notMem_decimal x.b3).2
  simp [inetNtoa, h0, h1, h2, h3]

end Inet
