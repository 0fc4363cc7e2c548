import Capcurl.Lib.Bytes
import Mathlib.Data.Nat.Digits.Defs

/-! # Numerals: decimal writing, reading in a radix -/

namespace Capcurl.Lib

/-! ## Digits -/

/-- The value of a digit byte; at least 36 for every other byte. -/
def digitValue (b : Byte) : Nat :=
  if isDigit b then b.toNat - 48
  else if isLower b then b.toNat - 87
  else if isUpper b then b.toNat - 55
  else 255

/-- `char::to_digit(radix)` -/
def toDigit (radix : Nat) (b : Byte) : Option Nat :=
  if digitValue b < radix then some (digitValue b) else none

/-- The number a digit string denotes, most significant digit first. -/
def value (radix : Nat) (t : Text) : Nat := t.foldl (fun acc b => acc * radix + digitValue b) 0

/-- `from_str_radix`, before the overflow check. -/
def digitsVal (radix : Nat) (t : Text) : Option Nat :=
  t.foldl (fun acc b => acc.bind fun v => (toDigit radix b).map (v * radix + ·)) (some 0)

/-- `from_str_radix` of an unsigned type below `bound`: one leading plus sign is skipped. -/
def parseUnsigned (radix bound : Nat) (t : Text) : Option Nat :=
  let digits := if t.head? = some (ch '+') then t.tail else t
  if digits = [] then none else (digitsVal radix digits).filter (· < bound)

theorem digitValue_of_digit (b : Byte) (h : isDigit b = true) : digitValue b < 10 := by
  grind [digitValue, isDigit, UInt8.le_iff_toNat_le]

theorem digitValue_of_hex (b : Byte) (h : isHexDigit b = true) : digitValue b < 16 := by
  grind [digitValue, isHexDigit, isDigit, isLower, isUpper, UInt8.le_iff_toNat_le]

theorem toDigit_lt (radix : Nat) (b : Byte) (n : Nat) (h : toDigit radix b = some n) : n < radix := by
  unfold toDigit at h
  split at h
  · rename_i hlt
    exact Option.some.inj h ▸ hlt
  · cases h

theorem toDigit_isSome (b : Byte) : (toDigit 16 b).isSome = isHexDigit b := by
  grind [toDigit, digitValue, isHexDigit, isDigit, isLower, isUpper, UInt8.le_iff_toNat_le]

theorem hex_graphic (b : Byte) (h : isHexDigit b = true) : isGraphic b = true := by
  grind [isHexDigit, isDigit, isGraphic]

theorem hex_ne (b c : Byte) (h : isHexDigit b = true) (hc : isHexDigit c = false) : b ≠ c := by
  rintro rfl
  rw [h] at hc
  cases hc

theorem hex_ne_plus (b : Byte) (h : isHexDigit b = true) : b ≠ ch '+' := hex_ne b (ch '+') h rfl

theorem hex_of_digit (b : Byte) (h : isDigit b = true) : isHexDigit b = true := by
  grind [isHexDigit, isDigit]

theorem value_append (radix : Nat) (a : Text) (b : Byte) :
    value radix (a ++ [b]) = value radix a * radix + digitValue b := by
  simp [value, List.foldl_append]

theorem digitsVal_append (radix : Nat) (a : Text) (b : Byte) :
    digitsVal radix (a ++ [b]) =
      (digitsVal radix a).bind fun v => (toDigit radix b).map (v * radix + ·) := by
  simp [digitsVal, List.foldl_append]

theorem digitsVal_eq (radix : Nat) (t : Text) (h : ∀ b ∈ t, digitValue b < radix) :
    digitsVal radix t = some (value radix t) := by
  induction t using List.reverseRecOn with
  | nil => rfl
  | append_singleton t b ih =>
    rw [digitsVal_append, value_append, ih fun c hc => h c (by simp [hc])]
    simp [toDigit, h b (by simp)]

theorem value_lt (radix : Nat) (t : Text) (h : ∀ b ∈ t, digitValue b < radix) :
    value radix t < radix ^ t.length := by
  induction t using List.reverseRecOn with
  | nil => simp [value]
  | append_singleton t b ih =>
    have hb := h b (by simp)
    have ht := ih fun c hc => h c (by simp [hc])
    rw [value_append, List.length_append, List.length_singleton, pow_succ]
    calc value radix t * radix + digitValue b
        < value radix t * radix + radix := by omega
      _ = (value radix t + 1) * radix := by rw [Nat.add_mul, Nat.one_mul]
      _ ≤ radix ^ t.length * radix := Nat.mul_le_mul_right _ ht

theorem parseUnsigned_digits (radix bound : Nat) (t : Text) (hne : t ≠ [])
    (hplus : ch '+' ∉ t) (h : ∀ b ∈ t, digitValue b < radix) :
    parseUnsigned radix bound t = if value radix t < bound then some (value radix t) else none := by
  have hhead : t.head? ≠ some (ch '+') := fun hh => hplus (List.mem_of_mem_head? hh)
  unfold parseUnsigned
  rw [if_neg hhead, if_neg hne, digitsVal_eq radix t h]
  simp [Option.filter]

/-! ## Decimal -/

/-- `format!("{n}")` -/
def decimal (n : Nat) : Text := (Nat.toDigits 10 n).map ch

def digitByte (d : Nat) : Byte := UInt8.ofNat (48 + d)

theorem ch_digitChar : ∀ d < 10, ch (Nat.digitChar d) = digitByte d := by decide

theorem digitByte_digit : ∀ d < 10, isDigit (digitByte d) = true := by decide

theorem digitValue_digitByte : ∀ d < 10, digitValue (digitByte d) = d := by decide

theorem decimal_of_lt (n : Nat) (h : n < 10) : decimal n = [digitByte n] := by
  unfold decimal
  rw [Nat.toDigits_of_lt_base h, List.map_singleton, ch_digitChar n h]

theorem decimal_of_ge (n : Nat) (h : 10 ≤ n) :
    decimal n = decimal (n / 10) ++ [digitByte (n % 10)] := by
  have hmod : n % 10 < 10 := Nat.mod_lt n (by omega)
  rw [decimal, Nat.toDigits_of_base_le (by omega) h, List.map_append, List.map_singleton,
    ch_digitChar _ hmod, decimal]

theorem decimal_induction {P : Nat → Prop} (small : ∀ n < 10, P n)
    (more : ∀ n, 10 ≤ n → P (n / 10) → P n) (n : Nat) : P n := by
  induction n using Nat.strong_induction_on with
  | _ n ih =>
    rcases Nat.lt_or_ge n 10 with h | h
    · exact small n h
    · exact more n h (ih (n / 10) (by omega))

theorem decimal_ne_nil (n : Nat) : decimal n ≠ [] := by
  rcases Nat.lt_or_ge n 10 with h | h
  · simp [decimal_of_lt n h]
  · simp [decimal_of_ge n h]

theorem decimal_digits (n : Nat) : ∀ b ∈ decimal n, isDigit b = true := by
  induction n using decimal_induction with
  | small n h =>
    rw [decimal_of_lt n h]
    simp [digitByte_digit n h]
  | more n h ih =>
    rw [decimal_of_ge n h]
    intro b hb
    rcases List.mem_append.mp hb with hb | hb
    · exact ih b hb
    · rw [List.mem_singleton.mp hb]
      exact digitByte_digit _ (Nat.mod_lt _ (by omega))

theorem value_decimal (n : Nat) : value 10 (decimal n) = n := by
  induction n using decimal_induction with
  | small n h => simp [decimal_of_lt n h, value, digitValue_digitByte n h]
  | more n h ih =>
    rw [decimal_of_ge n h, value_append, ih, digitValue_digitByte _ (Nat.mod_lt _ (by omega))]
    omega

theorem decimal_length_le (k n : Nat) (hk : 0 < k) (h : n < 10 ^ k) : (decimal n).length ≤ k := by
  induction k generalizing n with
  | zero => omega
  | succ k ih =>
    rcases Nat.lt_or_ge n 10 with hn | hn
    · rw [decimal_of_lt n hn]
      simp
    · have hpos : 0 < k := by
        by_contra hzero
        have hk : k = 0 := by omega
        subst hk
        omega
      have hdiv : n / 10 < 10 ^ k := by
        rw [Nat.pow_succ] at h
        omega
      have hlen := ih (n / 10) hpos hdiv
      rw [decimal_of_ge n hn, List.length_append, List.length_singleton]
      omega

theorem decimal_no_plus (n : Nat) : ch '+' ∉ decimal n := by
  intro h
  exact hex_ne_plus _ (hex_of_digit _ (decimal_digits n _ h)) rfl

theorem parseUnsigned_decimal (bound n : Nat) (h : n < bound) :
    parseUnsigned 10 bound (decimal n) = some n := by
  rw [parseUnsigned_digits 10 bound _ (decimal_ne_nil n) (decimal_no_plus n)
    fun b hb => digitValue_of_digit b (decimal_digits n b hb), value_decimal, if_pos h]

theorem decimal_graphic (n : Nat) : (decimal n).all isGraphic = true := by
  rw [List.all_eq_true]
  intro b hb
  exact digit_graphic b (decimal_digits n b hb)

end Capcurl.Lib
