import Mathlib.Data.Nat.Digits.Defs

/-
  Decimals of a fixed width, and their order as texts.

  Main declarations:
    * `Decimal.digits`
    * `Decimal.append_lt_append`
    * `Decimal.digits_lt`
    * `Decimal.digits_append_lt`
    * `Decimal.bytes`, `Decimal.bytes_inj`, `Decimal.bytes_lt`
-/

------------------------------------------------------------
-- Digits
------------------------------------------------------------

namespace Decimal

/- The last `width` decimal digits of a number. -/
def digits : Nat → Nat → List Char
| 0, _ => []
| width + 1, n =>
    Nat.digitChar (n / 10 ^ width % 10) :: digits width n

@[simp] theorem length_digits
    (width n : Nat) :
    (digits width n).length = width := by
  induction width with
  | zero => rfl
  | succ width ih => rw [digits, List.length_cons, ih]

theorem digitChar_lt
    {a b : Nat}
    (hLt : a < b)
    (hTen : b < 10) :
    Nat.digitChar a < Nat.digitChar b := by
  rw [Char.lt_def, UInt32.lt_iff_toNat_lt]
  change (Nat.digitChar a).toNat < (Nat.digitChar b).toNat
  rw [Nat.toNat_digitChar_of_lt_ten (by omega),
    Nat.toNat_digitChar_of_lt_ten hTen]
  omega

theorem le_of_mem_digits
    {width n : Nat} {c : Char}
    (hMem : c ∈ digits width n) :
    48 ≤ c.toNat ∧ c.toNat < 58 := by
  induction width with
  | zero => cases hMem
  | succ width ih =>
      rw [digits, List.mem_cons] at hMem
      rcases hMem with rfl | hMem
      · have hDigit : n / 10 ^ width % 10 < 10 := by omega
        rw [Nat.toNat_digitChar_of_lt_ten hDigit]
        omega
      · exact ih hMem

/- The digits of a longer decimal begin with a shorter one. -/
theorem digits_add
    (k width n : Nat) :
    digits (k + width) n =
      digits k (n / 10 ^ width) ++ digits width n := by
  induction k with
  | zero => rw [Nat.zero_add, digits, List.nil_append]
  | succ k ih =>
      rw [Nat.succ_add, digits, digits, ih, List.cons_append,
        Nat.div_div_eq_div_mul, ← Nat.pow_add,
        Nat.add_comm width k]

------------------------------------------------------------
-- Order
------------------------------------------------------------

/- Texts of one length are ordered before what follows. -/
theorem append_lt_append
    {xs ys : List Char}
    (hLength : xs.length = ys.length)
    (hLt : xs < ys)
    (xs' ys' : List Char) :
    xs ++ xs' < ys ++ ys' := by
  induction xs generalizing ys with
  | nil =>
      rw [List.eq_nil_of_length_eq_zero hLength.symm] at hLt
      exact absurd hLt (List.lt_irrefl [])
  | cons x xs ih =>
      cases ys with
      | nil => cases hLength
      | cons y ys =>
          rw [List.cons_lt_cons_iff] at hLt
          rw [List.cons_append, List.cons_append,
            List.cons_lt_cons_iff]
          rcases hLt with hHead | ⟨hHead, hTail⟩
          · exact Or.inl hHead
          · exact Or.inr
              ⟨hHead, ih (Nat.succ.inj hLength) hTail⟩

theorem digits_lt_of_mod
    {width m n : Nat}
    (hLt : m % 10 ^ width < n % 10 ^ width) :
    digits width m < digits width n := by
  induction width with
  | zero =>
      rw [Nat.pow_zero, Nat.mod_one, Nat.mod_one] at hLt
      exact absurd hLt (Nat.lt_irrefl 0)
  | succ width ih =>
      have hHigh : m / 10 ^ width % 10 ≤ n / 10 ^ width % 10 := by
        by_contra hLess
        have hStep :
            10 ^ width * (n / 10 ^ width % 10 + 1) ≤
              10 ^ width * (m / 10 ^ width % 10) :=
          Nat.mul_le_mul_left _ (by omega)
        have hLow : n % 10 ^ width < 10 ^ width :=
          Nat.mod_lt _ (Nat.pow_pos (by omega))
        rw [Nat.mod_pow_succ, Nat.mod_pow_succ] at hLt
        rw [Nat.mul_succ] at hStep
        omega
      rw [digits, digits, List.cons_lt_cons_iff]
      by_cases hEq : m / 10 ^ width % 10 = n / 10 ^ width % 10
      · refine Or.inr ⟨by rw [hEq], ih ?_⟩
        rw [Nat.mod_pow_succ, Nat.mod_pow_succ, hEq] at hLt
        omega
      · exact Or.inl (digitChar_lt (by omega) (by omega))

/- Decimals are ordered as the numbers that they write. -/
theorem digits_lt
    {width m n : Nat}
    (hLt : m < n)
    (hWidth : n < 10 ^ width) :
    digits width m < digits width n := by
  apply digits_lt_of_mod
  rw [Nat.mod_eq_of_lt hWidth,
    Nat.mod_eq_of_lt (Nat.lt_trans hLt hWidth)]
  exact hLt

/-
  Decimals of two widths, as fractions after a point, with a
  mark after them that comes before every digit.
-/
theorem digits_append_lt
    {width width' m n scale : Nat} {mark : Char}
    {xs ys : List Char}
    (hMark : mark.toNat < 48)
    (hWidth : width ≤ scale)
    (hWidth' : width' ≤ scale)
    (hFits : n < 10 ^ width')
    (hLt :
      m * 10 ^ (scale - width) < n * 10 ^ (scale - width')) :
    digits width m ++ mark :: xs <
      digits width' n ++ mark :: ys := by
  by_cases hLonger : width' < width
  · -- the first digits of the longer one decide
    rcases Nat.exists_eq_add_of_lt hLonger with ⟨k, hk⟩
    have hSplit : width = width' + (k + 1) := by omega
    have hScale : scale - width' = (scale - width) + (k + 1) := by
      omega
    rw [hScale, Nat.pow_add, Nat.mul_comm (10 ^ (scale - width)),
      ← Nat.mul_assoc] at hLt
    have hShort : m / 10 ^ (k + 1) < n :=
      Nat.div_lt_of_lt_mul
        (by
          rw [Nat.mul_comm]
          exact Nat.lt_of_mul_lt_mul_right hLt)
    rw [hSplit, digits_add, List.append_assoc]
    exact append_lt_append
      (by rw [length_digits, length_digits])
      (digits_lt hShort hFits) _ _
  · rcases Nat.exists_eq_add_of_le (Nat.le_of_not_lt hLonger)
      with ⟨k, hk⟩
    have hScale : scale - width = (scale - width') + k := by omega
    rw [hScale, Nat.pow_add, Nat.mul_comm (10 ^ (scale - width')),
      ← Nat.mul_assoc] at hLt
    have hLess : m * 10 ^ k < n :=
      Nat.lt_of_mul_lt_mul_right hLt
    have hPower : 0 < 10 ^ k := Nat.pow_pos (by omega)
    have hShort : m ≤ n / 10 ^ k :=
      (Nat.le_div_iff_mul_le hPower).mpr (Nat.le_of_lt hLess)
    have hFirst : n / 10 ^ k < 10 ^ width := by
      apply Nat.div_lt_of_lt_mul
      rw [← Nat.pow_add, Nat.add_comm, ← hk]
      exact hFits
    rw [hk, digits_add, List.append_assoc]
    by_cases hEq : m = n / 10 ^ k
    · -- the mark of the shorter one meets a digit
      rw [hEq]
      apply List.append_left_lt
      cases k with
      | zero =>
          rw [Nat.pow_zero, Nat.div_one] at hEq
          rw [Nat.pow_zero, Nat.mul_one, hEq] at hLess
          exact absurd hLess (Nat.lt_irrefl n)
      | succ k =>
          rw [digits, List.cons_append, List.cons_lt_cons_iff]
          have hDigit : n / 10 ^ k % 10 < 10 := by omega
          refine Or.inl ?_
          rw [Char.lt_def, UInt32.lt_iff_toNat_lt]
          change mark.toNat < (Nat.digitChar _).toNat
          rw [Nat.toNat_digitChar_of_lt_ten hDigit]
          omega
    · exact append_lt_append
        (by rw [length_digits, length_digits])
        (digits_lt (by omega) hFirst) _ _

------------------------------------------------------------
-- Bytes
------------------------------------------------------------

/- The encoded text. -/
def bytes (text : String) : List UInt8 :=
  text.toUTF8.data.toList

theorem bytes_inj
    {text text' : String}
    (h : bytes text = bytes text') : text = text' := by
  unfold bytes at h
  rw [String.toUTF8_eq_toByteArray,
    String.toUTF8_eq_toByteArray] at h
  apply String.toByteArray_inj.mp
  exact ByteArray.ext (Array.toList_inj.mp h)

/- A text of ASCII characters has a byte for each of them. -/
theorem bytes_ofList
    {cs : List Char}
    (hAscii : ∀ c ∈ cs, c.toNat < 128) :
    bytes (String.ofList cs) = cs.map (fun c => c.val.toUInt8) := by
  unfold bytes
  rw [String.toUTF8_eq_toByteArray, String.toByteArray_ofList,
    List.utf8Encode, List.toList_data_toByteArray]
  induction cs with
  | nil => rfl
  | cons c cs ih =>
      have hOne : c.utf8Size = 1 := by
        rw [Char.utf8Size_eq_one_iff, UInt32.le_iff_toNat_le]
        have hc := hAscii c List.mem_cons_self
        change c.toNat ≤ 127
        omega
      rw [List.flatMap_cons, List.map_cons,
        String.utf8EncodeChar_eq_singleton hOne,
        ih (fun d hd => hAscii d (List.mem_cons_of_mem c hd))]
      rfl

theorem byte_lt_iff
    {c d : Char}
    (hc : c.toNat < 128)
    (hd : d.toNat < 128) :
    c.val.toUInt8 < d.val.toUInt8 ↔ c < d := by
  have hc' : c.val.toNat < 128 := hc
  have hd' : d.val.toNat < 128 := hd
  rw [UInt8.lt_iff_toNat_lt, Char.lt_def,
    UInt32.lt_iff_toNat_lt, UInt32.toNat_toUInt8,
    UInt32.toNat_toUInt8, Nat.mod_eq_of_lt (by omega),
    Nat.mod_eq_of_lt (by omega)]

/- The bytes of ASCII texts are ordered like the texts. -/
theorem bytes_lt
    {cs ds : List Char}
    (hcs : ∀ c ∈ cs, c.toNat < 128)
    (hds : ∀ c ∈ ds, c.toNat < 128)
    (hLt : cs < ds) :
    bytes (String.ofList cs) < bytes (String.ofList ds) := by
  rw [bytes_ofList hcs, bytes_ofList hds]
  induction hLt with
  | nil => exact List.Lex.nil
  | rel hHead =>
      apply List.Lex.rel
      exact (byte_lt_iff (hcs _ List.mem_cons_self)
        (hds _ List.mem_cons_self)).mpr hHead
  | cons _ ih =>
      apply List.Lex.cons
      exact ih (fun c hc => hcs c (List.mem_cons_of_mem _ hc))
        (fun c hc => hds c (List.mem_cons_of_mem _ hc))

end Decimal
