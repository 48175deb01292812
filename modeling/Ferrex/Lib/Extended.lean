import Mathlib.Algebra.Field.Basic
import Mathlib.Order.Defs.LinearOrder
import Mathlib.Order.Lattice

/-
  Numbers of an ordered field with two infinities and a value
  that is no number, as floats have them but with exact
  arithmetic.  A division by zero has no result.

  Main declarations:
    * `Extended`, `Extended.add`, `mul`, `div`, `clamp`
    * `Extended.IsNum`, `Extended.OnSide`
    * `Extended.onSide_add`, `Extended.onSide_mul_num`
    * `Extended.clamp_eq_num`
-/

------------------------------------------------------------
-- Arithmetic
------------------------------------------------------------

/-
  A number of a field, one of two infinities, or no number.
-/
inductive Extended (K : Type)
| num (x : K)
| inf (negative : Bool)
| nan

namespace Extended

variable {K : Type} [Field K] [LinearOrder K]

/- The sign is changed. -/
def neg : Extended K → Extended K
| num x => num (-x)
| inf negative => inf (!negative)
| nan => nan

/- Infinities of different signs have no sum. -/
def add : Extended K → Extended K → Extended K
| nan, _ => nan
| _, nan => nan
| num x, num y => num (x + y)
| num _, inf s => inf s
| inf s, num _ => inf s
| inf s, inf s' => if s = s' then inf s else nan

/- Zero times an infinity is no number. -/
def mul : Extended K → Extended K → Extended K
| nan, _ => nan
| _, nan => nan
| num x, num y => num (x * y)
| num x, inf s =>
    if x = 0 then nan else inf (s.xor (decide (x < 0)))
| inf s, num x =>
    if x = 0 then nan else inf (s.xor (decide (x < 0)))
| inf s, inf s' => inf (s.xor s')

/- There is no quotient by zero. -/
def div : Extended K → Extended K → Option (Extended K)
| num x, num y => if y = 0 then none else some (num (x / y))
| inf s, num y =>
    if y = 0 then
      none
    else
      some (inf (s.xor (decide (y < 0))))
| nan, num y => if y = 0 then none else some nan
| num _, inf _ => some (num 0)
| inf _, inf _ => some nan
| nan, inf _ => some nan
| _, nan => some nan

/- What is no number stays as it is. -/
def clamp (low high : K) : Extended K → Extended K
| num x => num (max low (min high x))
| inf negative => num (if negative then low else high)
| nan => nan

/- The value is finite. -/
def IsNum : Extended K → Prop
| num _ => True
| _ => False

/- A number, or the infinity of that side. -/
def OnSide (negative : Bool) : Extended K → Prop
| num _ => True
| inf s => s = negative
| nan => False

------------------------------------------------------------
-- Results that Are Numbers
------------------------------------------------------------

variable {x y : Extended K} {low high a b : K}
variable {negative : Bool}

omit [LinearOrder K] in
/- Finite values are added as numbers. -/
@[simp] theorem add_num :
    (num a).add (num b) = num (a + b) := by
  rfl

/- Finite values are divided as numbers, save by zero. -/
theorem div_num
    (hb : b ≠ 0) :
    (num a).div (num b) = some (num (a / b)) := by
  rw [div, if_neg hb]

/- A divisor of an existing quotient is not zero. -/
theorem ne_zero_of_div
    (hDiv : x.div (num b) = some y) :
    b ≠ 0 := by
  rintro rfl
  cases x <;> simp [div] at hDiv

omit [Field K] [LinearOrder K] in
/- What is a number is on one of the two sides. -/
theorem ne_nan_iff :
    x ≠ nan ↔ ∃ negative, x.OnSide negative := by
  cases x with
  | num a => simp [OnSide]
  | inf s => simp [OnSide]
  | nan => simp [OnSide]

omit [LinearOrder K] in
/- Infinities of two sides have no sum. -/
theorem onSide_add :
    (x.add y).OnSide negative ↔
      x.OnSide negative ∧ y.OnSide negative := by
  cases x with
  | num a => cases y <;> simp [add, OnSide]
  | inf s =>
      cases y with
      | num b => simp [add, OnSide]
      | inf t =>
          by_cases hSame : s = t
          · simp [add, OnSide, hSame]
          · rw [add, if_neg hSame]
            constructor
            · exact False.elim
            · rintro ⟨hs, ht⟩
              exact absurd (hs.trans ht.symm) hSame
      | nan => simp [add, OnSide]
  | nan => simp [add, OnSide]

/- An infinity has no product with zero. -/
theorem onSide_mul_num :
    (x.mul (num b)).OnSide negative ↔
      x.IsNum ∨
        b ≠ 0 ∧ x.OnSide (negative.xor (decide (b < 0))) := by
  cases x with
  | num a => simp [mul, OnSide, IsNum]
  | inf s =>
      by_cases hb : b = 0
      · simp [mul, OnSide, IsNum, hb]
      · simp only [mul, OnSide, IsNum, hb, if_false, false_or,
          ne_eq, not_false_eq_true, true_and]
        cases s <;> cases negative <;>
          cases decide (b < 0) <;> decide
  | nan => simp [mul, OnSide, IsNum]

/- Clamping makes a number of the range of all but `nan`. -/
theorem clamp_eq_num
    (hRange : low ≤ high) :
    x ≠ nan ↔
      ∃ a, x.clamp low high = num a ∧ low ≤ a ∧ a ≤ high := by
  cases x with
  | num a =>
      refine ⟨fun _ => ⟨_, rfl, ?_, ?_⟩, fun _ => by simp⟩
      · exact le_max_left _ _
      · exact max_le hRange (min_le_left _ _)
  | inf s =>
      refine ⟨fun _ => ⟨_, rfl, ?_⟩, fun _ => by simp⟩
      cases s
      · exact ⟨hRange, le_refl high⟩
      · exact ⟨le_refl low, hRange⟩
  | nan => simp [clamp]

end Extended
