import Mathlib.Logic.Basic
import StoryMachine.Value.Operator

/-!
# Division of whole numbers

Whole numbers are divided towards zero, and the remainder has the sign of the dividend. Quotient and
remainder put the dividend together again by the multiplication and the addition of whole numbers.

There is no quotient by zero. Nor is there one where it leaves the range, which is the case for one
pair of numbers only: the least one and minus one. Although the other operators go around the range
there, and the remainder would be zero, *divide* and *modulo* report a division by zero for this
pair as well (`Operator.whole_division`).
-/

namespace StoryMachine

/-! ## Quotient and remainder in 32 bits -/

namespace Division

variable {x y : Int32}

/-- The quotient of the least number and minus one is the only one to leave the range. -/
theorem toInt_quotient (h : ¬(x = Int32.minValue ∧ y = -1)) :
    (x / y).toInt = x.toInt.tdiv y.toInt := by
  obtain hx | hy := not_and_or.mp h
  · exact Int32.toInt_div_of_ne_left x y hx
  · exact Int32.toInt_div_of_ne_right x y hy

theorem sign_remainder (x y : Int32) : x % y = 0 ∨ (x % y).toInt.sign = x.toInt.sign := by
  have hsign := Int.sign_tmod x.toInt y.toInt
  rw [← Int32.toInt_mod] at hsign
  split at hsign
  · exact .inl (Int32.toInt_inj.mp (Int.sign_eq_zero_iff_zero.mp hsign))
  · exact .inr hsign

theorem natAbs_remainder_lt (hy : y ≠ 0) : (x % y).toInt.natAbs < y.toInt.natAbs := by
  rw [Int32.toInt_mod, Int.natAbs_tmod]
  refine Nat.mod_lt _ (Int.natAbs_pos.mpr fun h => hy ?_)
  exact Int32.toInt_inj.mp h

/-- Around the range or not, quotient and remainder belong together. -/
theorem quotient_mul_add_remainder (x y : Int32) : x / y * y + x % y = x := by
  apply Int32.toInt_inj.mp
  rw [Int32.toInt_add, Int32.toInt_mul, Int32.toInt_div, Int32.toInt_mod, Int.bmod_mul_bmod,
    Int.bmod_add_bmod, Int.tdiv_mul_add_tmod, Int32.toInt_bmod]

end Division

/-! ## What the operators make of it -/

namespace Operator

variable {o : Operator} {x y q : Int32}

theorem apply_ints (ho : o.arity = 2) (defs : ListDefinitions) (x y : Int32) :
    o.apply defs [.int x, .int y] = o.onInts x y :=
  if_neg (not_not.mpr ho)

theorem divided_ok (h : ¬(y = 0 ∨ (x = Int32.minValue ∧ y = -1))) :
    o.divided x y q = .ok (.int q) :=
  if_neg h

theorem divided_error_iff :
    o.divided x y q = .error (.type (.divisionByZero o.symbol)) ↔
      y = 0 ∨ (x = Int32.minValue ∧ y = -1) := by
  by_cases h : y = 0 ∨ (x = Int32.minValue ∧ y = -1)
  · exact iff_of_true (if_pos h) h
  · rw [divided_ok h]
    exact iff_of_false nofun h

/-- Whole numbers are divided with quotient and remainder, towards zero, unless the divisor is zero
or the quotient leaves the range: then both operators report a division by zero. -/
theorem whole_division (defs : ListDefinitions) (x y : Int32) :
    (divide.apply defs [.int x, .int y] = .error (.type (.divisionByZero "/")) ↔
      y = 0 ∨ (x = Int32.minValue ∧ y = -1)) ∧
    (modulo.apply defs [.int x, .int y] = .error (.type (.divisionByZero "%")) ↔
      y = 0 ∨ (x = Int32.minValue ∧ y = -1)) ∧
    (¬(y = 0 ∨ (x = Int32.minValue ∧ y = -1)) → ∃ q r p,
      divide.apply defs [.int x, .int y] = .ok (.int q) ∧
      modulo.apply defs [.int x, .int y] = .ok (.int r) ∧
      q.toInt = x.toInt.tdiv y.toInt ∧
      (r = 0 ∨ r.toInt.sign = x.toInt.sign) ∧
      r.toInt.natAbs < y.toInt.natAbs ∧
      multiply.apply defs [.int q, .int y] = .ok (.int p) ∧
      add.apply defs [.int p, .int r] = .ok (.int x)) := by
  simp only [apply_ints (o := .divide) rfl, apply_ints (o := .modulo) rfl,
    apply_ints (o := .multiply) rfl, apply_ints (o := .add) rfl]
  refine ⟨divided_error_iff, divided_error_iff, fun h => ?_⟩
  have hzero : y ≠ 0 := fun hy => h (.inl hy)
  have hrange : ¬(x = Int32.minValue ∧ y = -1) := fun hxy => h (.inr hxy)
  refine ⟨x / y, x % y, x / y * y, divided_ok h, divided_ok h, Division.toInt_quotient hrange,
    Division.sign_remainder x y, Division.natAbs_remainder_lt hzero, rfl, ?_⟩
  exact congrArg (Except.ok ∘ Value.int) (Division.quotient_mul_add_remainder x y)

/-- The least number cannot be divided by minus one, and minus seven is two times minus three and
minus one. -/
theorem least_is_not_divided :
    divide.apply .empty [.int Int32.minValue, .int (-1)] =
      .error (.type (.divisionByZero "/")) ∧
    modulo.apply .empty [.int Int32.minValue, .int (-1)] =
      .error (.type (.divisionByZero "%")) ∧
    ¬((2 : Int32) = 0 ∨ ((-7 : Int32) = Int32.minValue ∧ (2 : Int32) = -1)) ∧
    ∃ q r p,
      divide.apply .empty [.int (-7), .int 2] = .ok (.int q) ∧
      modulo.apply .empty [.int (-7), .int 2] = .ok (.int r) ∧
      q.toInt = (-7 : Int32).toInt.tdiv (2 : Int32).toInt ∧
      (r = 0 ∨ r.toInt.sign = (-7 : Int32).toInt.sign) ∧
      r.toInt.natAbs < (2 : Int32).toInt.natAbs ∧
      multiply.apply .empty [.int q, .int 2] = .ok (.int p) ∧
      add.apply .empty [.int p, .int r] = .ok (.int (-7)) := by
  obtain ⟨hdivide, hmodulo, -⟩ := whole_division .empty Int32.minValue (-1)
  exact ⟨hdivide.mpr (.inr ⟨rfl, rfl⟩), hmodulo.mpr (.inr ⟨rfl, rfl⟩), by decide,
    (whole_division .empty (-7) 2).2.2 (by decide)⟩

end Operator

end StoryMachine
