import Mathlib.Algebra.Order.Field.Rat
import Mathlib.Data.Rat.Floor

/-!
# The number formats of the ring

PCM samples and the waveform substitution use `f32`; the clock correction, the
pitch score and the shortfall average use `f64`.  Both formats are classes of
operations, so that the model of the ring does not fix a rounding mode or the
payload of a NaN.  The laws say what the proofs rely on: a finite `f64`
operation is the rounding of the exact one while it stays in range, and the
`f32` comparisons treat zero, one and clamped values as expected.  The exact
rationals are an instance of both.
-/

namespace PcmRing

/-- The `f32` operations of the ring. -/
class Binary32 (F : Type) extends Zero F, One F, Add F, Sub F, Mul F, Div F where
  /-- `n as f32` -/
  ofNat : Nat → F
  /-- `-1.0` -/
  negOne : F
  isFinite : F → Bool
  /-- `x != 0.0` -/
  isNonzero : F → Bool
  clamp : F → F → F → F
  max : F → F → F

/-- The `f64` operations of the ring. -/
class Binary64 (W : Type) extends Add W, Sub W, Mul W, Div W where
  /-- The nearest value to a literal or to a converted integer. -/
  ofRat : ℚ → W
  negInfinity : W
  isFinite : W → Bool
  lt : W → W → Bool
  le : W → W → Bool
  /-- `x == y` -/
  eq : W → W → Bool
  clamp : W → W → W → W
  sqrt : W → W
  round : W → W
  /-- `x as u64` -/
  toU64 : W → Nat
  /-- `x as i32` -/
  toI32 : W → Int

/-- `f64::from(x)` for a sample. -/
class Widening (F W : Type) where
  widen : F → W

/-- Constrain public PCM to the canonical finite normalized range. -/
def canonicalize {F : Type} [Binary32 F] (sample : F) : F :=
  if Binary32.isFinite sample then Binary32.clamp sample Binary32.negOne 1 else 0

/-- What the proofs use of `f32`. -/
class LawfulBinary32 (F : Type) [Binary32 F] : Prop where
  isNonzero_zero : Binary32.isNonzero (0 : F) = false
  isNonzero_one : Binary32.isNonzero (1 : F) = true

attribute [simp] LawfulBinary32.isNonzero_zero LawfulBinary32.isNonzero_one

/-- What the proofs use of `f64`: each finite value is a rational, and an
operation whose exact result is in range rounds that result. -/
class LawfulBinary64 (W : Type) [Binary64 W] where
  value : W → Option ℚ
  rounded : ℚ → ℚ
  rounded_mono : ∀ {first second : ℚ}, first ≤ second → rounded first ≤ rounded second
  /-- Integers and short binary fractions are exact. -/
  rounded_exact : ∀ (numerator : Int) (scale : Nat), |numerator| ≤ 2 ^ 53 → scale ≤ 64 →
    rounded (numerator / 2 ^ scale) = numerator / 2 ^ scale
  ofRat_value : ∀ exact : ℚ, |exact| ≤ 2 ^ 512 →
    value (Binary64.ofRat exact) = some (rounded exact)
  add_value : ∀ (x y : W) (a b : ℚ), value x = some a → value y = some b →
    |a + b| ≤ 2 ^ 512 → value (x + y) = some (rounded (a + b))
  sub_value : ∀ (x y : W) (a b : ℚ), value x = some a → value y = some b →
    |a - b| ≤ 2 ^ 512 → value (x - y) = some (rounded (a - b))
  mul_value : ∀ (x y : W) (a b : ℚ), value x = some a → value y = some b →
    |a * b| ≤ 2 ^ 512 → value (x * y) = some (rounded (a * b))
  div_value : ∀ (x y : W) (a b : ℚ), value x = some a → value y = some b → b ≠ 0 →
    |a / b| ≤ 2 ^ 512 → value (x / y) = some (rounded (a / b))
  clamp_value : ∀ (x low high : W) (a l h : ℚ), value x = some a → value low = some l →
    value high = some h → l ≤ h → value (Binary64.clamp x low high) = some (max l (min a h))
  isFinite_eq : ∀ x : W, Binary64.isFinite x = (value x).isSome
  le_eq : ∀ (x y : W) (a b : ℚ), value x = some a → value y = some b →
    Binary64.le x y = decide (a ≤ b)
  eq_eq : ∀ (x y : W) (a b : ℚ), value x = some a → value y = some b →
    Binary64.eq x y = decide (a = b)

instance : Binary32 ℚ where
  ofNat count := count
  negOne := -1
  isFinite _ := true
  isNonzero sample := decide (sample ≠ 0)
  clamp sample low high := max low (min sample high)
  max := max

instance : LawfulBinary32 ℚ where
  isNonzero_zero := by decide
  isNonzero_one := by decide

/-- Drop the fraction, as integer conversions do. -/
def truncate (value : ℚ) : Int :=
  if 0 ≤ value then value.floor else -(-value).floor

instance : Binary64 ℚ where
  ofRat exact := exact
  negInfinity := -(2 ^ 1024)
  isFinite _ := true
  lt first second := decide (first < second)
  le first second := decide (first ≤ second)
  eq first second := decide (first = second)
  clamp value low high := max low (min value high)
  -- A root is not rational: take it down to a multiple of `2 ^ (-64)` of the unit.
  sqrt value := Nat.sqrt (value.num.toNat * value.den * 2 ^ 128) / (value.den * 2 ^ 64)
  round value := if 0 ≤ value then truncate (value + 1 / 2) else truncate (value - 1 / 2)
  toU64 value := min (truncate value).toNat (2 ^ 64 - 1)
  toI32 value := max (-(2 ^ 31)) (min (truncate value) (2 ^ 31 - 1))

instance : LawfulBinary64 ℚ where
  value := some
  rounded exact := exact
  rounded_mono order := order
  rounded_exact _ _ _ _ := rfl
  ofRat_value _ _ := rfl
  add_value _ _ _ _ := by rintro ⟨⟩ ⟨⟩ _; rfl
  sub_value _ _ _ _ := by rintro ⟨⟩ ⟨⟩ _; rfl
  mul_value _ _ _ _ := by rintro ⟨⟩ ⟨⟩ _; rfl
  div_value _ _ _ _ := by rintro ⟨⟩ ⟨⟩ _ _; rfl
  clamp_value _ _ _ _ _ _ := by rintro ⟨⟩ ⟨⟩ ⟨⟩ _; rfl
  isFinite_eq _ := rfl
  le_eq _ _ _ _ := by rintro ⟨⟩ ⟨⟩; rfl
  eq_eq _ _ _ _ := by rintro ⟨⟩ ⟨⟩; rfl

instance : Widening ℚ ℚ where
  widen sample := sample

end PcmRing
