import PcmRing.ConsumerInvariants

/-!
# The ratio of a refill

Every conversion is given a finite positive ratio.  Nothing but the clamps of the
clock control and the admission of the nominal ratio is used, so this holds in
any rounding arithmetic.
-/

namespace PcmRing

open AtomicProgram TwoLapQueue LawfulBinary64

variable {F S W : Type}

/-- `f64` with infinities: what an operation on a number and a finite value
answers is a number again, and a clamped number lies within the bounds. -/
class OrderedBinary64 (W : Type) [Binary64 W] extends LawfulBinary64 W where
  /-- Not a NaN. -/
  ordered : W → Prop
  ordered_ofRat : ∀ exact : ℚ, ordered (Binary64.ofRat exact)
  ordered_sub : ∀ (x y : W) (b : ℚ), ordered x → value y = some b → ordered (x - y)
  ordered_div : ∀ (x y : W) (b : ℚ), ordered x → value y = some b → b ≠ 0 → ordered (x / y)
  clamp_ordered : ∀ (x low high : W) (l h : ℚ), ordered x → value low = some l →
    value high = some h → l ≤ h → ∃ a, value (Binary64.clamp x low high) = some a ∧ l ≤ a ∧ a ≤ h

instance : OrderedBinary64 ℚ where
  ordered _ := True
  ordered_ofRat _ := trivial
  ordered_sub _ _ _ _ _ := trivial
  ordered_div _ _ _ _ _ _ := trivial
  clamp_ordered x low high l h _ := by
    rintro ⟨⟩ ⟨⟩ le
    exact ⟨_, rfl, le_max_left _ _, max_le le (min_le_right _ _)⟩

section Ranges

variable (W) [Binary64 W] [OrderedBinary64 W]

omit [Binary64 W] [OrderedBinary64 W] in
private theorem pow_le_limit {bits : Nat} (le : bits ≤ 512) : (2 : ℚ) ^ bits ≤ 2 ^ 512 :=
  pow_le_pow_right₀ (by norm_num) le

/-- A bound that rounding leaves alone. -/
def Exact (bound : ℚ) : Prop :=
  |bound| ≤ 2 ^ 512 ∧ rounded W bound = bound

theorem exact_int (count : Int) (small : |count| ≤ 2 ^ 53) : Exact W (count : ℚ) := by
  refine ⟨?_, ?_⟩
  · have cast : |(count : ℚ)| ≤ 2 ^ 53 := by exact_mod_cast small
    exact cast.trans (pow_le_limit (by decide))
  · have exact := rounded_exact (W := W) count 0 small (by decide)
    rwa [pow_zero, div_one] at exact

theorem exact_quantum : Exact W (1 / 256) := by
  refine ⟨?_, ?_⟩
  · rw [abs_of_pos (by norm_num)]
    have one : (1 / 256 : ℚ) ≤ 2 ^ 0 := by norm_num
    exact one.trans (pow_le_limit (by decide))
  have exact := rounded_exact (W := W) 1 8 (by decide) (by decide)
  norm_num at exact ⊢
  exact exact

variable {W}

/-- A finite value within bounds. -/
def Ranges (x : W) (low high : ℚ) : Prop :=
  ∃ exact, value x = some exact ∧ low ≤ exact ∧ exact ≤ high

variable {x y : W} {a b c d low high : ℚ}

theorem rounded_ranges (exact : ℚ) (lowExact : Exact W low) (highExact : Exact W high)
    (above : low ≤ exact) (below : exact ≤ high) :
    |exact| ≤ 2 ^ 512 ∧ low ≤ rounded W exact ∧ rounded W exact ≤ high := by
  refine ⟨?_, ?_, ?_⟩
  · exact abs_le.mpr ⟨(abs_le.mp lowExact.1).1.trans above, below.trans (abs_le.mp highExact.1).2⟩
  · exact lowExact.2 ▸ rounded_mono above
  · exact highExact.2 ▸ rounded_mono below

theorem ranges_ofRat {exact : ℚ} (lowExact : Exact W low) (highExact : Exact W high)
    (above : low ≤ exact) (below : exact ≤ high) :
    Ranges (Binary64.ofRat exact : W) low high := by
  obtain ⟨small, lower, upper⟩ := rounded_ranges _ lowExact highExact above below
  exact ⟨_, ofRat_value exact small, lower, upper⟩

theorem Ranges.sub (first : Ranges x a b) (second : Ranges y c d) (lowExact : Exact W (a - d))
    (highExact : Exact W (b - c)) : Ranges (x - y) (a - d) (b - c) := by
  obtain ⟨m, mEq, lowM, highM⟩ := first
  obtain ⟨n, nEq, lowN, highN⟩ := second
  obtain ⟨small, lower, upper⟩ :=
    rounded_ranges _ lowExact highExact (sub_le_sub lowM highN) (sub_le_sub highM lowN)
  exact ⟨_, sub_value x y m n mEq nEq small, lower, upper⟩

theorem Ranges.mul (first : Ranges x a b) (second : Ranges y c d) (lowExact : Exact W low)
    (highExact : Exact W high)
    (bounds : ∀ m n : ℚ, a ≤ m → m ≤ b → c ≤ n → n ≤ d → low ≤ m * n ∧ m * n ≤ high) :
    Ranges (x * y) low high := by
  obtain ⟨m, mEq, lowM, highM⟩ := first
  obtain ⟨n, nEq, lowN, highN⟩ := second
  obtain ⟨above, below⟩ := bounds m n lowM highM lowN highN
  obtain ⟨small, lower, upper⟩ := rounded_ranges _ lowExact highExact above below
  exact ⟨_, mul_value x y m n mEq nEq small, lower, upper⟩

theorem Ranges.div {divisor : ℚ} (first : Ranges x a b) (yEq : value y = some divisor)
    (positive : 0 < divisor) (lowExact : Exact W low) (highExact : Exact W high)
    (above : low * divisor ≤ a) (below : b ≤ high * divisor) : Ranges (x / y) low high := by
  obtain ⟨m, mEq, lowM, highM⟩ := first
  have lower : low ≤ m / divisor := (le_div_iff₀ positive).mpr (above.trans lowM)
  have upper : m / divisor ≤ high := (div_le_iff₀ positive).mpr (highM.trans below)
  obtain ⟨small, lower, upper⟩ := rounded_ranges _ lowExact highExact lower upper
  exact ⟨_, div_value x y m divisor mEq yEq positive.ne' small, lower, upper⟩

theorem Ranges.clamp {lowest highest : W} (first : Ranges x a b) (lowEq : value lowest = some low)
    (highEq : value highest = some high) (le : low ≤ high) :
    Ranges (Binary64.clamp x lowest highest) low high := by
  obtain ⟨m, mEq, -, -⟩ := first
  exact ⟨_, clamp_value x lowest highest m low high mEq lowEq highEq le, le_max_left _ _,
    max_le le (min_le_right _ _)⟩

end Ranges

section Control

variable [Binary64 W] [OrderedBinary64 W]

theorem value_int (count : Int) (small : |count| ≤ 2 ^ 53) :
    value (Binary64.ofRat (count : ℚ) : W) = some (count : ℚ) := by
  obtain ⟨bound, exact⟩ := exact_int W count small
  rw [ofRat_value _ bound, exact]

theorem value_nat (count : Nat) (small : count ≤ 2 ^ 53) :
    value (Binary64.ofRat (count : ℚ) : W) = some (count : ℚ) := by
  have cast := value_int (W := W) count (by rw [abs_of_nonneg (by omega)]; omega)
  exact_mod_cast cast

theorem value_minimumRatio : value (minimumRatio W) = some (1 / 256) := by
  obtain ⟨bound, exact⟩ := exact_quantum W
  rw [minimumRatio, ofRat_value _ bound, exact]

theorem value_maximumRatio : value (maximumRatio W) = some 256 := by
  have cast := value_nat (W := W) 256 (by decide)
  exact_mod_cast cast

/-- A ratio within the public bounds. -/
def Bounded (ratio : W) : Prop :=
  Ranges ratio (1 / 256) 256

theorem occupancyError_ranges {geometry : Geometry} (targetLt : geometry.target < 2 ^ 32)
    (occupancyMilli : Nat) : Ranges (occupancyError W geometry occupancyMilli) (-1) 1 := by
  have minusOne : Exact W (-1) := by
    have exact := exact_int W (-1) (by decide)
    exact_mod_cast exact
  have one : Exact W 1 := by
    have exact := exact_int W 1 (by decide)
    exact_mod_cast exact
  have zero := value_int (W := W) 0 (by decide)
  unfold occupancyError
  split
  · exact ⟨0, by exact_mod_cast zero, by norm_num, by norm_num⟩
  · rename_i nonzero
    have targetEq := value_nat (W := W) geometry.target (by omega)
    have thousandEq := value_nat (W := W) 1000 (by decide)
    have productEq : value (Binary64.ofRat (geometry.target : ℚ) * Binary64.ofRat 1000 : W) =
        some ((geometry.target * 1000 : Nat) : ℚ) := by
      obtain ⟨bound, exact⟩ := exact_int W (geometry.target * 1000 : Nat)
        (by rw [abs_of_nonneg (by omega)]; omega)
      have cast : (((geometry.target * 1000 : Nat) : Int) : ℚ) =
          (geometry.target : ℚ) * (1000 : Nat) := by push_cast; ring
      rw [cast] at bound exact
      have product := mul_value _ _ _ _ targetEq thousandEq bound
      rw [exact] at product
      push_cast at product ⊢
      exact product
    have nonzero' : ((geometry.target * 1000 : Nat) : ℚ) ≠ 0 := by
      exact_mod_cast Nat.mul_ne_zero nonzero (by decide)
    have number := OrderedBinary64.ordered_div _ _ _
      (OrderedBinary64.ordered_sub _ _ _
        (OrderedBinary64.ordered_ofRat (W := W) (occupancyMilli : ℚ)) productEq)
      productEq nonzero'
    have low : value (Binary64.ofRat (-1) : W) = some (-1) := by
      rw [ofRat_value _ minusOne.1, minusOne.2]
    have high : value (Binary64.ofRat 1 : W) = some 1 := by rw [ofRat_value _ one.1, one.2]
    exact OrderedBinary64.clamp_ordered _ _ _ _ _ number low high (by norm_num)

theorem steeredRatio_bounded {geometry : Geometry} (targetLt : geometry.target < 2 ^ 32)
    (nominal : Bounded (nominalRatio W geometry.outputRateHz geometry.inputRateHz))
    {ratio : W} (before : value ratio = some 0 ∨ Bounded ratio) (occupancyMilli : Nat) :
    Bounded (steeredRatio W geometry occupancyMilli ratio) := by
  have int (count : Int) (small : |count| ≤ 2 ^ 53) : Exact W (count : ℚ) :=
    exact_int W count small
  have minusOne : Exact W (-1) := by exact_mod_cast int (-1) (by decide)
  have zero : Exact W 0 := by exact_mod_cast int 0 (by decide)
  have one : Exact W 1 := by exact_mod_cast int 1 (by decide)
  have two : Exact W 2 := by exact_mod_cast int 2 (by decide)
  have wide : Exact W 512 := by exact_mod_cast int 512 (by decide)
  have inBounds {x : W} {a b : ℚ} (ranges : Ranges x a b) :
      Bounded (Binary64.clamp x (minimumRatio W) (maximumRatio W)) :=
    ranges.clamp value_minimumRatio value_maximumRatio (by norm_num)
  have oneEq : Ranges (Binary64.ofRat 1 : W) 1 1 := ranges_ofRat one one le_rfl le_rfl
  -- The correction is at most one in a thousand, and one is enough here.
  have step : Ranges (occupancyError W geometry occupancyMilli * Binary64.ofRat (1 / 1000) : W)
      (-1) 1 := by
    refine (occupancyError_ranges targetLt occupancyMilli).mul
      (ranges_ofRat zero one (by norm_num) (by norm_num)) minusOne one ?_
    intro m n lowM highM lowN highN
    constructor <;> nlinarith
  have factor : Ranges (Binary64.ofRat 1 -
      occupancyError W geometry occupancyMilli * Binary64.ofRat (1 / 1000) : W) 0 2 := by
    have difference := oneEq.sub step (by norm_num; exact zero) (by norm_num; exact two)
    norm_num at difference
    exact difference
  have desired := inBounds (nominal.mul factor zero wide fun m n lowM highM lowN highN => by
    constructor <;> nlinarith)
  unfold steeredRatio
  dsimp only
  generalize Binary64.clamp (nominalRatio W geometry.outputRateHz geometry.inputRateHz *
    (Binary64.ofRat 1 - occupancyError W geometry occupancyMilli * Binary64.ofRat (1 / 1000)))
      (minimumRatio W) (maximumRatio W) = wanted at desired
  split
  · exact inBounds nominal
  · rename_i nonzero
    rcases before with cleared | bounded
    · rw [eq_eq _ _ _ _ cleared (ofRat_value 0 zero.1), zero.2] at nonzero
      simp at nonzero
    have small : |(256 : Int)| ≤ 2 ^ 53 := by decide
    have negative : Exact W (-256) := by exact_mod_cast int (-256) (by decide)
    have positive : Exact W 256 := by exact_mod_cast int 256 small
    have difference : Ranges (wanted - ratio) (-256) 256 := by
      obtain ⟨m, mEq, lowM, highM⟩ := desired
      obtain ⟨n, nEq, lowN, highN⟩ := bounded
      obtain ⟨fits, lower, upper⟩ := rounded_ranges (W := W) (m - n) negative positive
        (by linarith) (by linarith)
      exact ⟨_, sub_value _ _ _ _ mEq nEq fits, lower, upper⟩
    have quotient : Ranges ((wanted - ratio) / Binary64.ofRat 512) (-1) 1 := by
      refine difference.div (value_nat (W := W) 512 (by decide)) (by norm_num) minusOne one ?_ ?_
        <;> norm_num
    obtain ⟨m, mEq, lowM, highM⟩ := quotient
    obtain ⟨n, nEq, lowN, highN⟩ := bounded
    obtain ⟨fits, lower, upper⟩ := rounded_ranges (W := W) (n + m) negative wide
      (by linarith) (by linarith)
    exact inBounds ⟨_, add_value _ _ _ _ nEq mEq fits, lower, upper⟩

theorem nominalRatio_bounded {settings : Settings} (valid : settings.validate W = .ok ()) :
    Bounded (nominalRatio W settings.outputRateHz settings.inputRateHz) := by
  unfold Settings.validate at valid
  dsimp only at valid
  split at valid
  · cases valid
  rename_i admitted
  simp only [not_or, not_not] at admitted
  obtain ⟨-, inputSome, -, ⟨low, high⟩, -⟩ := admitted
  have outputLt := settings.outputRateHz_lt
  have inputLt := settings.inputRateHz_lt
  have outputEq := value_nat (W := W) settings.outputRateHz (by omega)
  have inputEq := value_nat (W := W) settings.inputRateHz (by omega)
  have positive : (1 : ℚ) ≤ settings.inputRateHz := by
    exact_mod_cast Nat.pos_of_ne_zero inputSome
  have small : |(settings.outputRateHz : ℚ) / settings.inputRateHz| ≤ 2 ^ 512 := by
    rw [abs_of_nonneg (div_nonneg (Nat.cast_nonneg _) (Nat.cast_nonneg _))]
    have below : (settings.outputRateHz : ℚ) ≤ 2 ^ 512 := by
      have cast : (settings.outputRateHz : ℚ) ≤ 2 ^ 32 := by exact_mod_cast outputLt.le
      exact cast.trans (pow_le_limit (by decide))
    exact le_trans (div_le_self (Nat.cast_nonneg _) positive) below
  have ratioEq := div_value _ _ _ _ outputEq inputEq (by linarith) small
  unfold Bounded Ranges
  unfold nominalRatio at low high ⊢
  rw [le_eq _ _ _ _ value_minimumRatio ratioEq, decide_eq_true_iff] at low
  rw [le_eq _ _ _ _ ratioEq value_maximumRatio, decide_eq_true_iff] at high
  exact ⟨_, ratioEq, low, high⟩

theorem Bounded.usable {ratio : W} (bounded : Bounded ratio) :
    Binary64.isFinite ratio = true ∧ Binary64.le ratio (Binary64.ofRat 0) = false := by
  obtain ⟨exact, valueEq, low, -⟩ := bounded
  have zeroEq := value_int (W := W) 0 (by decide)
  refine ⟨by rw [isFinite_eq, valueEq]; rfl, ?_⟩
  have compared := le_eq _ _ _ _ valueEq zeroEq
  push_cast at compared
  rw [compared, decide_eq_false_iff_not]
  exact not_le.mpr (lt_of_lt_of_le (by norm_num) low)

end Control

end PcmRing
