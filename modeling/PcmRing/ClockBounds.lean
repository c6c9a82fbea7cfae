import PcmRing.ConverterContent
import Mathlib.Algebra.Order.Floor.Semiring
import Mathlib.Tactic.Linarith
import Mathlib.Tactic.NormNum
import Mathlib.Tactic.FieldSimp

/-!
# Admission and clock control

With exact ratios the settings that are accepted are the documented ones, and
the ratio of every conversion stays within the bounds that their headroom was
computed from.
-/

namespace PcmRing

open AtomicProgram

variable {F S W : Type}

/-- Output samples per input sample. -/
def Settings.nominal (settings : Settings) : ℚ :=
  settings.outputRateHz / settings.inputRateHz

/-- The lowest ratio of a conversion. -/
def Settings.lowestRatio (settings : Settings) : ℚ :=
  max (settings.nominal * (999 / 1000)) (1 / 256)

/-- The highest ratio of a conversion. -/
def Settings.highestRatio (settings : Settings) : ℚ :=
  min (settings.nominal * (1001 / 1000)) 256

/-- What the header asks of a configuration, with both blocks within what a
buffer of samples can hold. -/
structure Settings.Admissible (settings : Settings) : Prop where
  capacity_ge : minimumCapacity ≤ settings.capacity
  capacity_le : settings.capacity ≤ maximumCapacity
  inputRateHz_pos : 0 < settings.inputRateHz
  outputRateHz_pos : 0 < settings.outputRateHz
  nominal_ge : 1 / 256 ≤ settings.nominal
  nominal_le : settings.nominal ≤ 256
  reserve_le : settings.reserve ≤ settings.capacity
  target_le : settings.target ≤ settings.capacity
  maxProducer_pos : 0 < settings.maxProducer
  maxOutput_pos : 0 < settings.maxOutput
  maxProducer_le : settings.maxProducer ≤ (2 ^ 63 - 1) / 4
  maxOutput_le : settings.maxOutput ≤ (2 ^ 63 - 1) / 4
  headroom : settings.plc = .g711AppendixI →
    ⌈(settings.maxOutput : ℚ) / settings.lowestRatio⌉₊ + 1 ≤ settings.reserve ∧
      settings.reserve ≤ settings.target ∧
      settings.target + settings.maxProducer ≤ settings.capacity

theorem ceilDiv_eq_ceil (count : Nat) {divisor : Nat} (positive : 0 < divisor) :
    ceilDiv count divisor = ⌈(count : ℚ) / divisor⌉₊ := by
  refine eq_of_forall_ge_iff fun bound => ?_
  have divisor_pos : (0 : ℚ) < divisor := by exact_mod_cast positive
  rw [Nat.ceil_le, div_le_iff₀ divisor_pos, ceilDiv, ← Nat.lt_succ_iff,
    Nat.div_lt_iff_lt_mul positive, Nat.succ_mul]
  constructor
  · intro below
    exact_mod_cast (by omega : count ≤ bound * divisor)
  · intro below
    have whole : count ≤ bound * divisor := by exact_mod_cast below
    omega

section Admission

variable {settings : Settings}

theorem Settings.lowestRatio_pos (settings : Settings) : 0 < settings.lowestRatio :=
  lt_of_lt_of_le (by norm_num) (le_max_right _ _)

/-- The integer budget is the documented one, on both sides of the limit. -/
theorem Settings.budget_eq (input : 0 < settings.inputRateHz) (output : 0 < settings.outputRateHz) :
    settings.budget = ⌈(settings.maxOutput : ℚ) / settings.lowestRatio⌉₊ + 1 := by
  have inputPos : (0 : ℚ) < settings.inputRateHz := by exact_mod_cast input
  have outputPos : (0 : ℚ) < settings.outputRateHz := by exact_mod_cast output
  have lower : settings.nominal * (999 / 1000) =
      (settings.outputRateHz * 999 : Nat) / (settings.inputRateHz * 1000 : Nat) := by
    unfold Settings.nominal
    push_cast
    field_simp
  have denominator : (0 : ℚ) < ((settings.inputRateHz * 1000 : Nat) : ℚ) := by
    push_cast
    linarith
  unfold Settings.budget Settings.lowestRatio
  refine congrArg (· + 1) ?_
  split
  · rename_i limited
    have below : settings.nominal * (999 / 1000) ≤ 1 / 256 := by
      rw [lower, div_le_iff₀ denominator]
      have cast : ((settings.outputRateHz * 999 : Nat) : ℚ) * 256 <
          ((settings.inputRateHz * 1000 : Nat) : ℚ) := by exact_mod_cast limited
      linarith
    rw [max_eq_right below, div_div_eq_mul_div, div_one]
    exact_mod_cast (Nat.ceil_natCast (settings.maxOutput * 256)).symm
  · rename_i unlimited
    have above : 1 / 256 ≤ settings.nominal * (999 / 1000) := by
      rw [lower, le_div_iff₀ denominator]
      have cast : ((settings.inputRateHz * 1000 : Nat) : ℚ) ≤
          ((settings.outputRateHz * 999 : Nat) : ℚ) * 256 := by
        exact_mod_cast Nat.not_lt.mp unlimited
      linarith
    rw [max_eq_left above, lower, ceilDiv_eq_ceil _ (by omega), div_div_eq_mul_div]
    push_cast
    rfl

/-- Exactly the documented settings are accepted. -/
theorem Settings.validate_iff : settings.validate ℚ = .ok () ↔ settings.Admissible := by
  have low : Binary64.le (minimumRatio ℚ)
      (nominalRatio ℚ settings.outputRateHz settings.inputRateHz) = true ↔
        1 / 256 ≤ settings.nominal := decide_eq_true_iff
  have high : Binary64.le (nominalRatio ℚ settings.outputRateHz settings.inputRateHz)
      (maximumRatio ℚ) = true ↔ settings.nominal ≤ 256 := decide_eq_true_iff
  unfold Settings.validate
  simp only [low, high]
  constructor
  · intro accepted
    split at accepted
    · cases accepted
    rename_i general
    split at accepted
    · cases accepted
    rename_i special
    simp only [not_or, not_lt, not_not] at general
    obtain ⟨capacity, input, output, ratio, reserve, target, producer, render, producerLe,
      renderLe⟩ := general
    have budget := @Settings.budget_eq settings (by omega) (by omega)
    refine
      { capacity_ge := capacity.1
        capacity_le := capacity.2
        inputRateHz_pos := Nat.pos_of_ne_zero input
        outputRateHz_pos := Nat.pos_of_ne_zero output
        nominal_ge := ratio.1
        nominal_le := ratio.2
        reserve_le := reserve
        target_le := target
        maxProducer_pos := Nat.pos_of_ne_zero producer
        maxOutput_pos := Nat.pos_of_ne_zero render
        maxProducer_le := producerLe
        maxOutput_le := renderLe
        headroom := fun mode => ?_ }
    have short := not_and.mp special mode
    simp only [not_or, not_lt] at short
    rw [← budget]
    exact short
  · intro admissible
    have budget := Settings.budget_eq admissible.inputRateHz_pos admissible.outputRateHz_pos
    rw [if_neg, if_neg]
    · rintro ⟨mode, short⟩
      obtain ⟨reserve, target, space⟩ := admissible.headroom mode
      rw [← budget] at reserve
      omega
    · obtain ⟨capacity_ge, capacity_le, input, output, nominal_ge, nominal_le, reserve, target,
        producer, render, producerLe, renderLe, -⟩ := admissible
      simp only [not_or, not_lt, not_not]
      exact ⟨⟨capacity_ge, capacity_le⟩, by omega, by omega, ⟨nominal_ge, nominal_le⟩, reserve,
        target, by omega, by omega, producerLe, renderLe⟩

end Admission

/-- The fields are 64-bit words. -/
structure Settings.Words (settings : Settings) : Prop where
  capacity_lt : settings.capacity < 2 ^ 64
  reserve_lt : settings.reserve < 2 ^ 64
  target_lt : settings.target < 2 ^ 64
  maxProducer_lt : settings.maxProducer < 2 ^ 64
  maxOutput_lt : settings.maxOutput < 2 ^ 64

namespace CheckedSettings

/-- A 128-bit result, `none` when it overflows. -/
def wide (value : Nat) : Option Nat :=
  if value < 2 ^ 128 then some value else none

/-- `count.div_ceil(divisor)` -/
def wideDivCeil (count divisor : Nat) : Option Nat :=
  if divisor = 0 then none else wide (ceilDiv count divisor)

/-- The budget with every operation checked. -/
def budget (settings : Settings) : Option Nat := do
  let numerator ← wide (settings.outputRateHz * 999)
  let denominator ← wide (settings.inputRateHz * 1000)
  let scaled ← wide (numerator * 256)
  let frames ← (if scaled < denominator then wide (settings.maxOutput * 256)
    else do
      let product ← wide (settings.maxOutput * denominator)
      wideDivCeil product numerator)
  wide (frames + 1)

/-- The validation with every operation checked. -/
def validate (W : Type) [Binary64 W] (settings : Settings) : Option (Except CreateError Unit) :=
  let ratio := nominalRatio W settings.outputRateHz settings.inputRateHz
  if ¬(minimumCapacity ≤ settings.capacity ∧ settings.capacity ≤ maximumCapacity) ∨
      settings.inputRateHz = 0 ∨ settings.outputRateHz = 0 ∨
      ¬(Binary64.le (minimumRatio W) ratio = true ∧
        Binary64.le ratio (maximumRatio W) = true) ∨
      settings.capacity < settings.reserve ∨ settings.capacity < settings.target ∨
      settings.maxProducer = 0 ∨ settings.maxOutput = 0 ∨
      (2 ^ 63 - 1) / 4 < settings.maxProducer ∨ (2 ^ 63 - 1) / 4 < settings.maxOutput then
    some (.error .invalid)
  else if settings.plc = .g711AppendixI then do
    let budget ← budget settings
    let space ← wide (settings.target + settings.maxProducer)
    return if settings.reserve < budget ∨ settings.target < settings.reserve ∨
        settings.capacity < space then .error .invalid
      else .ok ()
  else some (.ok ())

theorem wide_eq {value : Nat} (fits : value ≤ 2 ^ 103) : wide value = some value :=
  if_pos (Nat.lt_of_le_of_lt fits (by norm_num))

theorem ceilDiv_le (count : Nat) {divisor : Nat} (positive : 0 < divisor) :
    ceilDiv count divisor ≤ count := by
  unfold ceilDiv
  rw [Nat.div_le_iff_le_mul_add_pred positive]
  have product : count ≤ divisor * count := Nat.le_mul_of_pos_left count positive
  omega

theorem product_lt {settings : Settings} (render : settings.maxOutput ≤ (2 ^ 63 - 1) / 4) :
    settings.maxOutput * (settings.inputRateHz * 1000) < 2 ^ 103 := by
  have inputWord := settings.inputRateHz_lt
  calc settings.maxOutput * (settings.inputRateHz * 1000)
      < 2 ^ 61 * 2 ^ 42 := Nat.mul_lt_mul_of_lt_of_le (by omega) (by omega) (by norm_num)
    _ = 2 ^ 103 := by norm_num

theorem budget_eq {settings : Settings} (output : settings.outputRateHz ≠ 0)
    (render : settings.maxOutput ≤ (2 ^ 63 - 1) / 4) :
    budget settings = some settings.budget := by
  have inputWord := settings.inputRateHz_lt
  have outputWord := settings.outputRateHz_lt
  have small {value : Nat} (bound : value < 2 ^ 70) : value < 2 ^ 103 :=
    bound.trans (by norm_num)
  have divisor : settings.outputRateHz * 999 ≠ 0 := by omega
  obtain ⟨numerator, scaled, denominator, limited⟩ : settings.outputRateHz * 999 < 2 ^ 70 ∧
      settings.outputRateHz * 999 * 256 < 2 ^ 70 ∧ settings.inputRateHz * 1000 < 2 ^ 70 ∧
      settings.maxOutput * 256 < 2 ^ 70 := by omega
  have product := product_lt render
  have quotient : ceilDiv (settings.maxOutput * (settings.inputRateHz * 1000))
      (settings.outputRateHz * 999) ≤ settings.maxOutput * (settings.inputRateHz * 1000) :=
    ceilDiv_le _ (Nat.pos_of_ne_zero divisor)
  unfold budget Settings.budget
  simp only [wide_eq (small numerator).le, wide_eq (small denominator).le, wide_eq (small scaled).le,
    Option.bind_eq_bind, Option.bind_some]
  split
  · rw [wide_eq (small limited).le, Option.bind_some]
    exact wide_eq (small limited)
  · rw [wide_eq product.le, Option.bind_some, wideDivCeil, if_neg divisor,
      wide_eq (quotient.trans product.le), Option.bind_some]
    exact wide_eq (Nat.lt_of_le_of_lt quotient product)

theorem validate_eq [Binary64 W] {settings : Settings} (words : settings.Words) :
    validate W settings = some (settings.validate W) := by
  unfold validate Settings.validate
  dsimp only
  split
  · rfl
  · rename_i general
    split
    · rename_i mode
      simp only [not_or, not_lt] at general
      obtain ⟨-, -, output, -, -, -, -, -, -, render⟩ := general
      have target := words.target_lt
      have producer := words.maxProducer_lt
      simp only [budget_eq output render,
        wide_eq (show settings.target + settings.maxProducer ≤ 2 ^ 103 by omega),
        Option.bind_eq_bind, Option.bind_some, mode, true_and]
      rfl
    · rename_i mode
      rw [if_neg fun special => mode special.1]

end CheckedSettings

/-- A ratio within the bounds the headroom is computed from. -/
def Settings.Steered (settings : Settings) (ratio : ℚ) : Prop :=
  settings.lowestRatio ≤ ratio ∧ ratio ≤ settings.highestRatio

section Control

variable {settings : Settings} (admissible : settings.Admissible)

include admissible

theorem Settings.Admissible.nominal_steered : settings.Steered settings.nominal := by
  have low := admissible.nominal_ge
  have high := admissible.nominal_le
  exact ⟨max_le (by linarith) low, le_min (by linarith) high⟩

/-- The clamp of the adapter's limits moves a ratio no further than the bounds. -/
theorem Settings.Admissible.clamp_steered {ratio : ℚ}
    (low : settings.nominal * (999 / 1000) ≤ ratio)
    (high : ratio ≤ settings.nominal * (1001 / 1000)) :
    settings.Steered (Binary64.clamp ratio (minimumRatio ℚ) (maximumRatio ℚ)) := by
  have nominalLow := admissible.nominal_ge
  have nominalHigh := admissible.nominal_le
  change settings.Steered (max (1 / 256) (min ratio 256))
  refine ⟨max_le ?_ (le_max_left _ _), max_le (le_min (by linarith) (by norm_num)) ?_⟩
  · exact (le_min low (by linarith)).trans (le_max_right _ _)
  · exact le_min ((min_le_left _ _).trans high) (min_le_right _ _)

end Control

theorem Settings.Steered.clamp {settings : Settings} {ratio : ℚ} (steered : settings.Steered ratio) :
    Binary64.clamp ratio (minimumRatio ℚ) (maximumRatio ℚ) = ratio := by
  have low : (1 : ℚ) / 256 ≤ ratio := (le_max_right _ _).trans steered.1
  have high : ratio ≤ 256 := steered.2.trans (min_le_right _ _)
  change max (1 / 256) (min ratio 256) = ratio
  rw [min_eq_left high, max_eq_right low]

theorem occupancyError_bounds (geometry : Geometry) (occupancyMilli : Nat) :
    -1 ≤ occupancyError ℚ geometry occupancyMilli ∧
      occupancyError ℚ geometry occupancyMilli ≤ 1 := by
  unfold occupancyError
  split
  · change (-1 : ℚ) ≤ 0 ∧ (0 : ℚ) ≤ 1
    norm_num
  · have limits : (-1 : ℚ) ≤ 1 := by norm_num
    exact ⟨le_max_left _ _, max_le limits (min_le_right _ _)⟩

theorem Settings.Admissible.steeredRatio {settings : Settings} (admissible : settings.Admissible)
    {geometry : Geometry} (input : geometry.inputRateHz = settings.inputRateHz)
    (output : geometry.outputRateHz = settings.outputRateHz) (smoothed : Nat) {ratio : ℚ}
    (before : ratio = 0 ∨ settings.Steered ratio) :
    settings.Steered (steeredRatio ℚ geometry smoothed ratio) := by
  have nominalEq : nominalRatio ℚ geometry.outputRateHz geometry.inputRateHz =
      settings.nominal := by
    rw [input, output]
    rfl
  obtain ⟨errorLow, errorHigh⟩ := occupancyError_bounds geometry smoothed
  have nominalLow := admissible.nominal_ge
  have desired : settings.Steered (Binary64.clamp
      (settings.nominal * (1 - occupancyError ℚ geometry smoothed * (1 / 1000)))
      (minimumRatio ℚ) (maximumRatio ℚ)) := by
    refine admissible.clamp_steered ?_ ?_
    · exact mul_le_mul_of_nonneg_left (by linarith) (by linarith)
    · exact mul_le_mul_of_nonneg_left (by linarith) (by linarith)
  have next : settings.Steered (if Binary64.eq ratio (Binary64.ofRat 0) then settings.nominal
      else ratio + (Binary64.clamp
        (settings.nominal * (1 - occupancyError ℚ geometry smoothed * (1 / 1000)))
        (minimumRatio ℚ) (maximumRatio ℚ) - ratio) / 512) := by
    split
    · exact admissible.nominal_steered
    · rename_i nonzero
      obtain ⟨ratioLow, ratioHigh⟩ :=
        before.resolve_left fun zero => nonzero (decide_eq_true zero)
      obtain ⟨desiredLow, desiredHigh⟩ := desired
      exact ⟨by linarith, by linarith⟩
  unfold PcmRing.steeredRatio
  rw [nominalEq]
  exact next.clamp.symm ▸ next

namespace Adapter

/-- The same callbacks over a handle that also lists every ratio a processing
call was given. -/
def timing (adapter : Adapter F W S) : Adapter F W (S × List W) where
  create inputRate outputRate maxInput maxOutput :=
    let created := adapter.create inputRate outputRate maxInput maxOutput
    (created.1, created.2.map fun handle => (handle, []))
  reset handle :=
    let answered := adapter.reset handle.1
    (answered.1, answered.2, handle.2)
  process handle input outputLength ratio :=
    let reply := adapter.process handle.1 input outputLength ratio
    { status := reply.status
      inputUsed := reply.inputUsed
      outputGenerated := reply.outputGenerated
      output := reply.output
      handle := (reply.handle, handle.2 ++ [ratio]) }
  queuedInput handle :=
    let answered := adapter.queuedInput handle.1
    (answered.1, answered.2.1, answered.2.2, handle.2)
  outputDelay handle :=
    let answered := adapter.outputDelay handle.1
    (answered.1, answered.2.1, answered.2.2, handle.2)
  inputDelay handle :=
    let answered := adapter.inputDelay handle.1
    (answered.1, answered.2.1, answered.2.2, handle.2)

variable (adapter : Adapter F W S) (handle : S × List W)

theorem timing_inputDelay : (adapter.timing.converterInputDelay handle).2.2 = handle.2 := rfl

/-- A conversion lists its ratio, unless the arguments were refused. -/
theorem timing_process [Binary64 W] (input : List F) (outputLength : Nat) (ratio : W) :
    (adapter.timing.converterProcess handle input outputLength ratio).2.2 = handle.2 ∨
      (adapter.timing.converterProcess handle input outputLength ratio).2.2 =
        handle.2 ++ [ratio] := by
  unfold converterProcess
  split
  · exact .inl rfl
  · exact .inr rfl

end Adapter

/-- One step listed at most the ratio that was set. -/
structure Timed (before after : ConsumerState F (S × List W) W) : Prop where
  ratio_eq : after.ratio = before.ratio
  log : after.converter.2 = before.converter.2 ∨
    after.converter.2 = before.converter.2 ++ [before.ratio]

section Conversion

variable (adapter : Adapter F W S) (geometry : Geometry) (state : ConsumerState F (S × List W) W)

theorem classifyGaps_timed : ∃ gaps missing handle,
    (state.classifyGaps adapter.timing).2 = { state with
      gaps := gaps, outputMissing := missing, converter := (handle, state.converter.2) } := by
  unfold ConsumerState.classifyGaps
  dsimp only
  split
  · exact ⟨state.gaps, false, state.converter.1, rfl⟩
  · split
    · rename_i converter queried
      have log := adapter.timing_inputDelay state.converter
      rw [queried] at log
      exact ⟨state.gaps, false, converter.1, by rw [← log]⟩
    · rename_i delay converter queried
      have log := adapter.timing_inputDelay state.converter
      rw [queried] at log
      split
      · exact ⟨state.gaps, false, converter.1, by rw [← log]⟩
      · exact ⟨_, _, converter.1, by rw [← log]⟩

theorem recordCache_timed (sourceStart : Int) (generated : Nat) :
    (state.recordCache adapter.timing sourceStart generated).2.ratio = state.ratio ∧
      (state.recordCache adapter.timing sourceStart generated).2.converter.2 =
        state.converter.2 := by
  have log := adapter.timing_inputDelay state.converter
  unfold ConsumerState.recordCache
  split
  · exact ⟨rfl, rfl⟩
  · split
    · rename_i queried
      rw [queried] at log
      exact ⟨rfl, log⟩
    · rename_i queried
      rw [queried] at log
      dsimp only
      split
      · exact ⟨rfl, log⟩
      · exact ⟨rfl, log⟩

theorem finishConversion_timed (used generated : Nat) :
    (state.finishConversion geometry used generated).2.ratio = state.ratio ∧
      (state.finishConversion geometry used generated).2.converter = state.converter := by
  unfold ConsumerState.finishConversion
  dsimp only
  split
  · exact ⟨rfl, rfl⟩
  · split <;> exact ⟨rfl, rfl⟩

theorem runConverter_timed [Binary64 W] (quantum : Nat) :
    Timed state (state.runConverter adapter.timing geometry quantum).2 := by
  unfold ConsumerState.runConverter
  dsimp only
  have asked := adapter.timing_inputDelay state.converter
  split
  · rename_i queried
    rw [queried] at asked
    exact ⟨rfl, .inl asked⟩
  · rename_i delay converter queried
    rw [queried] at asked
    have listed := adapter.timing_process converter state.offered
      (if state.gaps = [] then quantum else 1) state.ratio
    dsimp only at asked
    rw [asked] at listed
    split
    · rename_i processed
      rw [processed] at listed
      exact ⟨rfl, listed⟩
    · rename_i converted converter' processed
      rw [processed] at listed
      obtain ⟨ratioEq, logEq⟩ := recordCache_timed adapter
        (ConsumerState.consumeInput converted.inputUsed { state with
          converter := converter'
          output := fun index => if index < converted.outputGenerated then converted.output index
            else state.output index })
        ((state.converterAccepted : Int) * frameUnit - delay) converted.outputGenerated
      have recorded : Timed state (ConsumerState.recordCache adapter.timing
          ((state.converterAccepted : Int) * frameUnit - delay) converted.outputGenerated
          (ConsumerState.consumeInput converted.inputUsed { state with
            converter := converter'
            output := fun index => if index < converted.outputGenerated then
              converted.output index else state.output index })).2 :=
        ⟨ratioEq, by rw [logEq]; exact listed⟩
      split
      · rename_i placed placedEq
        rw [placedEq] at recorded
        exact recorded
      · rename_i placed placedEq
        rw [placedEq] at recorded
        obtain ⟨ratioKept, converterKept⟩ := finishConversion_timed geometry placed
          converted.inputUsed converted.outputGenerated
        exact ⟨ratioKept.trans recorded.ratio_eq, by rw [converterKept]; exact recorded.log⟩

/-- A conversion lists at most the ratio that was set for it. -/
theorem convert_timed [Binary64 W] (quantum : Nat) :
    Timed state (state.convert adapter.timing geometry quantum).2 := by
  obtain ⟨gaps, missing, handle, classifiedEq⟩ := classifyGaps_timed adapter state
  unfold ConsumerState.convert
  generalize state.classifyGaps adapter.timing = classified at classifiedEq ⊢
  obtain ⟨ok, after⟩ := classified
  dsimp only at classifiedEq
  subst classifiedEq
  cases ok with
  | false => exact ⟨rfl, .inl rfl⟩
  | true =>
      have timed := runConverter_timed adapter geometry { state with
        gaps := gaps, outputMissing := missing, converter := (handle, state.converter.2) } quantum
      exact ⟨timed.ratio_eq, timed.log⟩

end Conversion

/-- The ratio, once it is set, and every ratio listed are within the bounds. -/
structure Clocked (settings : Settings) (state : ConsumerState F (S × List ℚ) ℚ) : Prop where
  ratio : state.ratio = 0 ∨ settings.Steered state.ratio
  log : ∀ ratio ∈ state.converter.2, settings.Steered ratio

namespace Clocked

variable {settings : Settings} {state : ConsumerState F (S × List ℚ) ℚ}

theorem agree {other : ConsumerState F (S × List ℚ) ℚ} (clocked : Clocked settings state)
    (ratioEq : other.ratio = state.ratio) (logEq : other.converter.2 = state.converter.2) :
    Clocked settings other where
  ratio := ratioEq ▸ clocked.ratio
  log := logEq ▸ clocked.log

/-- A conversion at a set ratio lists a ratio within the bounds. -/
theorem timed {after : ConsumerState F (S × List ℚ) ℚ} (clocked : Clocked settings state)
    (steered : settings.Steered state.ratio) (step : Timed state after) :
    Clocked settings after where
  ratio := .inr (step.ratio_eq ▸ steered)
  log ratio member := by
    rcases step.log with same | listed
    · exact clocked.log ratio (same ▸ member)
    · rw [listed] at member
      rcases List.mem_append.mp member with earlier | last
      · exact clocked.log ratio earlier
      · exact List.mem_singleton.mp last ▸ steered

theorem acceptSource (clocked : Clocked settings state) (gapCapacity : Nat)
    (slot : SourceSample F) : Clocked settings (state.acceptSource gapCapacity slot).2 := by
  have fenced : Clocked settings (state.fence slot.stamp).2 := by
    rcases state.fence_cases slot.stamp with
      ⟨-, fenced⟩ | ⟨mark, -, -, fenced⟩ | ⟨mark, -, -, fenced⟩ <;> rw [fenced] <;>
      exact clocked.agree rfl rfl
  rcases state.acceptSource_cases gapCapacity slot with
    ⟨gaps, -, -, accepted⟩ | ⟨-, accepted⟩ | ⟨-, -, -, accepted⟩
  · rw [accepted]
    exact fenced.agree rfl rfl
  · rw [accepted]
    exact fenced.agree rfl rfl
  · rw [accepted]
    exact fenced.agree rfl rfl

end Clocked

theorem clockedKept [Binary32 F] [Widening F ℚ] {adapter : Adapter F ℚ S} {settings : Settings}
    (admissible : settings.Admissible) {geometry : Geometry}
    (input : geometry.inputRateHz = settings.inputRateHz)
    (output : geometry.outputRateHz = settings.outputRateHz)
    {shape : List (SourceSample F) → List SlotNote → Prop} :
    SteeredInvariant adapter.timing geometry shape (fun state _ => Clocked settings state)
      fun state _ => Clocked settings state ∧ settings.Steered state.ratio where
  published _ _ clocked := clocked
  same _ clocked := clocked
  capture _ _ _ clocked := clocked.agree rfl rfl
  receive _ _ clocked := clocked.agree rfl rfl
  flags _ _ clocked := clocked.agree rfl rfl
  space {state ring} wanted _ _ clocked := by
    unfold ConsumerState.makeInputSpace
    split
    · exact clocked
    · exact clocked.agree rfl rfl
  take _ _ _ _ _ clocked := clocked.acceptSource _ _
  pad _ _ _ clocked := by
    unfold ConsumerState.padInput
    split
    · exact clocked.agree rfl rfl
    · exact clocked
  query _ _ clocked := clocked.agree rfl rfl
  steer smoothed _ clocked :=
    have steered := admissible.steeredRatio input output smoothed clocked.ratio
    ⟨⟨.inr steered, clocked.log⟩, steered⟩
  nominal _ clocked := by
    have nominalEq : nominalRatio ℚ geometry.outputRateHz geometry.inputRateHz =
        settings.nominal := by
      rw [input, output]
      rfl
    have steered := nominalEq.symm ▸ admissible.nominal_steered
    exact ⟨⟨.inr steered, clocked.log⟩, steered⟩
  keep _ nonzero clocked :=
    ⟨clocked, clocked.ratio.resolve_left (of_decide_eq_false nonzero)⟩
  setPublished _ _ clocked := clocked
  setSame _ clocked := clocked
  convert _ _ clocked := clocked.1.timed clocked.2 (convert_timed adapter geometry _ _)
  emit {slack result state ring} _ _ _ clocked := by
    obtain ⟨plc, plcPositions, plcPosition, muteHistory, emissionEq⟩ :=
      state.emission_state geometry result
    rw [emissionEq]
    unfold ConsumerState.popped
    split
    · exact clocked.agree rfl rfl
    · exact clocked.agree rfl rfl
  release {state boundary ring} _ _ _ clocked := by
    obtain ⟨plc, releaseEq⟩ := release_cases geometry state boundary
    rw [releaseEq]
    exact clocked.agree rfl rfl
  reset {state earlier ring} quiet clocked _ := ⟨.inl rfl, clocked.log⟩

/-- What admission and the controller agree on. -/
structure ClockWithinAdmission (W : Type) [Binary64 W] (adapter : Adapter F ℚ S)
    (settings : Settings) [Binary32 F] [Widening F ℚ] : Prop where
  /-- The validation never overflows. -/
  checked : settings.Words → CheckedSettings.validate W settings = some (settings.validate W)
  accepted : settings.validate ℚ = .ok () ↔ settings.Admissible
  /-- Every processing call was given a ratio within the bounds, and a callback at
  that ratio fits the reserve. -/
  steered : ∀ {geometry : Geometry} {config : RingConfig F (S × List ℚ) ℚ},
    RingReachable adapter.timing settings (fun _ _ => True) geometry config →
    config.thread .consumer = .idle → ∀ ratio ∈ config.memory.consumer.converter.2,
      settings.lowestRatio ≤ ratio ∧ ratio ≤ settings.highestRatio ∧
        (settings.plc = .g711AppendixI →
          ⌈(settings.maxOutput : ℚ) / ratio⌉₊ + 1 ≤ settings.reserve)

/-- A callback at a ratio within the bounds needs no more than the budget. -/
theorem Settings.Steered.frames_le {settings : Settings} {ratio : ℚ}
    (steered : settings.Steered ratio) :
    ⌈(settings.maxOutput : ℚ) / ratio⌉₊ ≤ ⌈(settings.maxOutput : ℚ) / settings.lowestRatio⌉₊ :=
  Nat.ceil_mono (div_le_div_of_nonneg_left (Nat.cast_nonneg _) settings.lowestRatio_pos steered.1)

/-- Admission accepts the documented settings, and no run leaves the ratios its
headroom was computed from. -/
theorem clock_within_admission [Binary32 F] [Widening F ℚ] (W : Type) [Binary64 W]
    (adapter : Adapter F ℚ S) (settings : Settings) :
    ClockWithinAdmission W adapter settings where
  checked := CheckedSettings.validate_eq
  accepted := Settings.validate_iff
  steered {geometry config} reached idle ratio member := by
    obtain ⟨ring, created, steps⟩ := reached
    have log : ring.consumer.converter.2 = [] := by
      refine @create_handle _ _ _ _ _ _ _ _ _ created (fun handle => handle.2 = []) ?_ ?_ ?_
      · intro inputRate outputRate maxInput maxOutput handle made
        obtain ⟨bare, -, rfl⟩ := Option.map_eq_some_iff.mp made
        rfl
      · exact fun _ nothing => nothing
      · exact fun _ nothing => nothing
    obtain ⟨valid, outputDelay, delay, converter, rfl, initial⟩ := create_cases created
    have admissible := Settings.validate_iff.mp valid
    have start : Clocked settings ring.consumer :=
      ⟨.inl (initial ▸ rfl), fun ratio member => by rw [log] at member; cases member⟩
    obtain ⟨-, clocked⟩ := invariant_of_idle (clockedKept admissible rfl rfl) created start steps
      idle
    have steered := clocked.log ratio member
    refine ⟨steered.1, steered.2, fun mode => ?_⟩
    exact (Nat.succ_le_succ steered.frames_le).trans (admissible.headroom mode).1

/-- Twenty-four samples are published and one is rendered. -/
theorem clock_within_admission_after_a_render :
    ∃ (settings : Settings) (geometry : Geometry) (config : RingConfig ℚ (Unit × List ℚ) ℚ)
      (ratio : ℚ), settings.plc = .g711AppendixI ∧
      RingReachable (unitConverter (F := ℚ) (W := ℚ)).timing settings (fun _ _ => True) geometry
        config ∧ ratio ∈ config.memory.consumer.converter.2 ∧
      CheckedSettings.validate ℚ settings = some (settings.validate ℚ) ∧
      (settings.validate ℚ = .ok () ↔ settings.Admissible) ∧
      settings.lowestRatio ≤ ratio ∧ ratio ≤ settings.highestRatio ∧
      ⌈(settings.maxOutput : ℚ) / ratio⌉₊ + 1 ≤ settings.reserve := by
  let settings : Settings :=
    { smallSettings with reserve := 16, target := 16, plc := .g711AppendixI }
  let shown (_ : Geometry) (config : RingConfig ℚ (Unit × List ℚ) ℚ) : Bool :=
    config.resting .consumer && !config.memory.consumer.converter.2.isEmpty
  have played : (playRing (unitConverter (F := ℚ) (W := ℚ)).timing settings
      (uninterrupted .producer (.push (List.replicate 8 (1 / 2))) ++
        uninterrupted .producer (.push (List.replicate 8 (1 / 4))) ++
        uninterrupted .producer (.push (List.replicate 8 1)) ++
        uninterrupted .consumer .render)).any
      (fun played => shown played.1 played.2) = true := by decide +kernel
  obtain ⟨geometry, config, reached, shows⟩ :=
    reachable_of_plays _ _ _ shown (admitted_any _) played
  obtain ⟨resting, listed⟩ := Bool.and_eq_true_iff.mp shows
  have some : config.memory.consumer.converter.2 ≠ [] := by simpa using listed
  obtain ⟨ratio, member⟩ := List.exists_mem_of_ne_nil _ some
  have agrees := clock_within_admission ℚ (unitConverter (F := ℚ) (W := ℚ)) settings
  obtain ⟨low, high, fits⟩ :=
    agrees.steered reached (Config.idle_of_resting resting) ratio member
  exact ⟨settings, geometry, config, ratio, rfl, reached, member,
    agrees.checked ⟨by decide, by decide, by decide, by decide, by decide⟩, agrees.accepted, low,
    high, fits rfl⟩

end PcmRing
