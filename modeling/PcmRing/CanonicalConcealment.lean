import PcmRing.LossPhases
import Mathlib.Tactic.Linarith
import Mathlib.Tactic.Positivity
import Mathlib.Tactic.FieldSimp

/-!
# Concealment stays canonical and fades out

In exact arithmetic every blend is a convex combination.  Canonical input keeps
every buffer of the workspace canonical, a loss fades to silence along its
envelope, and the recovery from it ends in the received sample.
-/

namespace PcmRing

/-- The weight of the new sample in a blend. -/
def blendWeight (index count : Nat) : ℚ :=
  ((index + 1 : Nat) : ℚ) / count

theorem blend_rat (old new : ℚ) (index count : Nat) :
    blend old new index count =
      old * (1 - blendWeight index count) + new * blendWeight index count :=
  rfl

theorem blendWeight_nonneg (index count : Nat) : 0 ≤ blendWeight index count := by
  unfold blendWeight
  positivity

theorem blendWeight_le_one {index count : Nat} (inside : index < count) :
    blendWeight index count ≤ 1 := by
  unfold blendWeight
  have positive : (0 : ℚ) < count := by exact_mod_cast Nat.zero_lt_of_lt inside
  rw [div_le_one positive]
  exact_mod_cast inside

theorem blendWeight_last {count : Nat} (positive : 0 < count) :
    blendWeight (count - 1) count = 1 := by
  unfold blendWeight
  have nonzero : (count : ℚ) ≠ 0 := by exact_mod_cast Nat.ne_of_gt positive
  rw [Nat.sub_add_cancel positive, div_self nonzero]

theorem blend_abs_le {old new bound : ℚ} {index count : Nat} (oldLe : |old| ≤ bound)
    (newLe : |new| ≤ bound) (inside : index < count) : |blend old new index count| ≤ bound := by
  have low := blendWeight_nonneg index count
  have high := sub_nonneg.mpr (blendWeight_le_one inside)
  calc |blend old new index count|
      ≤ |old * (1 - blendWeight index count)| + |new * blendWeight index count| :=
        abs_add_le _ _
    _ = |old| * (1 - blendWeight index count) + |new| * blendWeight index count := by
        rw [abs_mul, abs_mul, abs_of_nonneg high, abs_of_nonneg low]
    _ ≤ bound * (1 - blendWeight index count) + bound * blendWeight index count :=
        add_le_add (mul_le_mul_of_nonneg_right oldLe high) (mul_le_mul_of_nonneg_right newLe low)
    _ = bound := by ring

/-- The gain of the sample that `lost` others of its loss precede. -/
def lossEnvelope (tenMs lost : Nat) : ℚ :=
  max (1 - ((lost - tenMs : Nat) : ℚ) / ((tenMs * 5 : Nat) : ℚ)) 0

theorem lossGain_rat (plc : Plc ℚ) : plc.lossGain = lossEnvelope plc.tenMs plc.lost :=
  rfl

theorem lossEnvelope_nonneg (tenMs lost : Nat) : 0 ≤ lossEnvelope tenMs lost :=
  le_max_right _ _

theorem lossEnvelope_le_one (tenMs lost : Nat) : lossEnvelope tenMs lost ≤ 1 := by
  refine max_le ?_ zero_le_one
  have := div_nonneg (Nat.cast_nonneg (α := ℚ) (lost - tenMs)) (Nat.cast_nonneg (tenMs * 5))
  linarith

/-- Unity for the first 10 ms. -/
theorem lossEnvelope_one {tenMs lost : Nat} (early : lost ≤ tenMs) :
    lossEnvelope tenMs lost = 1 := by
  unfold lossEnvelope
  rw [Nat.sub_eq_zero_of_le early]
  simp

theorem lossEnvelope_antitone (tenMs : Nat) : Antitone (lossEnvelope tenMs) := by
  intro early late le
  refine max_le_max (sub_le_sub_left (div_le_div_of_nonneg_right ?_ (Nat.cast_nonneg _)) _)
    (le_refl 0)
  exact_mod_cast Nat.sub_le_sub_right le tenMs

/-- Silence from 60 ms on. -/
theorem lossEnvelope_zero {tenMs lost : Nat} (positive : 0 < tenMs) (late : 6 * tenMs ≤ lost) :
    lossEnvelope tenMs lost = 0 := by
  refine max_eq_right (sub_nonpos.mpr ?_)
  have divisor : (0 : ℚ) < ((tenMs * 5 : Nat) : ℚ) := by exact_mod_cast (by omega)
  rw [le_div_iff₀ divisor, one_mul]
  exact_mod_cast (by omega : tenMs * 5 ≤ lost - tenMs)

/-- The counter of lost samples saturates when the loss has long been silent. -/
theorem lossEnvelope_min {tenMs : Nat} (lost : Nat) {limit : Nat} (positive : 0 < tenMs)
    (silent : 6 * tenMs ≤ limit) :
    lossEnvelope tenMs (min lost limit) = lossEnvelope tenMs lost := by
  rcases Nat.le_total lost limit with within | beyond
  · rw [Nat.min_eq_left within]
  · rw [Nat.min_eq_right beyond, lossEnvelope_zero positive silent,
      lossEnvelope_zero positive (Nat.le_trans silent beyond)]

/-- Every sample that a workspace keeps is canonical. -/
structure Plc.Canonical (plc : Plc ℚ) : Prop where
  history : ∀ index, |plc.history index| ≤ 1
  frozen : ∀ index, |plc.frozen index| ≤ 1
  lastQuarter : ∀ index, |plc.lastQuarter index| ≤ 1
  overlap : ∀ index, |plc.overlap index| ≤ 1
  gain : |plc.recoveryGain| ≤ 1

section Steps

variable {plc : Plc ℚ}

theorem Plc.Canonical.smoothCycleTail (canonical : plc.Canonical) :
    plc.smoothCycleTail.Canonical := by
  refine (forRange_keeps (fun _ (state : Plc ℚ) => state.Canonical) ?_ canonical)
  intro index state inside kept
  refine { kept with frozen := fun other => ?_ }
  dsimp only
  rcases eq_or_ne other (state.historyLength - plc.pitch / 4 + index) with rfl | different
  · rw [Function.update_self]
    exact blend_abs_le (kept.lastQuarter _) (kept.frozen _) inside
  · rw [Function.update_of_ne different]
    exact kept.frozen other

theorem Plc.Canonical.beginLossAt (canonical : plc.Canonical) (pitch : Nat) :
    (plc.beginLossAt pitch).Canonical := by
  have adopted : (plc.freeze.adoptPitch pitch).Canonical :=
    { canonical with
      frozen := fun index => canonical.history _
      lastQuarter := fun index => by
        unfold Plc.adoptPitch
        dsimp only
        split
        · exact canonical.history _
        · exact canonical.lastQuarter index }
  unfold Plc.beginLossAt Plc.rewriteTail
  refine forRange_keeps (fun _ (state : Plc ℚ) => state.Canonical) ?_ adopted.smoothCycleTail
  intro index state _ kept
  refine { kept with history := fun other => ?_ }
  dsimp only
  rcases eq_or_ne other ((state.next + plc.historyLength - pitch / 4 + index) %
    plc.historyLength) with rfl | different
  · rw [Function.update_self]
    exact kept.frozen _
  · rw [Function.update_of_ne different]
    exact kept.history other

theorem Plc.Canonical.keepOverlap (canonical : plc.Canonical) (quarter : Nat) :
    (plc.keepOverlap quarter).Canonical := by
  unfold Plc.keepOverlap
  refine forRange_keeps (fun _ (state : Plc ℚ) => state.Canonical) ?_ canonical
  intro index state _ kept
  refine { kept with overlap := fun other => ?_ }
  dsimp only
  rcases eq_or_ne other index with rfl | different
  · rw [Function.update_self]
    exact kept.frozen _
  · rw [Function.update_of_ne different]
    exact kept.overlap other

theorem Plc.Canonical.expandCycle (canonical : plc.Canonical) : plc.expandCycle.Canonical := by
  have kept := canonical.keepOverlap (plc.pitch / 4)
  have longer : ({ plc.keepOverlap (plc.pitch / 4) with
      phase := Plc.foldPhase (plc.keepOverlap (plc.pitch / 4)).pitch plc.phase plc.phase
      cycle := (plc.keepOverlap (plc.pitch / 4)).cycle +
        (plc.keepOverlap (plc.pitch / 4)).pitch } : Plc ℚ).Canonical := { kept with }
  exact { longer.smoothCycleTail with }

theorem Plc.Canonical.substitution (canonical : plc.Canonical)
    (overlap_le : plc.overlapLeft ≤ plc.pitch / 4) :
    |plc.substitution.1| ≤ 1 ∧ plc.substitution.2.Canonical := by
  unfold Plc.substitution
  dsimp only
  split
  · rename_i overlapping
    exact ⟨blend_abs_le (canonical.overlap _) (canonical.frozen _) (by omega), { canonical with }⟩
  · exact ⟨canonical.frozen _, { canonical with }⟩

theorem abs_mul_le_gain {sample gain : ℚ} (canonical : |sample| ≤ 1) (nonneg : 0 ≤ gain) :
    |sample * gain| ≤ gain := by
  rw [abs_mul, abs_of_nonneg nonneg]
  calc |sample| * gain ≤ 1 * gain := mul_le_mul_of_nonneg_right canonical nonneg
    _ = gain := one_mul gain

theorem lossEnvelope_abs_le (tenMs lost : Nat) : |lossEnvelope tenMs lost| ≤ 1 := by
  rw [abs_of_nonneg (lossEnvelope_nonneg _ _)]
  exact lossEnvelope_le_one _ _

theorem Plc.Canonical.endLoss (canonical : plc.Canonical) : plc.endLoss.Canonical := by
  unfold Plc.endLoss
  split
  · exact { canonical with gain := lossEnvelope_abs_le _ _ }
  · exact canonical

theorem Plc.Canonical.delay (canonical : plc.Canonical) {sample : ℚ} (bounded : |sample| ≤ 1)
    (real : ℚ) : |(plc.delay sample real).1.1| ≤ 1 ∧ (plc.delay sample real).2.Canonical := by
  refine ⟨canonical.history _, { canonical with history := fun other => ?_ }⟩
  unfold Plc.delay
  dsimp only
  rcases eq_or_ne other plc.next with rfl | different
  · rw [Function.update_self]
    exact bounded
  · rw [Function.update_of_ne different]
    exact canonical.history other

theorem Plc.Canonical.sounded (canonical : plc.Canonical) (pitch : Nat) :
    (plc.sounded pitch).Canonical := by
  have quieted : ({ plc with recoveryLeft := 0 } : Plc ℚ).Canonical := { canonical with }
  have begun : (plc.begun pitch).Canonical := by
    unfold Plc.begun
    split
    · exact quieted.beginLossAt pitch
    · exact quieted
  unfold Plc.sounded Plc.grown
  split
  · exact begun.expandCycle
  · exact begun

/-- A substituted sample stays below the envelope of its loss. -/
theorem Plc.Canonical.concealAt (canonical : plc.Canonical) (bounded : plc.Bounded) {pitch : Nat}
    (range : plc.minPitch ≤ pitch ∧ pitch ≤ plc.maxPitch) :
    |(plc.concealAt pitch).1| ≤ lossEnvelope plc.tenMs plc.lost ∧
      (plc.concealAt pitch).2.Canonical := by
  obtain ⟨-, ready⟩ := Plc.sounded_losing bounded range
  obtain ⟨-, -, lostEq, sizesEq, -, -⟩ := ready.voiced.substitution rfl
  obtain ⟨below, kept⟩ :=
    (canonical.sounded pitch).substitution ready.voiced.buffers.overlap_le
  rw [Plc.concealAt_eq]
  refine ⟨?_, { kept with }⟩
  rw [lossGain_rat, Plc.tenMs_eq_of_sizes (sizesEq.trans ready.sizes_eq),
    lostEq.trans ready.lost_eq]
  exact abs_mul_le_gain below (lossEnvelope_nonneg _ _)

theorem Plc.Canonical.crossfade (canonical : plc.Canonical)
    (overlap_le : plc.recoveryLeft ≠ 0 → plc.overlapLeft ≤ plc.pitch / 4)
    (recovery_le : plc.recoveryLeft ≤ plc.recoveryLength) {sample : ℚ} (bounded : |sample| ≤ 1) :
    |(plc.crossfade sample).1| ≤ 1 ∧ (plc.crossfade sample).2.Canonical := by
  unfold Plc.crossfade
  split
  · exact ⟨bounded, canonical⟩
  · rename_i fading
    obtain ⟨below, kept⟩ := canonical.substitution (overlap_le fading)
    refine ⟨blend_abs_le ?_ bounded (by omega), { kept with }⟩
    rw [abs_mul]
    exact mul_le_one₀ below (abs_nonneg _) canonical.gain

theorem Plc.Canonical.recover (canonical : plc.Canonical) (bounded : plc.Bounded) {sample : ℚ}
    (sample_le : |sample| ≤ 1) :
    |(plc.recover sample).1| ≤ 1 ∧ (plc.recover sample).2.Canonical := by
  rw [Plc.recover_eq]
  exact canonical.endLoss.crossfade (fun fading =>
    (bounded.endLoss.sounding (.inr fading)).2.2.overlap_le) bounded.endLoss.recovery_le sample_le

end Steps

/-- The weight of a received sample, `received` others of its recovery before it. -/
def recoveryWeight (span received : Nat) : ℚ :=
  if received + 1 < span then blendWeight received span else 1

theorem recoveryWeight_nonneg (span received : Nat) : 0 ≤ recoveryWeight span received := by
  unfold recoveryWeight
  split
  · exact blendWeight_nonneg _ _
  · exact zero_le_one

theorem recoveryWeight_le_one (span received : Nat) : recoveryWeight span received ≤ 1 := by
  unfold recoveryWeight
  split
  · exact blendWeight_le_one (by omega)
  · exact le_refl 1

/-- A recovery ends with the received sample. -/
theorem recoveryWeight_last {span received : Nat} (last : span ≤ received + 1) :
    recoveryWeight span received = 1 :=
  if_neg (Nat.not_lt.mpr last)

theorem recoveryWeight_mono (span : Nat) : Monotone (recoveryWeight span) := by
  intro early late le
  unfold recoveryWeight
  split
  · split
    · refine div_le_div_of_nonneg_right ?_ (Nat.cast_nonneg _)
      exact_mod_cast Nat.succ_le_succ le
    · exact blendWeight_le_one (by omega)
  · rw [if_neg (by omega)]

/-- A received sample is blended with what is left of the last loss. -/
theorem Plc.Tracked.recovered {plc : Plc ℚ} {rate : Nat} {phase : LossPhase}
    (tracked : Plc.Tracked rate plc phase) (positive : 0 < rate) (word : rate < 2 ^ 32)
    (sample : ℚ) :
    (plc.recover sample).1 =
      plc.endLoss.substitution.1 * lossEnvelope (ceilDiv (rate * 10) 1000) phase.lastLoss *
          (1 - recoveryWeight (phase.span rate) phase.reals) +
        sample * recoveryWeight (phase.span rate) phase.reals := by
  obtain ⟨left, fading⟩ := tracked.follows.endLoss positive word tracked.scaled
  rw [Plc.recover_eq]
  unfold Plc.crossfade
  split
  · rename_i recovered
    rw [recoveryWeight_last (by omega)]
    ring
  · rename_i fades
    obtain ⟨length, gain⟩ := fading fades
    have tenMs_pos : 0 < ceilDiv (rate * 10) 1000 := by
      unfold ceilDiv
      omega
    have tenMs_le : 6 * ceilDiv (rate * 10) 1000 ≤ 2 ^ 64 - 1 := by
      unfold ceilDiv
      omega
    have weight : blendWeight (phase.span rate - (phase.span rate - phase.reals))
        (phase.span rate) = recoveryWeight (phase.span rate) phase.reals := by
      rw [Nat.sub_sub_self (by omega)]
      unfold recoveryWeight
      split
      · rfl
      · rw [show phase.reals = phase.span rate - 1 by omega]
        exact blendWeight_last (by omega)
    rw [blend_rat, length, left, weight, gain]
    change _ * lossEnvelope _ (min _ _) * _ + _ = _
    rw [lossEnvelope_min phase.lastLoss tenMs_pos tenMs_le]

namespace PlcCall

/-- Received samples are canonical. -/
def Canonical : PlcCall ℚ → Prop
  | .process input _ => ∀ sample ∈ input, |sample| ≤ 1
  | .drain | .reset => True

/-- What a call plays. -/
def output (plc : Plc ℚ) : PlcCall ℚ → Option ℚ
  | .process input pitch => some (plc.processAt pitch input).1.1
  | .drain => some plc.drainSample.1.1
  | .reset => none

end PlcCall

/-- One call keeps a workspace canonical, and plays canonical PCM. -/
theorem Plc.Canonical.run {plc : Plc ℚ} {rate : Nat} {phase : LossPhase} (canonical : plc.Canonical)
    (tracked : Plc.Tracked rate plc phase) {call : PlcCall ℚ} (finds : call.Finds rate)
    (bounded : call.Canonical) :
    (call.run plc).Canonical ∧ ∀ output ∈ call.output plc, |output| ≤ 1 := by
  have played {before : Plc ℚ} (canonical : before.Canonical) {sample : ℚ} (below : |sample| ≤ 1)
      (real : ℚ) : (before.delay sample real).2.Canonical ∧
        ∀ output ∈ some (before.delay sample real).1.1, |output| ≤ 1 := by
    obtain ⟨oldest, kept⟩ := canonical.delay below real
    exact ⟨kept, fun output member => Option.mem_some_iff.mp member ▸ oldest⟩
  cases call with
  | process input pitch =>
      cases input with
      | some sample =>
          obtain ⟨below, kept⟩ := canonical.recover tracked.bounded (bounded sample rfl)
          exact played kept below 1
      | none =>
          obtain ⟨below, kept⟩ := canonical.concealAt tracked.bounded (tracked.range finds)
          exact played kept (Preorder.le_trans _ _ _ below (lossEnvelope_le_one _ _)) 0
  | drain => exact played canonical (by norm_num) 0
  | reset =>
      refine ⟨{ canonical with history := fun index => ?_ }, fun output none => nomatch none⟩
      exact abs_zero.trans_le zero_le_one

/-- What the next call finds after a run. -/
structure Fades (rate : Nat) (plc : Plc ℚ) (phase : LossPhase) : Prop where
  canonical : plc.Canonical
  played : ∀ call : PlcCall ℚ, call.Finds rate → call.Canonical →
    ∀ output ∈ call.output plc, |output| ≤ 1
  /-- A lost sample is below the envelope of its loss. -/
  synthesized : ∀ pitch, (PlcCall.process (none : Option ℚ) pitch).Finds rate →
    |(plc.concealAt pitch).1| ≤ lossEnvelope (ceilDiv (rate * 10) 1000) phase.losses
  /-- A received sample fades in as what the loss ended with fades out. -/
  recovered : ∀ sample, (plc.recover sample).1 =
    plc.endLoss.substitution.1 * lossEnvelope (ceilDiv (rate * 10) 1000) phase.lastLoss *
        (1 - recoveryWeight (phase.span rate) phase.reals) +
      sample * recoveryWeight (phase.span rate) phase.reals

theorem Plc.Follows.envelope {plc : Plc ℚ} {rate : Nat} {phase : LossPhase}
    (follows : plc.Follows rate phase) (positive : 0 < rate) (word : rate < 2 ^ 32) :
    lossEnvelope (ceilDiv (rate * 10) 1000) plc.lost =
      lossEnvelope (ceilDiv (rate * 10) 1000) phase.losses := by
  cases follows with
  | quiet silent _ => rw [silent, LossPhase.losses]
  | returned _ silent _ _ => rw [silent, LossPhase.losses]
  | losing _ counted _ =>
      rw [counted]
      exact lossEnvelope_min _ (by unfold ceilDiv; omega) (by unfold ceilDiv; omega)

/-- Canonical input stays canonical in every buffer and in what is played, a
loss fades to silence, and the recovery from it ends in the received samples. -/
theorem concealment_canonical {rate : Nat} (positive : 0 < rate) (word : rate < 2 ^ 32)
    (calls : List (PlcCall ℚ)) (finds : ∀ call ∈ calls, call.Finds rate)
    (canonical : ∀ call ∈ calls, call.Canonical) :
    Fades rate (calls.foldl PlcCall.run (Plc.new rate)) (LossPhase.after calls) ∧
      (∀ lost ≤ ceilDiv (rate * 10) 1000, lossEnvelope (ceilDiv (rate * 10) 1000) lost = 1) ∧
      Antitone (lossEnvelope (ceilDiv (rate * 10) 1000)) ∧
      (∀ lost ≥ 6 * ceilDiv (rate * 10) 1000,
        lossEnvelope (ceilDiv (rate * 10) 1000) lost = 0) ∧
      ∀ span, Monotone (recoveryWeight span) ∧
        ∀ received, 0 ≤ recoveryWeight span received ∧ recoveryWeight span received ≤ 1 ∧
          (span ≤ received + 1 → recoveryWeight span received = 1) := by
  refine ⟨?_, fun lost => lossEnvelope_one, lossEnvelope_antitone _,
    fun lost => lossEnvelope_zero (by unfold ceilDiv; omega), fun span =>
      ⟨recoveryWeight_mono span, fun received => ⟨recoveryWeight_nonneg span received,
        recoveryWeight_le_one span received, recoveryWeight_last⟩⟩⟩
  have tracked := Plc.tracked_new (F := ℚ) positive word
  have kept : (calls.foldl PlcCall.run (Plc.new rate)).Canonical := by
    have start : (Plc.new rate : Plc ℚ).Canonical :=
      ⟨fun _ => abs_zero.trans_le zero_le_one, fun _ => abs_zero.trans_le zero_le_one,
        fun _ => abs_zero.trans_le zero_le_one, fun _ => abs_zero.trans_le zero_le_one,
        abs_one.le⟩
    generalize (Plc.new rate : Plc ℚ) = plc at tracked start
    generalize LossPhase.quiet = phase at tracked
    induction calls generalizing plc phase with
    | nil => exact start
    | cons call calls ih =>
        have found := finds call List.mem_cons_self
        exact ih (fun other member => finds other (List.mem_cons_of_mem call member))
          (fun other member => canonical other (List.mem_cons_of_mem call member)) _
          (start.run tracked found (canonical call List.mem_cons_self)).1 _
          (tracked.run positive word found)
  have later := tracked.runs positive word calls finds
  refine ⟨kept, fun call found bounded => (kept.run later found bounded).2, fun pitch found => ?_,
    later.recovered positive word⟩
  have below := (kept.concealAt later.bounded (later.range found)).1
  rw [later.tenMs, later.follows.envelope positive word] at below
  exact below

/-- Two samples into the fade from a loss that outlasted 10 ms. -/
theorem concealment_canonical_expanded :
    Fades 800 (expandedLoss.foldl PlcCall.run (Plc.new 800)) (.returned 8 9 2) ∧
      (expandedLoss.foldl PlcCall.run (Plc.new 800)).cycle = 16 ∧
      (expandedLoss.foldl PlcCall.run (Plc.new 800)).recoveryLeft = 4 :=
  ⟨(concealment_canonical (by decide) (by decide) expandedLoss expandedLoss_finds
    (by simp [expandedLoss, PlcCall.Canonical, abs_le]; norm_num)).1,
    by decide +kernel, by decide +kernel⟩

end PcmRing
