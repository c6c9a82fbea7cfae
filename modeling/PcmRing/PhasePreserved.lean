import PcmRing.ExactDelay
import Mathlib.Data.Nat.ModEq
import Mathlib.Tactic.Ring

/-!
# The oscillator of concealment

A substituted sample continues the waveform of the frozen history.  Growing the
cycle, joining its tail and the return of received PCM keep the phase modulo
the pitch, so that a periodic history is continued exactly.
-/

namespace PcmRing

/-- The values at these indices repeat after a period. -/
def PeriodicOn {α : Type} (values : Nat → α) (period low high : Nat) : Prop :=
  ∀ index, low ≤ index → index + period < high → values (index + period) = values index

theorem PeriodicOn.add_mul {α : Type} {values : Nat → α} {period low high : Nat}
    (periodic : PeriodicOn values period low high) {index : Nat} (low_le : low ≤ index)
    (periods : Nat) (lt : index + period * periods < high) :
    values (index + period * periods) = values index := by
  induction periods with
  | zero => rfl
  | succ periods ih =>
      rw [Nat.mul_succ, ← Nat.add_assoc] at lt ⊢
      rw [periodic _ (by omega) lt]
      exact ih (by omega)

theorem PeriodicOn.eq_of_mod_eq {α : Type} {values : Nat → α} {period low high : Nat}
    (periodic : PeriodicOn values period low high) {first second : Nat} (first_ge : low ≤ first)
    (first_lt : first < high) (second_ge : low ≤ second) (second_lt : second < high)
    (same : first % period = second % period) : values first = values second := by
  wlog le : first ≤ second generalizing first second
  · exact (this second_ge second_lt first_ge first_lt same.symm (Nat.le_of_not_le le)).symm
  obtain ⟨periods, apart⟩ := (Nat.modEq_iff_dvd' le).mp same
  have secondEq : second = first + period * periods := by omega
  rw [secondEq]
  exact (periodic.add_mul first_ge periods (by omega)).symm

variable {F W : Type}

namespace Plc

/-- The frozen sample that the next substitution continues with. -/
def readIndex (plc : Plc F) : Nat :=
  plc.historyLength - plc.cycle + plc.phase

/-- `count` samples after the beginning of a loss with this pitch. -/
structure Phased (length pitch count : Nat) (plc : Plc F) : Prop where
  length_eq : plc.historyLength = length
  pitch_eq : plc.pitch = pitch
  periods : pitch ∣ plc.cycle
  phase_eq : plc.phase % pitch = count % pitch

theorem foldPhase_mod (pitch fuel phase : Nat) :
    foldPhase pitch fuel phase % pitch = phase % pitch := by
  induction fuel generalizing phase with
  | zero => rfl
  | succ fuel ih =>
      unfold foldPhase
      split
      · rename_i longer
        rw [ih, ← Nat.mod_eq_sub_mod (Nat.le_of_lt longer)]
      · rfl

section Steps

variable {plc : Plc F} {length pitch count : Nat}

/-- The index that is read has the phase of the sample that it substitutes. -/
theorem Phased.readIndex_mod (phased : plc.Phased length pitch count)
    (cycle_le : plc.cycle ≤ length) :
    plc.readIndex % pitch = (length + count) % pitch := by
  obtain ⟨periods, cycleEq⟩ := phased.periods
  have multiple : (plc.readIndex + pitch * periods) % pitch = (length + plc.phase) % pitch := by
    rw [readIndex, phased.length_eq, ← cycleEq]
    congr 1
    omega
  rw [Nat.add_mul_mod_self_left] at multiple
  rw [multiple, Nat.add_mod, phased.phase_eq, ← Nat.add_mod]

variable [Binary32 F]

/-- Each substitution moves the phase on by one, around the cycle. -/
theorem Phased.substitution (phased : plc.Phased length pitch count) :
    plc.substitution.2.Phased length pitch (count + 1) := by
  have phase : (plc.phase + 1) % plc.cycle % pitch = (count + 1) % pitch := by
    rw [Nat.mod_mod_of_dvd _ phased.periods, Nat.add_mod, phased.phase_eq, ← Nat.add_mod]
  unfold Plc.substitution
  dsimp only
  split <;> exact ⟨phased.length_eq, phased.pitch_eq, phased.periods, phase⟩

theorem Phased.grown (phased : plc.Phased length pitch count) :
    plc.grown.Phased length pitch count := by
  unfold Plc.grown
  split
  · rw [expandCycle_parts]
    refine ⟨phased.length_eq, phased.pitch_eq, ?_, ?_⟩
    · exact (Nat.dvd_add_right phased.periods).mpr (dvd_of_eq phased.pitch_eq.symm)
    · rw [← phased.phase_eq, ← phased.pitch_eq]
      exact foldPhase_mod _ _ _
  · exact phased

/-- A loss begins at the beginning of a period. -/
theorem phased_begun (bounded : plc.Bounded) (silent : plc.lost = 0)
    (high : pitch ≤ plc.maxPitch) : (plc.begun pitch).Phased plc.historyLength pitch 0 := by
  obtain ⟨-, history, frozen, lastQuarter, begunEq⟩ :=
    @beginLoss_eq F _ { plc with recoveryLeft := 0 } (bounded.sized.of_sizes rfl)
      (fun _ => some pitch) pitch rfl high
  rw [begun, if_pos silent, begunEq]
  exact ⟨rfl, rfl, dvd_rfl, rfl⟩

end Steps

/-- What a substitution reads. -/
structure Voice (F : Type) where
  historyLength : Nat
  frozen : Nat → F
  lastQuarter : Nat → F
  overlap : Nat → F
  pitch : Nat
  cycle : Nat
  phase : Nat
  overlapLeft : Nat

def voice (plc : Plc F) : Voice F :=
  ⟨plc.historyLength, plc.frozen, plc.lastQuarter, plc.overlap, plc.pitch, plc.cycle, plc.phase,
    plc.overlapLeft⟩

section Runs

variable [Binary32 F]

theorem endLoss_voice (plc : Plc F) : plc.endLoss.voice = plc.voice := by
  unfold endLoss
  split <;> rfl

theorem begun_voice {plc : Plc F} (lost : plc.lost ≠ 0) (found : Nat) :
    (plc.begun found).voice = plc.voice := by
  rw [begun, if_neg lost]
  rfl

/-- What holds of the oscillator `count` substitutions after the beginning of a
loss, and is kept until the next one begins. -/
structure Oscillates (inv : Nat → Plc F → Prop) : Prop where
  frame : ∀ {plc other : Plc F} {count}, other.voice = plc.voice → inv count plc → inv count other
  grown : ∀ {entry plc : Plc F} {count}, entry.Losing 0 plc → inv count plc → inv count plc.grown
  substitution : ∀ {plc : Plc F} {count}, plc.Voiced → inv count plc →
    inv (count + 1) plc.substitution.2

variable (W) [Binary64 W] [Widening F W]

/-- The workspaces that inputs read their substitutions from. -/
def voices : Plc F → List (Option F) → List (Plc F)
  | _, [] => []
  | plc, none :: inputs =>
      plc.sounded (plc.freeze.detectPitch W) :: voices (plc.process W none).2 inputs
  | plc, some sample :: inputs =>
      (if plc.endLoss.recoveryLeft = 0 then [] else [plc.endLoss]) ++
        voices (plc.process W (some sample)).2 inputs

variable {W} {inv : Nat → Plc F → Prop} {plc : Plc F} {count : Nat}

theorem process_bounded (W : Type) [Binary64 W] [Widening F W] (bounded : plc.Bounded)
    (input : Option F) : (plc.process W input).2.Bounded := by
  rw [process_eq]
  exact (process_checked bounded (fun _ => some (plc.freeze.detectPitch W)) rfl
    (bounded.found W) input).2.1

theorem process_lost (W : Type) [Binary64 W] [Widening F W] (bounded : plc.Bounded) :
    (plc.process W none).2.lost ≠ 0 := by
  rw [process_eq]
  have counted := (concealAt_counts bounded (bounded.found W)).1
  change (plc.concealAt (plc.freeze.detectPitch W)).2.lost ≠ 0
  omega

theorem Oscillates.lose (oscillates : Oscillates inv) (bounded : plc.Bounded)
    (begun : inv count (plc.begun (plc.freeze.detectPitch W))) :
    inv count (plc.sounded (plc.freeze.detectPitch W)) ∧
      (plc.sounded (plc.freeze.detectPitch W)).Voiced ∧
      inv (count + 1) (plc.process W none).2 := by
  obtain ⟨losing, sounded⟩ := sounded_losing bounded (bounded.found W)
  have kept := oscillates.grown losing begun
  have played : (plc.process W none).2.voice =
      (plc.sounded (plc.freeze.detectPitch W)).substitution.2.voice := by
    rw [process_eq]
    rfl
  exact ⟨kept, sounded.voiced,
    oscillates.frame played (oscillates.substitution sounded.voiced kept)⟩

/-- A received sample is a substitution while a loss is faded out. -/
theorem Oscillates.receive (oscillates : Oscillates inv) (bounded : plc.Bounded)
    (kept : inv count plc) (sample : F) :
    (plc.endLoss.recoveryLeft = 0 → inv count (plc.process W (some sample)).2) ∧
      (plc.endLoss.recoveryLeft ≠ 0 → inv count plc.endLoss ∧ plc.endLoss.Voiced ∧
        inv (count + 1) (plc.process W (some sample)).2) := by
  have ended := oscillates.frame (endLoss_voice plc) kept
  have played (after : Plc F) (same : (plc.endLoss.crossfade sample).2.voice = after.voice) :
      (plc.process W (some sample)).2.voice = after.voice := same
  constructor
  · intro recovered
    refine oscillates.frame (played plc.endLoss ?_) ended
    rw [crossfade, if_pos recovered]
  · intro fading
    obtain ⟨low, high, buffers⟩ := bounded.endLoss.sounding (.inr fading)
    have voiced : plc.endLoss.Voiced := ⟨bounded.endLoss.sized, bounded.endLoss.next_lt,
      bounded.endLoss.delayed_lt, low, high, buffers⟩
    refine ⟨ended, voiced, oscillates.frame (played plc.endLoss.substitution.2 ?_)
      (oscillates.substitution voiced ended)⟩
    rw [crossfade, if_neg fading]
    rfl

theorem Oscillates.recovery (oscillates : Oscillates inv) (bounded : plc.Bounded)
    (kept : inv count plc) (reals : List F) {number : Nat} {voice : Plc F}
    (now : (voices W plc (reals.map some))[number]? = some voice) :
    inv (count + number) voice ∧ voice.Voiced := by
  induction reals generalizing plc count number with
  | nil => simp [voices] at now
  | cons sample reals ih =>
      obtain ⟨silent, fades⟩ := oscillates.receive bounded kept sample (W := W)
      have later := process_bounded W bounded (some sample)
      rw [List.map_cons, voices] at now
      by_cases recovered : plc.endLoss.recoveryLeft = 0
      · rw [if_pos recovered, List.nil_append] at now
        exact ih later (silent recovered) now
      · obtain ⟨here, voiced, next⟩ := fades recovered
        rw [if_neg recovered] at now
        cases number with
        | zero =>
            obtain rfl := Option.some_inj.mp now
            exact ⟨here, voiced⟩
        | succ number =>
            rw [← Nat.succ_add_eq_add_succ]
            exact ih later next now

theorem Oscillates.voices (oscillates : Oscillates inv) (bounded : plc.Bounded)
    (lost : plc.lost ≠ 0) (kept : inv count plc) (losses : Nat) (reals : List F) {number : Nat}
    {voice : Plc F}
    (now : (Plc.voices W plc (List.replicate losses none ++ reals.map some))[number]? =
      some voice) :
    inv (count + number) voice ∧ voice.Voiced := by
  induction losses generalizing plc count number with
  | zero => exact oscillates.recovery bounded kept reals now
  | succ losses ih =>
      obtain ⟨here, voiced, next⟩ :=
        oscillates.lose bounded (oscillates.frame (begun_voice lost _) kept) (W := W)
      rw [List.replicate_succ, List.cons_append, Plc.voices] at now
      cases number with
      | zero =>
          obtain rfl := Option.some_inj.mp now
          exact ⟨here, voiced⟩
      | succ number =>
          rw [← Nat.succ_add_eq_add_succ]
          exact ih (process_bounded W bounded none) (process_lost W bounded) next now

end Runs

/-- `count` samples after the end of a waveform of this period. -/
def continued (original : Nat → ℚ) (length pitch count : Nat) : ℚ :=
  original (length - pitch + count % pitch)

/-- The oscillator goes on with a waveform. -/
structure Continues (original : Nat → ℚ) (length pitch count : Nat) (plc : Plc ℚ) : Prop
    extends plc.Phased length pitch count where
  frozen_eq : ∀ index, length - (pitch * 3 + pitch / 4) ≤ index → index < length →
    plc.frozen index = original index
  lastQuarter_eq : ∀ index < pitch / 4,
    plc.lastQuarter index = original (length - pitch / 4 + index)
  overlap_eq : ∀ index < plc.overlapLeft, plc.overlap (pitch / 4 - plc.overlapLeft + index) =
    continued original length pitch (count + index)

theorem blend_self (value : ℚ) (index count : Nat) : blend value value index count = value := by
  change value * (1 - _) + value * _ = value
  ring

section Periodic

variable {original : Nat → ℚ} {length pitch count : Nat} {plc : Plc ℚ}

/-- Whatever is read at the phase of a sample continues the waveform. -/
theorem continued_eq (positive : 0 < pitch) (fits : pitch * 3 + pitch / 4 ≤ length)
    (periodic : PeriodicOn original pitch (length - (pitch * 3 + pitch / 4)) length) {index : Nat}
    (low : length - (pitch * 3 + pitch / 4) ≤ index) (high : index < length)
    (same : index % pitch = (length + count) % pitch) :
    original index = continued original length pitch count := by
  have phase := Nat.mod_lt count positive
  refine periodic.eq_of_mod_eq low high (by omega) (by omega) (same.trans ?_)
  calc (length + count) % pitch = (length + count % pitch) % pitch := (Nat.add_mod_mod _ _ _).symm
    _ = (length - pitch + count % pitch + pitch) % pitch := by
      congr 1
      omega
    _ = (length - pitch + count % pitch) % pitch := Nat.add_mod_right _ _

/-- Joining the tail of a periodic waveform changes nothing. -/
theorem smoothCycleTail_frozen (fits : pitch * 3 + pitch / 4 ≤ length)
    (periodic : PeriodicOn original pitch (length - (pitch * 3 + pitch / 4)) length)
    (length_eq : plc.historyLength = length) (pitch_eq : plc.pitch = pitch)
    (periods : pitch ∣ plc.cycle) (cycle_le : plc.cycle ≤ pitch * 3)
    (frozen_eq : ∀ index, length - (pitch * 3 + pitch / 4) ≤ index → index < length →
      plc.frozen index = original index)
    (lastQuarter_eq : ∀ index < pitch / 4,
      plc.lastQuarter index = original (length - pitch / 4 + index)) {index : Nat}
    (low : length - (pitch * 3 + pitch / 4) ≤ index) (high : index < length) :
    plc.smoothCycleTail.frozen index = original index := by
  suffices kept : ∃ frozen, plc.smoothCycleTail = { plc with frozen := frozen } ∧
      ∀ index, length - (pitch * 3 + pitch / 4) ≤ index → index < length →
        frozen index = original index by
    obtain ⟨frozen, smoothed, same⟩ := kept
    rw [smoothed]
    exact same index low high
  refine forRange_keeps (fun _ (state : Plc ℚ) => ∃ frozen, state = { plc with frozen := frozen } ∧
    ∀ index, length - (pitch * 3 + pitch / 4) ≤ index → index < length →
      frozen index = original index) ?_ ⟨plc.frozen, rfl, frozen_eq⟩
  rintro turn _ inside ⟨frozen, rfl, same⟩
  refine ⟨_, rfl, fun index low high => ?_⟩
  dsimp only
  rw [length_eq, pitch_eq] at *
  rcases eq_or_ne index (length - pitch / 4 + turn) with rfl | different
  · obtain ⟨cycles, cycleEq⟩ := periods
    have earlier : original (length - plc.cycle - pitch / 4 + turn) =
        original (length - pitch / 4 + turn) := by
      refine periodic.eq_of_mod_eq (by omega) (by omega) low high ?_
      rw [← Nat.add_mul_mod_self_left _ _ cycles, ← cycleEq]
      congr 1
      omega
    rw [Function.update_self, lastQuarter_eq turn inside, same _ (by omega) (by omega), earlier,
      blend_self]
  · rw [Function.update_of_ne different]
    exact same index low high

theorem Continues.continuation (continues : plc.Continues original length pitch count)
    (positive : 0 < pitch) (fits : pitch * 3 + pitch / 4 ≤ length)
    (periodic : PeriodicOn original pitch (length - (pitch * 3 + pitch / 4)) length)
    (cycle_le : plc.cycle ≤ pitch * 3) (phase_lt : plc.phase < plc.cycle) :
    plc.frozen plc.readIndex = continued original length pitch count := by
  have phase := continues.readIndex_mod (by omega)
  have index : plc.readIndex = length - plc.cycle + plc.phase := by
    rw [readIndex, continues.length_eq]
  rw [continues.frozen_eq _ (by omega) (by omega)]
  exact continued_eq positive fits periodic (by omega) (by omega) phase

theorem Continues.keepOverlap (continues : plc.Continues original length pitch count)
    (positive : 0 < pitch) (fits : pitch * 3 + pitch / 4 ≤ length)
    (periodic : PeriodicOn original pitch (length - (pitch * 3 + pitch / 4)) length)
    (cycle_le : plc.cycle ≤ pitch * 3) (phase_lt : plc.phase < plc.cycle) {quarter index : Nat}
    (inside : index < quarter) :
    (plc.keepOverlap quarter).overlap index = continued original length pitch (count + index) := by
  suffices kept : ∃ overlap phase, plc.keepOverlap quarter =
      { plc with overlap := overlap, phase := phase } ∧
      phase < plc.cycle ∧ phase % pitch = (count + quarter) % pitch ∧
      ∀ index < quarter, overlap index = continued original length pitch (count + index) by
    obtain ⟨overlap, phase, keptEq, -, -, same⟩ := kept
    rw [keptEq]
    exact same index inside
  unfold Plc.keepOverlap
  refine forRange_keeps (fun kept (state : Plc ℚ) => ∃ overlap phase,
    state = { plc with overlap := overlap, phase := phase } ∧
      phase < plc.cycle ∧ phase % pitch = (count + kept) % pitch ∧
      ∀ index < kept, overlap index = continued original length pitch (count + index)) ?_
    ⟨plc.overlap, plc.phase, rfl, phase_lt, continues.phase_eq, fun _ none =>
      (Nat.not_lt_zero _ none).elim⟩
  rintro turn _ - ⟨overlap, phase, rfl, phase_lt, phase_eq, same⟩
  refine ⟨_, _, rfl, Nat.mod_lt _ (Nat.zero_lt_of_lt phase_lt), ?_, fun index inside => ?_⟩
  · change (phase + 1) % plc.cycle % pitch = _
    rw [Nat.mod_mod_of_dvd _ continues.periods, Nat.add_mod, phase_eq, ← Nat.add_mod]
    rfl
  · rcases Nat.lt_succ_iff_lt_or_eq.mp inside with before | rfl
    · rw [Function.update_of_ne (Nat.ne_of_lt before)]
      exact same index before
    · rw [Function.update_self]
      have here : ({ plc with overlap := overlap, phase := phase, overlapLeft := 0 } :
          Plc ℚ).Continues original length pitch (count + index) :=
        { length_eq := continues.length_eq
          pitch_eq := continues.pitch_eq
          periods := continues.periods
          phase_eq := phase_eq
          frozen_eq := continues.frozen_eq
          lastQuarter_eq := continues.lastQuarter_eq
          overlap_eq := fun _ none => (Nat.not_lt_zero _ none).elim }
      exact here.continuation positive fits periodic cycle_le phase_lt

/-- A substitution continues the waveform, within an overlap too. -/
theorem Continues.substitution (continues : plc.Continues original length pitch count)
    (positive : 0 < pitch) (fits : pitch * 3 + pitch / 4 ≤ length)
    (periodic : PeriodicOn original pitch (length - (pitch * 3 + pitch / 4)) length)
    (buffers : plc.InBuffers) :
    plc.substitution.1 = continued original length pitch count ∧
      plc.substitution.2.Continues original length pitch (count + 1) := by
  have periods := buffers.periods
  have overlap_le := buffers.overlap_le
  have next := continues.toPhased.substitution
  rw [continues.pitch_eq] at periods overlap_le
  have read := continues.continuation positive fits periodic (by omega) buffers.phase_lt
  unfold Plc.substitution Plc.continuation at next ⊢
  dsimp only at next ⊢
  split
  · rename_i overlapping
    rw [if_pos overlapping] at next
    refine ⟨?_, { toPhased := next, frozen_eq := continues.frozen_eq,
                  lastQuarter_eq := continues.lastQuarter_eq, overlap_eq := ?_ }⟩
    · have kept := continues.overlap_eq 0 (Nat.pos_of_ne_zero overlapping)
      rw [Nat.add_zero, Nat.add_zero] at kept
      change blend _ (plc.frozen plc.readIndex) _ _ = _
      rw [continues.pitch_eq, kept, read, blend_self]
    · intro index inside
      dsimp only at inside ⊢
      have kept := continues.overlap_eq (index + 1) (by omega)
      rw [show count + 1 + index = count + (index + 1) by omega, ← kept]
      congr 1
      omega
  · rename_i settled
    rw [if_neg settled] at next
    exact ⟨read, { toPhased := next, frozen_eq := continues.frozen_eq
                   lastQuarter_eq := continues.lastQuarter_eq
                   overlap_eq := fun index inside => absurd inside (by dsimp only; omega) }⟩

theorem Continues.grown {entry : Plc ℚ} (continues : plc.Continues original length pitch count)
    (positive : 0 < pitch) (fits : pitch * 3 + pitch / 4 ≤ length)
    (periodic : PeriodicOn original pitch (length - (pitch * 3 + pitch / 4)) length)
    (losing : entry.Losing 0 plc) : plc.grown.Continues original length pitch count := by
  have next := continues.toPhased.grown
  have tenMs := tenMs_eq_of_sizes losing.sizes_eq
  have periods := losing.voiced.buffers.periods
  unfold Plc.grown at next ⊢
  split
  · rename_i boundary
    have short := losing.second (by rw [← losing.lost_eq]; omega)
    rw [if_pos boundary, expandCycle_parts] at next
    rw [expandCycle_parts]
    rw [continues.pitch_eq] at short periods
    refine { toPhased := next, frozen_eq := fun index low high => ?_,
             lastQuarter_eq := continues.lastQuarter_eq, overlap_eq := fun index inside => ?_ }
    · have cycle_le : plc.longer.cycle ≤ pitch * 3 := by
        change plc.cycle + plc.pitch ≤ _
        rw [continues.pitch_eq]
        omega
      exact @smoothCycleTail_frozen original length pitch plc.longer fits periodic
        continues.length_eq continues.pitch_eq next.periods cycle_le continues.frozen_eq
        continues.lastQuarter_eq index low high
    · dsimp only at inside ⊢
      rw [continues.pitch_eq] at inside ⊢
      rw [Nat.sub_self, Nat.zero_add]
      change (plc.keepOverlap (plc.pitch / 4)).overlap index = _
      rw [continues.pitch_eq]
      exact continues.keepOverlap positive fits periodic (by omega)
        losing.voiced.buffers.phase_lt inside
  · exact continues

theorem continues_begun (bounded : plc.Bounded) (silent : plc.lost = 0)
    (high : pitch ≤ plc.maxPitch)
    (periodic : PeriodicOn plc.freeze.frozen pitch
      (plc.historyLength - (pitch * 3 + pitch / 4)) plc.historyLength) :
    (plc.begun pitch).Continues plc.freeze.frozen plc.historyLength pitch 0 := by
  have phased := phased_begun bounded silent high
  have history := bounded.sized.history_eq
  have quarter := bounded.sized.quarter_le
  let adopted : Plc ℚ := { plc with recoveryLeft := 0 }.freeze.adoptPitch pitch
  obtain ⟨joined, rewritten⟩ : ∃ history, (plc.begun pitch) =
      { adopted.smoothCycleTail with history := history } := by
    rw [begun, if_pos silent, beginLossAt]
    refine forRange_keeps (fun _ (state : Plc ℚ) => ∃ history, state =
      { adopted.smoothCycleTail with history := history }) ?_
      ⟨adopted.smoothCycleTail.history, rfl⟩
    rintro index _ - ⟨history, rfl⟩
    exact ⟨_, rfl⟩
  have lastQuarter_eq (index : Nat) (inside : index < pitch / 4) :
      adopted.lastQuarter index =
        plc.freeze.frozen (plc.historyLength - pitch / 4 + index) := if_pos inside
  obtain ⟨frozen, smoothed⟩ := smoothCycleTail_frame adopted
  refine { toPhased := phased, frozen_eq := fun index low high => ?_,
           lastQuarter_eq := fun index inside => ?_, overlap_eq := fun index none => ?_ }
  · rw [rewritten]
    exact @smoothCycleTail_frozen plc.freeze.frozen plc.historyLength pitch adopted (by omega)
      periodic rfl rfl dvd_rfl (Nat.le_mul_of_pos_right pitch (by decide)) (fun _ _ _ => rfl)
      lastQuarter_eq index low high
  · rw [rewritten, smoothed]
    exact lastQuarter_eq index inside
  · rw [rewritten, smoothed] at none
    exact (Nat.not_lt_zero _ none).elim

theorem continues_oscillates (positive : 0 < pitch) (fits : pitch * 3 + pitch / 4 ≤ length)
    (periodic : PeriodicOn original pitch (length - (pitch * 3 + pitch / 4)) length) :
    Oscillates (Continues original length pitch) where
  frame := by
    intro plc other count same continues
    simp only [voice, Voice.mk.injEq] at same
    obtain ⟨lengthEq, frozen, lastQuarter, overlap, pitchEq, cycle, phase, overlapLeft⟩ := same
    constructor
    · constructor
      · rw [lengthEq, continues.length_eq]
      · rw [pitchEq, continues.pitch_eq]
      · rw [cycle]
        exact continues.periods
      · rw [phase, continues.phase_eq]
    · rw [frozen]
      exact continues.frozen_eq
    · rw [lastQuarter]
      exact continues.lastQuarter_eq
    · rw [overlap, overlapLeft]
      exact continues.overlap_eq
  grown losing continues := continues.grown positive fits periodic losing
  substitution voiced continues :=
    (continues.substitution positive fits periodic voiced.buffers).2

end Periodic

theorem phased_oscillates [Binary32 F] (length pitch : Nat) :
    Oscillates (Phased length pitch : Nat → Plc F → Prop) where
  frame := by
    intro plc other count same phased
    simp only [voice, Voice.mk.injEq] at same
    obtain ⟨lengthEq, -, -, -, pitchEq, cycle, phase, -⟩ := same
    exact ⟨lengthEq.trans phased.length_eq, pitchEq.trans phased.pitch_eq,
      cycle ▸ phased.periods, phase ▸ phased.phase_eq⟩
  grown _ phased := phased.grown
  substitution _ phased := phased.substitution

section Losses

variable [Binary32 F] [Binary64 W] [Widening F W] {plc : Plc F} {inv : Nat → Plc F → Prop}

/-- What holds when a loss begins holds of every substitution until the next one. -/
theorem Oscillates.loss (oscillates : Oscillates inv) (bounded : plc.Bounded)
    (begun : inv 0 (plc.begun (plc.freeze.detectPitch W))) (losses : Nat) (reals : List F)
    {number : Nat} {voice : Plc F}
    (now : (Plc.voices W plc (List.replicate (losses + 1) none ++ reals.map some))[number]? =
      some voice) : inv number voice ∧ voice.Voiced := by
  obtain ⟨here, voiced, next⟩ := oscillates.lose bounded begun
  rw [List.replicate_succ, List.cons_append, Plc.voices] at now
  cases number with
  | zero =>
      obtain rfl := Option.some_inj.mp now
      exact ⟨here, voiced⟩
  | succ number =>
      have lost := process_lost W bounded
      rw [Nat.add_comm number 1]
      exact oscillates.voices (process_bounded W bounded none) lost next losses reals now

/-- A workspace of a rate with any history, outside a loss. -/
structure Onset (rate : Nat) (plc : Plc F) : Prop where
  scaled : plc.scale = (Plc.new rate : Plc F).scale
  next_lt : plc.next < plc.historyLength
  delayed_lt : plc.delayed < plc.lookahead
  silent : plc.lost = 0

omit [Binary64 W] [Widening F W] in
theorem Onset.bounded {rate : Nat} (onset : plc.Onset rate) (positive : 0 < rate)
    (word : rate < 2 ^ 32) : ({ plc with recoveryLeft := 0 } : Plc F).Bounded where
  sized := (Plc.sized_new positive word).of_sizes (sizes_of_scale onset.scaled)
  next_lt := onset.next_lt
  delayed_lt := onset.delayed_lt
  recovery_le := Nat.zero_le _
  sounding sounds := sounds.elim (fun lost => (lost onset.silent).elim) fun left => (left rfl).elim
  first lost := (lost onset.silent).elim
  second lost := (lost onset.silent).elim

theorem voices_onset (plc : Plc F) (losses : Nat) (inputs : List (Option F)) :
    Plc.voices W { plc with recoveryLeft := 0 } (List.replicate (losses + 1) none ++ inputs) =
      Plc.voices W plc (List.replicate (losses + 1) none ++ inputs) :=
  rfl

end Losses

end Plc

open Plc

/-- The substitutions after the beginning of a loss, one for each lost sample and
for each received sample that fades the loss out.  Each reads the frozen history
at the phase of its number, and the cycle stays a multiple of the pitch.  In
exact arithmetic a periodic history is continued by all of them. -/
theorem phase_preserved (W : Type) [Binary64 W] {rate : Nat} (positive : 0 < rate)
    (word : rate < 2 ^ 32) (losses : Nat) :
    (∀ (F : Type) [Binary32 F] [Widening F W] (plc : Plc F), plc.Onset rate →
      ∀ (reals : List F) (number : Nat) (voice : Plc F),
        (voices W plc (List.replicate (losses + 1) none ++ reals.map some))[number]? =
          some voice →
        voice.readIndex < plc.historyLength ∧
          voice.readIndex % plc.freeze.detectPitch W =
            (plc.historyLength + number) % plc.freeze.detectPitch W ∧
          plc.freeze.detectPitch W ∣ voice.cycle) ∧
      ∀ [Widening ℚ W] (plc : Plc ℚ), plc.Onset rate →
        PeriodicOn plc.freeze.frozen (plc.freeze.detectPitch W)
          (plc.historyLength - (plc.freeze.detectPitch W * 3 + plc.freeze.detectPitch W / 4))
          plc.historyLength →
        ∀ (reals : List ℚ) (number : Nat) (voice : Plc ℚ),
          (voices W plc (List.replicate (losses + 1) none ++ reals.map some))[number]? =
            some voice →
          voice.substitution.1 =
            continued plc.freeze.frozen plc.historyLength (plc.freeze.detectPitch W) number := by
  constructor
  · intro F _ _ plc onset reals number voice now
    have bounded := onset.bounded positive word
    have begun := phased_begun bounded onset.silent (bounded.found W).2
    rw [← voices_onset] at now
    obtain ⟨here, voiced⟩ :=
      (phased_oscillates plc.historyLength _).loss bounded begun losses reals now
    have fits := voiced.buffers.cycle_le
    have phase := voiced.buffers.phase_lt
    rw [here.length_eq] at fits
    refine ⟨?_, here.readIndex_mod (by omega), here.periods⟩
    rw [readIndex, here.length_eq]
    omega
  · intro _ plc onset periodic reals number voice now
    have bounded := onset.bounded positive word
    obtain ⟨low, high⟩ : plc.minPitch ≤ plc.freeze.detectPitch W ∧
      plc.freeze.detectPitch W ≤ plc.maxPitch := bounded.found W
    have minPitch_pos : 0 < plc.minPitch := bounded.sized.minPitch_pos
    have history : plc.historyLength = plc.maxPitch * 3 + plc.lookahead := bounded.sized.history_eq
    have quarter : plc.maxPitch / 4 ≤ plc.lookahead := bounded.sized.quarter_le
    have pitch_pos : 0 < plc.freeze.detectPitch W := by omega
    have fits : plc.freeze.detectPitch W * 3 + plc.freeze.detectPitch W / 4 ≤
        plc.historyLength := by omega
    have begun := continues_begun bounded onset.silent high periodic
    rw [← voices_onset] at now
    obtain ⟨here, voiced⟩ :=
      (continues_oscillates pitch_pos fits periodic).loss bounded begun losses reals now
    exact (here.substitution pitch_pos fits periodic voiced.buffers).1

/-- At 800 samples a second a history of two pulses in every eight samples. -/
def pulses : Plc ℚ :=
  { Plc.new 800 with
    history := fun index => if index % 8 = 7 then 1 else if index % 8 = 0 then 2 else 0 }

theorem pulses_periodic : PeriodicOn pulses.freeze.frozen 8 13 39 := by
  intro index low high
  have unrolled (index : Nat) (inside : index < 39) : pulses.freeze.frozen index =
      if index % 8 = 7 then 1 else if index % 8 = 0 then 2 else 0 := by
    change pulses.history ((0 + index) % 39) = _
    rw [Nat.zero_add, Nat.mod_eq_of_lt inside]
    rfl
  rw [unrolled _ high, unrolled _ (by omega), Nat.add_mod_right]

theorem pulses_pitch : pulses.freeze.detectPitch ℚ = 8 := by
  decide +kernel

/-- Audio returns after nine lost samples, in the overlap of the first expansion:
the fade goes on with the second pulse. -/
theorem phase_preserved_within_recovery :
    ∃ voice, (voices ℚ pulses (List.replicate 9 none ++ [1, 1, 1].map some))[9]? = some voice ∧
      voice.cycle = 16 ∧ voice.overlapLeft = 1 ∧ voice.recoveryLeft = 6 ∧
      voice.readIndex < 39 ∧ voice.readIndex % 8 = (39 + 9) % 8 ∧ 8 ∣ voice.cycle ∧
      voice.substitution.1 = 2 := by
  have played : (voices ℚ pulses (List.replicate 9 none ++ [1, 1, 1].map some))[9]?.any
      (fun voice => decide (voice.cycle = 16 ∧ voice.overlapLeft = 1 ∧ voice.recoveryLeft = 6)) =
        true := by decide +kernel
  simp only [Option.any_eq_true, decide_eq_true_eq] at played
  obtain ⟨voice, now, cycle, overlapping, recovering⟩ := played
  have onset : pulses.Onset 800 := ⟨rfl, by decide, by decide, rfl⟩
  obtain ⟨inside, phase, periods⟩ :=
    (phase_preserved ℚ (by decide) (by decide) 8).1 ℚ pulses onset [1, 1, 1] 9 voice now
  have waveform := (phase_preserved ℚ (by decide) (by decide) 8).2 pulses onset
    (by rw [pulses_pitch]; exact pulses_periodic) [1, 1, 1] 9 voice now
  rw [pulses_pitch] at phase periods waveform
  exact ⟨voice, now, cycle, overlapping, recovering, inside, phase, periods,
    waveform.trans (by decide +kernel)⟩

end PcmRing
