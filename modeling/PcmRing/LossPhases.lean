import PcmRing.ConcealmentBounds
import PcmRing.StaleConcealment

/-!
# Losses and the returns from them

What concealment does next depends on the calls since the last loss began: how
many samples it lost, and how many were received after it.  The counters of the
workspace follow this history of the calls.
-/

namespace PcmRing

variable {F W : Type}

/-- Where the calls stand: no loss since the reset, within a loss, or after one. -/
inductive LossPhase where
  | quiet
  /-- `lost` samples are missing so far. -/
  | losing (pitch lost : Nat)
  /-- `received` samples came after a loss of `lost`. -/
  | returned (pitch lost received : Nat)
  deriving DecidableEq, Repr

namespace LossPhase

/-- The phase after one more call. -/
def next (phase : LossPhase) : PlcCall F → LossPhase
  | .process none found =>
      match phase with
      | .quiet | .returned .. => .losing found 1
      | .losing pitch lost => .losing pitch (lost + 1)
  | .process (some _) _ =>
      match phase with
      | .quiet => .quiet
      | .losing pitch lost => .returned pitch lost 1
      | .returned pitch lost received => .returned pitch lost (received + 1)
  | .drain => phase
  | .reset => .quiet

/-- The phase that a list of calls leads to from a new workspace. -/
def after (calls : List (PlcCall F)) : LossPhase :=
  calls.foldl next .quiet

/-- The samples of the loss so far. -/
def losses : LossPhase → Nat
  | .losing _ lost => lost
  | .quiet | .returned .. => 0

/-- The samples received since the last loss. -/
def reals : LossPhase → Nat
  | .returned _ _ received => received
  | .quiet | .losing .. => 0

/-- The length of the last loss, whether it is over or not. -/
def lastLoss : LossPhase → Nat
  | .quiet => 0
  | .losing _ lost | .returned _ lost _ => lost

end LossPhase

/-- How many received samples fade out a loss. -/
def recoverySpan (tenMs fourMs pitch lost : Nat) : Nat :=
  min (pitch / 4 + (ceilDiv lost tenMs - 1) * fourMs) tenMs

/-- The samples that fade out the last loss of a phase at this rate. -/
def LossPhase.span (rate : Nat) : LossPhase → Nat
  | .quiet => 0
  | .losing pitch lost | .returned pitch lost _ =>
      recoverySpan (ceilDiv (rate * 10) 1000) (ceilDiv (rate * 4) 1000) pitch lost

/-- A loss that saturates the counter is faded out as slowly as a longer one. -/
theorem recoverySpan_min {tenMs fourMs limit : Nat} (positive : 0 < tenMs)
    (fourMs_pos : 0 < fourMs) (long : (tenMs + 1) * tenMs ≤ limit) (pitch lost : Nat) :
    recoverySpan tenMs fourMs pitch (min lost limit) = recoverySpan tenMs fourMs pitch lost := by
  rcases Nat.le_total lost limit with within | beyond
  · rw [Nat.min_eq_left within]
  · have whole (count : Nat) (enough : (tenMs + 1) * tenMs ≤ count) :
        recoverySpan tenMs fourMs pitch count = tenMs := by
      have frames : tenMs + 1 ≤ ceilDiv count tenMs :=
        (Nat.le_div_iff_mul_le positive).mpr (by omega)
      have fading : tenMs * 1 ≤ (ceilDiv count tenMs - 1) * fourMs :=
        Nat.mul_le_mul (by omega) fourMs_pos
      exact Nat.min_eq_right (by omega)
    rw [Nat.min_eq_right beyond, whole limit long, whole lost (Nat.le_trans long beyond)]

/-- The sizes of a rate leave a saturated counter to long losses. -/
theorem recoverySpan_saturated {rate : Nat} (positive : 0 < rate) (word : rate < 2 ^ 32)
    (pitch lost : Nat) :
    recoverySpan (ceilDiv (rate * 10) 1000) (ceilDiv (rate * 4) 1000) pitch
        (min lost (2 ^ 64 - 1)) =
      recoverySpan (ceilDiv (rate * 10) 1000) (ceilDiv (rate * 4) 1000) pitch lost := by
  have tenMs_pos : 0 < ceilDiv (rate * 10) 1000 := by
    unfold ceilDiv
    omega
  have tenMs_le : ceilDiv (rate * 10) 1000 ≤ 2 ^ 26 - 1 := by
    unfold ceilDiv
    omega
  have fourMs_pos : 0 < ceilDiv (rate * 4) 1000 := by
    unfold ceilDiv
    omega
  have long := Nat.mul_le_mul (Nat.succ_le_succ tenMs_le) tenMs_le
  exact recoverySpan_min tenMs_pos fourMs_pos (Nat.le_trans long (by norm_num)) pitch lost

namespace Plc

variable [Binary32 F] {plc : Plc F}

/-- A loss begins with its first sample. -/
def begun (pitch : Nat) (plc : Plc F) : Plc F :=
  if plc.lost = 0 then beginLossAt pitch { plc with recoveryLeft := 0 }
  else { plc with recoveryLeft := 0 }

/-- The cycle grows after 10 and 20 ms. -/
def grown (plc : Plc F) : Plc F :=
  if plc.lost = plc.tenMs ∨ plc.lost = plc.tenMs * 2 then plc.expandCycle else plc

/-- The state that the next lost sample is read from. -/
def sounded (pitch : Nat) (plc : Plc F) : Plc F :=
  (plc.begun pitch).grown

theorem concealAt_eq (plc : Plc F) (pitch : Nat) : plc.concealAt pitch =
    ((plc.sounded pitch).substitution.1 * (plc.sounded pitch).substitution.2.lossGain,
      { (plc.sounded pitch).substitution.2 with
        lost := min ((plc.sounded pitch).substitution.2.lost + 1) (2 ^ 64 - 1) }) :=
  rfl

theorem sounded_losing (bounded : plc.Bounded) {pitch : Nat}
    (range : plc.minPitch ≤ pitch ∧ pitch ≤ plc.maxPitch) :
    plc.Losing 0 (plc.begun pitch) ∧ plc.Losing 1 (plc.sounded pitch) := by
  have begun := (@begun_losing F _ plc bounded (fun _ => some pitch) pitch rfl range).2
  exact ⟨begun, (expanded_losing begun).2⟩

theorem begun_pitch (bounded : plc.Bounded) {pitch : Nat} (high : pitch ≤ plc.maxPitch) :
    (plc.begun pitch).pitch = if plc.lost = 0 then pitch else plc.pitch := by
  unfold begun
  split
  · obtain ⟨-, history, frozen, lastQuarter, begunEq⟩ :=
      @beginLoss_eq F _ { plc with recoveryLeft := 0 } (bounded.sized.of_sizes rfl)
        (fun _ => some pitch) pitch rfl high
    rw [begunEq]
  · rfl

theorem Losing.grown_pitch {entry : Plc F} (losing : entry.Losing 0 plc) :
    plc.grown.pitch = plc.pitch := by
  have tenMs := tenMs_eq_of_sizes losing.sizes_eq
  unfold grown
  split
  · rename_i boundary
    have short := losing.second (by rw [← losing.lost_eq]; omega)
    exact (expandCycle_voiced losing.voiced short).2.2.2.1
  · rfl

/-- A lost sample counts, and nothing else of the loss changes with it. -/
theorem concealAt_counts (bounded : plc.Bounded) {pitch : Nat}
    (range : plc.minPitch ≤ pitch ∧ pitch ≤ plc.maxPitch) :
    (plc.concealAt pitch).2.lost = min (plc.lost + 1) (2 ^ 64 - 1) ∧
      (plc.concealAt pitch).2.pitch = (if plc.lost = 0 then pitch else plc.pitch) ∧
      (plc.concealAt pitch).2.recoveryLeft = 0 := by
  obtain ⟨begun, sounded⟩ := sounded_losing bounded range
  obtain ⟨-, recoveryEq, lostEq, -, pitchEq, -⟩ := sounded.voiced.substitution rfl
  rw [concealAt_eq]
  refine ⟨?_, ?_, recoveryEq.trans sounded.recovery_eq⟩
  · dsimp only
    rw [lostEq, sounded.lost_eq]
  · exact pitchEq.trans (begun.grown_pitch.trans (begun_pitch bounded range.2))

omit [Binary32 F] in
theorem Bounded.found (W : Type) [Binary64 W] [Widening F W] (bounded : plc.Bounded) :
    plc.minPitch ≤ plc.freeze.detectPitch W ∧ plc.freeze.detectPitch W ≤ plc.maxPitch :=
  @detectPitch_mem F W _ _ plc.freeze (bounded.sized.of_sizes rfl)

/-- The gain of the sample that `lost` others of its loss precede. -/
def gainAfter (tenMs lost : Nat) : F :=
  Binary32.max (1 - Binary32.ofNat (lost - tenMs) / Binary32.ofNat (tenMs * 5)) 0

theorem lossGain_eq_gainAfter (plc : Plc F) : plc.lossGain = gainAfter plc.tenMs plc.lost :=
  rfl

/-- The counters of a workspace in a phase. -/
inductive Follows (rate : Nat) (plc : Plc F) : LossPhase → Prop where
  | quiet (silent : plc.lost = 0) (recovered : plc.recoveryLeft = 0) : Follows rate plc .quiet
  | losing {lost : Nat} (positive : 0 < lost) (counted : plc.lost = min lost (2 ^ 64 - 1))
      (recovered : plc.recoveryLeft = 0) : Follows rate plc (.losing plc.pitch lost)
  | returned {lost received : Nat} (positive : 0 < received) (silent : plc.lost = 0)
      (left : plc.recoveryLeft =
        (LossPhase.returned plc.pitch lost received).span rate - received)
      (fading : plc.recoveryLeft ≠ 0 →
        plc.recoveryLength = (LossPhase.returned plc.pitch lost received).span rate ∧
        plc.recoveryGain = gainAfter (ceilDiv (rate * 10) 1000) (min lost (2 ^ 64 - 1))) :
      Follows rate plc (.returned plc.pitch lost received)

theorem Follows.silent_iff {rate : Nat} {phase : LossPhase} (follows : plc.Follows rate phase) :
    plc.lost = 0 ↔ phase.losses = 0 := by
  cases follows with
  | quiet silent _ => exact iff_of_true silent rfl
  | losing positive counted _ =>
      simp only [LossPhase.losses]
      omega
  | returned _ silent _ _ => exact iff_of_true silent rfl

theorem Follows.delay {rate : Nat} {phase : LossPhase} (follows : plc.Follows rate phase)
    (sample real : F) : (plc.delay sample real).2.Follows rate phase := by
  cases follows with
  | quiet silent recovered => exact .quiet silent recovered
  | losing positive counted recovered =>
      exact @Follows.losing F _ rate (plc.delay sample real).2 _ positive counted recovered
  | returned positive silent left fading =>
      exact @Follows.returned F _ rate (plc.delay sample real).2 _ _ positive silent left fading

theorem Follows.concealAt {rate : Nat} {phase : LossPhase} (follows : plc.Follows rate phase)
    (bounded : plc.Bounded) {pitch : Nat} (range : plc.minPitch ≤ pitch ∧ pitch ≤ plc.maxPitch) :
    (plc.concealAt pitch).2.Follows rate
      (phase.next (.process none pitch : PlcCall F)) := by
  obtain ⟨lostEq, pitchEq, leftEq⟩ := concealAt_counts bounded range
  have first (silent : plc.lost = 0) :
      (plc.concealAt pitch).2.Follows rate (.losing pitch 1) := by
    rw [if_pos silent] at pitchEq
    have started := @Follows.losing F _ rate (plc.concealAt pitch).2 1 Nat.one_pos
      (by rw [lostEq, silent, Nat.zero_add]) leftEq
    rwa [pitchEq] at started
  cases follows with
  | quiet silent recovered => exact first silent
  | returned _ silent _ _ => exact first silent
  | @losing lost positive counted recovered =>
      have sounding : plc.lost ≠ 0 := by omega
      have longer : min (plc.lost + 1) (2 ^ 64 - 1) = min (lost + 1) (2 ^ 64 - 1) := by
        rw [counted]
        generalize 2 ^ 64 - 1 = limit
        omega
      have continued := @Follows.losing F _ rate (plc.concealAt pitch).2 (lost + 1)
        (Nat.succ_pos _) (lostEq.trans longer) leftEq
      rwa [pitchEq, if_neg sounding] at continued

theorem recover_counts (plc : Plc F) (sample : F) :
    (plc.recover sample).2.lost = 0 ∧ (plc.recover sample).2.pitch = plc.pitch ∧
      (plc.recover sample).2.recoveryLeft = plc.endLoss.recoveryLeft - 1 ∧
      (plc.recover sample).2.recoveryLength = plc.endLoss.recoveryLength ∧
      (plc.recover sample).2.recoveryGain = plc.endLoss.recoveryGain := by
  have ended : plc.endLoss.lost = 0 ∧ plc.endLoss.pitch = plc.pitch := by
    unfold endLoss
    split
    · exact ⟨rfl, rfl⟩
    · rename_i silent
      exact ⟨not_not.mp silent, rfl⟩
  have played (plc : Plc F) : ∃ phase overlapLeft, plc.substitution.2 =
      { plc with phase := phase, overlapLeft := overlapLeft } := by
    unfold substitution
    dsimp only
    split <;> exact ⟨_, _, rfl⟩
  rw [recover_eq]
  unfold crossfade
  split
  · rename_i recovered
    exact ⟨ended.1, ended.2, by dsimp only; omega, rfl, rfl⟩
  · obtain ⟨phase, overlapLeft, playedEq⟩ := played plc.endLoss
    rw [playedEq]
    exact ⟨ended.1, ended.2, rfl, rfl, rfl⟩

theorem Follows.endLoss {rate : Nat} {phase : LossPhase} (follows : plc.Follows rate phase)
    (positive : 0 < rate) (word : rate < 2 ^ 32)
    (scaled : plc.scale = (Plc.new rate : Plc F).scale) :
    plc.endLoss.recoveryLeft = phase.span rate - phase.reals ∧
      (plc.endLoss.recoveryLeft ≠ 0 → plc.endLoss.recoveryLength = phase.span rate ∧
        plc.endLoss.recoveryGain =
          gainAfter (ceilDiv (rate * 10) 1000) (min phase.lastLoss (2 ^ 64 - 1))) := by
  unfold Plc.endLoss
  cases follows with
  | quiet silent recovered =>
      rw [if_neg (not_not.mpr silent)]
      exact ⟨recovered, fun fades => (fades recovered).elim⟩
  | @losing lost some counted recovered =>
      have sounding : plc.lost ≠ 0 := by omega
      simp only [scale, List.cons.injEq, and_true] at scaled
      obtain ⟨-, -, -, -, -, tenMs, fourMs⟩ := scaled
      have span : recoverySpan plc.tenMs plc.fourMs plc.pitch plc.lost =
          (LossPhase.losing plc.pitch lost).span rate := by
        rw [tenMs, fourMs, counted]
        exact recoverySpan_saturated positive word plc.pitch lost
      rw [if_pos sounding]
      refine ⟨span, fun _ => ⟨span, ?_⟩⟩
      dsimp only
      rw [lossGain_eq_gainAfter, tenMs, counted]
      rfl
  | returned _ silent left fading =>
      rw [if_neg (not_not.mpr silent)]
      exact ⟨left, fading⟩

theorem Follows.recover {rate : Nat} {phase : LossPhase} (follows : plc.Follows rate phase)
    (positive : 0 < rate) (word : rate < 2 ^ 32)
    (scaled : plc.scale = (Plc.new rate : Plc F).scale) (sample : F) (pitch : Nat) :
    (plc.recover sample).2.Follows rate (phase.next (.process (some sample) pitch)) := by
  obtain ⟨lostEq, pitchEq, leftEq, lengthEq, gainEq⟩ := recover_counts plc sample
  obtain ⟨endedLeft, endedFades⟩ := follows.endLoss positive word scaled
  have back (lost received : Nat)
      (left : (plc.recover sample).2.recoveryLeft =
        (LossPhase.returned plc.pitch lost received).span rate - (received + 1))
      (fading : plc.endLoss.recoveryLeft ≠ 0 →
        plc.endLoss.recoveryLength = (LossPhase.returned plc.pitch lost received).span rate ∧
        plc.endLoss.recoveryGain =
          gainAfter (ceilDiv (rate * 10) 1000) (min lost (2 ^ 64 - 1))) :
      (plc.recover sample).2.Follows rate (.returned plc.pitch lost (received + 1)) := by
    have later := @Follows.returned F _ rate (plc.recover sample).2 lost (received + 1)
      (Nat.succ_pos _) lostEq
    rw [pitchEq] at later
    refine later left fun fades => ?_
    obtain ⟨length, gain⟩ := fading (by omega)
    exact ⟨lengthEq.trans length, gainEq.trans gain⟩
  cases follows with
  | quiet silent recovered =>
      refine .quiet lostEq ?_
      rw [leftEq, endedLeft]
      rfl
  | losing some counted recovered => exact back _ 0 (by rw [leftEq, endedLeft]; rfl) endedFades
  | returned some silent left fading =>
      exact back _ _ (by rw [leftEq, endedLeft, Nat.sub_sub]; rfl) endedFades

theorem Bounded.endLoss (bounded : plc.Bounded) : plc.endLoss.Bounded := by
  unfold Plc.endLoss
  split
  · rename_i lost
    obtain ⟨low, high, buffers⟩ := bounded.sounding (.inl lost)
    exact
      { sized := bounded.sized.of_sizes rfl
        next_lt := bounded.next_lt
        delayed_lt := bounded.delayed_lt
        recovery_le := Nat.le_refl _
        sounding := fun _ => ⟨low, high, { buffers with recovery_le := Nat.le_refl _ }⟩
        first := fun lost => (lost rfl).elim
        second := fun lost => (lost rfl).elim }
  · exact bounded

/-- A workspace of this rate whose counters are in a phase. -/
structure Tracked (rate : Nat) (plc : Plc F) (phase : LossPhase) : Prop where
  bounded : plc.Bounded
  scaled : plc.scale = (Plc.new rate : Plc F).scale
  follows : plc.Follows rate phase

variable {rate : Nat} {phase : LossPhase}

theorem tracked_new (positive : 0 < rate) (word : rate < 2 ^ 32) :
    Tracked rate (Plc.new rate : Plc F) .quiet :=
  ⟨bounded_new positive word, rfl, .quiet rfl rfl⟩

theorem Tracked.reset (tracked : Tracked rate plc phase) : Tracked rate plc.reset .quiet :=
  ⟨tracked.bounded.reset, tracked.scaled, .quiet rfl rfl⟩

omit [Binary32 F] in
theorem sizes_of_scale {other : Plc F} (same : other.scale = plc.scale) :
    other.sizes = plc.sizes := by
  simp only [scale, Plc.sizes, List.cons.injEq, and_true] at same ⊢
  exact ⟨same.1, same.2.1, same.2.2.1, same.2.2.2.1, same.2.2.2.2.1, same.2.2.2.2.2.1⟩

theorem Tracked.sizes (tracked : Tracked rate plc phase) :
    plc.sizes = (Plc.new rate : Plc F).sizes :=
  sizes_of_scale tracked.scaled

theorem Tracked.tenMs (tracked : Tracked rate plc phase) :
    plc.tenMs = ceilDiv (rate * 10) 1000 :=
  tenMs_eq_of_sizes tracked.sizes

/-- The pitches that a call may find are those of the workspace. -/
theorem Tracked.range (tracked : Tracked rate plc phase) {input : Option F} {pitch : Nat}
    (finds : (PlcCall.process input pitch).Finds rate) :
    plc.minPitch ≤ pitch ∧ pitch ≤ plc.maxPitch := by
  have sizes := tracked.sizes
  simp only [Plc.sizes, List.cons.injEq, and_true] at sizes
  rw [sizes.2.2.1, sizes.2.2.2.1]
  exact finds

theorem Tracked.run (tracked : Tracked rate plc phase) (positive : 0 < rate)
    (word : rate < 2 ^ 32) {call : PlcCall F} (finds : call.Finds rate) :
    Tracked rate (call.run plc) (phase.next call) := by
  have bounded := (PlcCall.checked_eq tracked.bounded tracked.sizes finds).2.1
  cases call with
  | process input pitch =>
      refine ⟨bounded, (processAt_scale plc pitch input).trans tracked.scaled, ?_⟩
      cases input with
      | some sample =>
          exact (tracked.follows.recover positive word tracked.scaled sample pitch).delay _ _
      | none =>
          exact (tracked.follows.concealAt tracked.bounded (tracked.range finds)).delay _ _
  | drain => exact ⟨bounded, tracked.scaled, tracked.follows.delay 0 0⟩
  | reset => exact tracked.reset

theorem Tracked.runs (tracked : Tracked rate plc phase) (positive : 0 < rate)
    (word : rate < 2 ^ 32) (calls : List (PlcCall F)) (finds : ∀ call ∈ calls, call.Finds rate) :
    Tracked rate (calls.foldl PlcCall.run plc) (calls.foldl LossPhase.next phase) := by
  induction calls generalizing plc phase with
  | nil => exact tracked
  | cons call calls ih =>
      exact ih (tracked.run positive word (finds call List.mem_cons_self))
        fun other member => finds other (List.mem_cons_of_mem call member)

end Plc

end PcmRing
