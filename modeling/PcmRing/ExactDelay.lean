import PcmRing.CircularHistory
import PcmRing.LossPhases
import Mathlib.Data.List.Induction

/-!
# The delay line of concealment

Outside a loss and the recovery from it concealment only delays: what is put in
comes out unchanged a lookahead later, and only the samples that are still in
the lookahead are rewritten when a loss begins.
-/

namespace PcmRing

open CircularHistory

variable {F W : Type}

namespace Plc

/-- The sample that was put in `age` samples before the last one. -/
def heldSample (plc : Plc F) (age : Nat) : F :=
  held plc.history plc.historyLength plc.next age

/-- Whether it was received. -/
def heldReal (plc : Plc F) (age : Nat) : F :=
  held plc.real plc.lookahead plc.delayed age

section Steps

variable [Binary32 F] {plc : Plc F}

omit [Binary32 F] in
theorem Bounded.lookahead_lt (bounded : plc.Bounded) : plc.lookahead < plc.historyLength := by
  have history := bounded.sized.history_eq
  have low := bounded.sized.minPitch_pos
  have high := bounded.sized.pitch_le
  omega

theorem delay_heldSample_zero (bounded : plc.Bounded) (sample real : F) :
    (plc.delay sample real).2.heldSample 0 = sample :=
  held_write_zero plc.history bounded.next_lt sample

theorem delay_heldSample_succ (bounded : plc.Bounded) (sample real : F) {age : Nat}
    (age_lt : age + 1 < plc.historyLength) :
    (plc.delay sample real).2.heldSample (age + 1) = plc.heldSample age :=
  held_write_succ plc.history bounded.next_lt age_lt sample

theorem delay_heldReal_zero (bounded : plc.Bounded) (sample real : F) :
    (plc.delay sample real).2.heldReal 0 = real :=
  held_write_zero plc.real bounded.delayed_lt real

theorem delay_heldReal_succ (bounded : plc.Bounded) (sample real : F) {age : Nat}
    (age_lt : age + 1 < plc.lookahead) :
    (plc.delay sample real).2.heldReal (age + 1) = plc.heldReal age :=
  held_write_succ plc.real bounded.delayed_lt age_lt real

/-- The sample that is played is then the one a lookahead old. -/
theorem delay_played (bounded : plc.Bounded) (sample real : F) :
    (plc.delay sample real).1.1 = (plc.delay sample real).2.heldSample plc.lookahead := by
  have positive := bounded.sized.lookahead_pos
  have short := bounded.lookahead_lt
  obtain ⟨earlier, lookaheadEq⟩ : ∃ earlier, plc.lookahead = earlier + 1 :=
    ⟨plc.lookahead - 1, by omega⟩
  have read := cell_before plc.next positive (Nat.le_of_lt short)
  rw [lookaheadEq, delay_heldSample_succ bounded sample real (by omega)]
  rw [lookaheadEq] at read
  change plc.history ((plc.next + plc.historyLength - plc.lookahead) % plc.historyLength) = _
  rw [lookaheadEq, read]
  rfl

theorem delay_flag (bounded : plc.Bounded) (sample real : F) :
    (plc.delay sample real).1.2 = Binary32.isNonzero (plc.heldReal (plc.lookahead - 1)) := by
  unfold heldReal held
  rw [cell_oldest bounded.delayed_lt]
  rfl

theorem recover_history (plc : Plc F) (sample : F) :
    (plc.recover sample).2.heldSample = plc.heldSample ∧
      (plc.recover sample).2.heldReal = plc.heldReal := by
  have ended : plc.endLoss.heldSample = plc.heldSample ∧ plc.endLoss.heldReal = plc.heldReal := by
    unfold endLoss
    split <;> exact ⟨rfl, rfl⟩
  have played (plc : Plc F) : plc.substitution.2.heldSample = plc.heldSample ∧
      plc.substitution.2.heldReal = plc.heldReal := by
    unfold substitution
    dsimp only
    split <;> exact ⟨rfl, rfl⟩
  rw [recover_eq]
  unfold crossfade
  split
  · exact ended
  · exact ⟨(played plc.endLoss).1.trans ended.1, (played plc.endLoss).2.trans ended.2⟩

omit [Binary32 F] in
/-- A loss rewrites the last quarter of its pitch and nothing older. -/
theorem rewriteTail_history (bounded : plc.Bounded) {quarter : Nat}
    (quarter_le : quarter ≤ plc.historyLength) (frozen : Plc F)
    (same : frozen.history = plc.history) (next : frozen.next = plc.next)
    (length : frozen.historyLength = plc.historyLength) {age : Nat}
    (age_lt : age < plc.historyLength) (older : quarter ≤ age) :
    (frozen.rewriteTail plc.historyLength quarter).heldSample age = plc.heldSample age := by
  unfold rewriteTail
  refine (forRange_keeps (fun _ (state : Plc F) => state.heldSample age = plc.heldSample age ∧
    state.next = plc.next ∧ state.historyLength = plc.historyLength) ?_ ⟨?_, next, length⟩).1
  · rintro index state inside ⟨kept, nextEq, lengthEq⟩
    refine ⟨?_, nextEq, lengthEq⟩
    have target : (state.next + plc.historyLength - quarter + index) % plc.historyLength =
        cell plc.historyLength plc.next (quarter - index - 1) := by
      rw [nextEq, ← cell_before plc.next (by omega) (by omega)]
      congr 1
      omega
    rw [target]
    have rewritten := held_rewrite state.history bounded.next_lt age_lt
      (by omega : quarter - index - 1 < plc.historyLength) (by omega)
      (state.frozen (plc.historyLength - quarter + index))
    rw [← kept]
    unfold heldSample
    dsimp only
    rw [nextEq, lengthEq]
    exact rewritten
  · unfold heldSample
    rw [same, next, length]

theorem smoothCycleTail_frame (plc : Plc F) :
    ∃ frozen, plc.smoothCycleTail = { plc with frozen := frozen } := by
  obtain ⟨frozen, smoothed, -⟩ := @smoothCycleTail_withScraps F _ plc
    ⟨plc.lastQuarter, plc.overlap, plc.recoveryLength, plc.recoveryGain⟩ fun _ _ => rfl
  exact ⟨frozen, smoothed⟩

/-- Before it rewrites the tail a loss only freezes the history. -/
theorem beginLossAt_rewrites (plc : Plc F) (pitch : Nat) : ∃ joined : Plc F,
    plc.beginLossAt pitch = joined.rewriteTail plc.historyLength (pitch / 4) ∧
      joined.history = plc.history ∧ joined.next = plc.next ∧
        joined.historyLength = plc.historyLength := by
  obtain ⟨tail, smoothed⟩ := smoothCycleTail_frame (plc.freeze.adoptPitch pitch)
  refine ⟨(plc.freeze.adoptPitch pitch).smoothCycleTail, rfl, ?_, ?_, ?_⟩ <;> rw [smoothed] <;> rfl

/-- The longer cycle before its tail is joined. -/
def longer (plc : Plc F) : Plc F :=
  { plc with
    overlap := (plc.keepOverlap (plc.pitch / 4)).overlap
    phase := foldPhase plc.pitch plc.phase plc.phase
    cycle := plc.cycle + plc.pitch }

theorem expandCycle_parts (plc : Plc F) : plc.expandCycle =
    { plc.longer with
      frozen := plc.longer.smoothCycleTail.frozen
      overlapLeft := plc.pitch / 4 } := by
  obtain ⟨overlap, -, phase, -, keptEq, -⟩ := keepOverlap_withScraps plc
    ⟨plc.lastQuarter, plc.overlap, plc.recoveryLength, plc.recoveryGain⟩ (plc.pitch / 4)
  obtain ⟨frozen, smoothed⟩ := smoothCycleTail_frame plc.longer
  have kept : ({ plc.keepOverlap (plc.pitch / 4) with
      phase := foldPhase (plc.keepOverlap (plc.pitch / 4)).pitch plc.phase plc.phase
      cycle := (plc.keepOverlap (plc.pitch / 4)).cycle +
        (plc.keepOverlap (plc.pitch / 4)).pitch } : Plc F) = plc.longer := by
    unfold longer
    rw [keptEq]
  change ({ (smoothCycleTail { plc.keepOverlap (plc.pitch / 4) with
    phase := foldPhase (plc.keepOverlap (plc.pitch / 4)).pitch plc.phase plc.phase
    cycle := (plc.keepOverlap (plc.pitch / 4)).cycle +
      (plc.keepOverlap (plc.pitch / 4)).pitch } : Plc F) with overlapLeft := plc.pitch / 4 }) = _
  rw [kept, smoothed]

theorem substitution_frame (plc : Plc F) : ∃ phase overlapLeft,
    plc.substitution.2 = { plc with phase := phase, overlapLeft := overlapLeft } := by
  unfold substitution
  dsimp only
  split <;> exact ⟨_, _, rfl⟩

/-- The delay line after a lost sample, before that sample is put in. -/
theorem concealAt_history (bounded : plc.Bounded) {pitch : Nat} (high : pitch ≤ plc.maxPitch) :
    (plc.concealAt pitch).2.heldReal = plc.heldReal ∧
      ∀ age < plc.historyLength, (plc.lost = 0 → pitch / 4 ≤ age) →
        (plc.concealAt pitch).2.heldSample age = plc.heldSample age := by
  have grown : (plc.sounded pitch).heldSample = (plc.begun pitch).heldSample ∧
      (plc.sounded pitch).heldReal = (plc.begun pitch).heldReal := by
    unfold sounded Plc.grown
    split
    · rw [expandCycle_parts]
      exact ⟨rfl, rfl⟩
    · exact ⟨rfl, rfl⟩
  have played : (plc.concealAt pitch).2.heldSample = (plc.sounded pitch).heldSample ∧
      (plc.concealAt pitch).2.heldReal = (plc.sounded pitch).heldReal := by
    obtain ⟨phase, overlapLeft, playedEq⟩ := substitution_frame (plc.sounded pitch)
    rw [concealAt_eq, playedEq]
    exact ⟨rfl, rfl⟩
  rw [played.2, grown.2, played.1, grown.1]
  unfold begun
  split
  · obtain ⟨-, history, frozen, lastQuarter, begunEq⟩ :=
      @beginLoss_eq F _ { plc with recoveryLeft := 0 } (bounded.sized.of_sizes rfl)
        (fun _ => some pitch) pitch rfl high
    refine ⟨by rw [begunEq]; rfl, fun age age_lt older => ?_⟩
    have quarter := bounded.sized.quarter_le
    have short := bounded.lookahead_lt
    rename_i silent
    obtain ⟨joined, rewritten, same, next, length⟩ :=
      beginLossAt_rewrites { plc with recoveryLeft := 0 } pitch
    rw [rewritten]
    exact rewriteTail_history bounded (by omega) joined same next length age_lt (older silent)
  · exact ⟨rfl, fun _ _ _ => rfl⟩

/-- One call of the delay line, of which `rewritten` samples may change. -/
structure Delays (plc : Plc F) (real : F) (rewritten : Nat) (played : (F × Bool) × Plc F) :
    Prop where
  sample : played.1.1 = played.2.heldSample plc.lookahead
  flag : played.1.2 = Binary32.isNonzero (plc.heldReal (plc.lookahead - 1))
  real : played.2.heldReal 0 = real
  reals : ∀ age, age + 1 < plc.lookahead → played.2.heldReal (age + 1) = plc.heldReal age
  samples : ∀ age, rewritten ≤ age → age + 1 < plc.historyLength →
    played.2.heldSample (age + 1) = plc.heldSample age

/-- How many of the samples that were put in a call may rewrite. -/
def rewrites (plc : Plc F) (pitch : Nat) (input : Option F) : Nat :=
  if input.isNone ∧ plc.lost = 0 then pitch / 4 else 0

theorem delay_delays {before : Plc F} (bounded : before.Bounded) (scaled : before.scale = plc.scale)
    (sample real : F) {rewritten : Nat} (reals : before.heldReal = plc.heldReal)
    (samples : ∀ age < plc.historyLength, rewritten ≤ age →
      before.heldSample age = plc.heldSample age) :
    plc.Delays real rewritten (before.delay sample real) := by
  simp only [scale, List.cons.injEq] at scaled
  obtain ⟨length, lookahead, -⟩ := scaled
  constructor
  · rw [← lookahead]
    exact delay_played bounded sample real
  · rw [← lookahead, ← reals]
    exact delay_flag bounded sample real
  · exact delay_heldReal_zero bounded sample real
  · intro age age_lt
    rw [delay_heldReal_succ bounded sample real (lookahead ▸ age_lt), reals]
  · intro age older age_lt
    rw [delay_heldSample_succ bounded sample real (length ▸ age_lt)]
    exact samples age (by omega) older

theorem processAt_delays (bounded : plc.Bounded) {pitch : Nat}
    (range : plc.minPitch ≤ pitch ∧ pitch ≤ plc.maxPitch) (input : Option F) :
    plc.Delays (if input.isSome then 1 else 0) (plc.rewrites pitch input)
      (plc.processAt pitch input) := by
  cases input with
  | some sample =>
      obtain ⟨-, kept, -⟩ := PcmRing.recover_eq bounded sample
      obtain ⟨samples, reals⟩ := recover_history plc sample
      have scaled : (plc.recover sample).2.scale = plc.scale := processAt_scale plc pitch (some sample)
      exact delay_delays kept scaled _ _ reals fun age _ _ => congrFun samples age
  | none =>
      obtain ⟨-, kept, -⟩ := @conceal_eq F _ plc bounded (fun _ => some pitch) pitch rfl range
      obtain ⟨reals, samples⟩ := concealAt_history bounded range.2
      have scaled : (plc.concealAt pitch).2.scale = plc.scale := processAt_scale plc pitch none
      refine delay_delays kept scaled _ _ reals fun age age_lt older => samples age age_lt fun silent => ?_
      rwa [rewrites, if_pos ⟨rfl, silent⟩] at older

theorem drainSample_delays (bounded : plc.Bounded) : plc.Delays 0 0 plc.drainSample :=
  delay_delays bounded rfl 0 0 rfl fun _ _ _ => rfl

end Steps

section Streams

variable (W) [Binary32 F] [Binary64 W] [Widening F W]

/-- The workspace after inputs. -/
def after (start : Plc F) (inputs : List (Option F)) : Plc F :=
  inputs.foldl (fun plc input => (plc.process W input).2) start

/-- What inputs play. -/
def played : Plc F → List (Option F) → List (F × Bool)
  | _, [] => []
  | plc, input :: inputs => (plc.process W input).1 :: played (plc.process W input).2 inputs

/-- What the drains after them play. -/
def drained : Nat → Plc F → List (F × Bool)
  | 0, _ => []
  | count + 1, plc => plc.drainSample.1 :: drained count plc.drainSample.2

/-- What inputs and the drains after them play. -/
def stream (start : Plc F) (inputs : List (Option F)) (drains : Nat) : List (F × Bool) :=
  played W start inputs ++ drained drains (start.after W inputs)

/-- The calls that inputs make, each with the pitch that a search would find. -/
def heard : Plc F → List (Option F) → List (PlcCall F)
  | _, [] => []
  | plc, input :: inputs =>
      .process input (plc.freeze.detectPitch W) :: heard (plc.process W input).2 inputs

/-- The workspace before call `time` of a stream. -/
def stage (start : Plc F) (inputs : List (Option F)) (time : Nat) : Plc F :=
  (fun plc => plc.drainSample.2)^[time - inputs.length] (start.after W (inputs.take time))

variable {W}

theorem after_concat (start : Plc F) (inputs : List (Option F)) (input : Option F) :
    start.after W (inputs ++ [input]) = ((start.after W inputs).process W input).2 := by
  simp [after]

theorem heard_concat (start : Plc F) (inputs : List (Option F)) (input : Option F) :
    heard W start (inputs ++ [input]) = heard W start inputs ++
      [.process input ((start.after W inputs).freeze.detectPitch W)] := by
  induction inputs generalizing start with
  | nil => rfl
  | cons first inputs ih =>
      rw [List.cons_append, heard, heard, ih]
      rfl

theorem length_played (start : Plc F) (inputs : List (Option F)) :
    (played W start inputs).length = inputs.length := by
  induction inputs generalizing start with
  | nil => rfl
  | cons input inputs ih => exact congrArg (· + 1) (ih _)

omit [Binary64 W] [Widening F W] in
theorem length_drained (count : Nat) (plc : Plc F) : (drained count plc).length = count := by
  induction count generalizing plc with
  | zero => rfl
  | succ count ih => exact congrArg (· + 1) (ih _)

theorem length_stream (start : Plc F) (inputs : List (Option F)) (drains : Nat) :
    (stream W start inputs drains).length = inputs.length + drains := by
  rw [stream, List.length_append, length_played, length_drained]

theorem played_get (start : Plc F) (inputs : List (Option F)) {time : Nat} {input : Option F}
    (now : inputs[time]? = some input) : (played W start inputs)[time]? =
      some ((start.after W (inputs.take time)).process W input).1 := by
  induction inputs generalizing start time with
  | nil => simp at now
  | cons first inputs ih =>
      cases time with
      | zero =>
          obtain rfl := Option.some_inj.mp now
          rfl
      | succ time => exact ih _ now

omit [Binary64 W] [Widening F W] in
theorem drained_get (plc : Plc F) {count time : Nat} (lt : time < count) :
    (drained count plc)[time]? =
      some ((fun plc : Plc F => plc.drainSample.2)^[time] plc).drainSample.1 := by
  induction count generalizing plc time with
  | zero => omega
  | succ count ih =>
      cases time with
      | zero => rfl
      | succ time => exact ih _ (Nat.lt_of_succ_lt_succ lt)

section Stages

variable {start : Plc F} {inputs : List (Option F)} {time : Nat}

theorem stage_early (early : time ≤ inputs.length) :
    stage W start inputs time = start.after W (inputs.take time) := by
  rw [stage, Nat.sub_eq_zero_of_le early]
  rfl

theorem stage_input {input : Option F} (now : inputs[time]? = some input) :
    stage W start inputs (time + 1) = ((stage W start inputs time).process W input).2 := by
  obtain ⟨lt, inputEq⟩ := List.getElem?_eq_some_iff.mp now
  rw [stage_early (Nat.succ_le_of_lt lt), stage_early (Nat.le_of_lt lt),
    ← List.take_append_getElem lt, inputEq]
  exact after_concat start _ input

theorem stage_drain (late : inputs.length ≤ time) :
    stage W start inputs (time + 1) = (stage W start inputs time).drainSample.2 := by
  unfold stage
  rw [List.take_of_length_le late, List.take_of_length_le (Nat.le_succ_of_le late),
    Nat.succ_sub late, Function.iterate_succ_apply']

theorem stream_input {input : Option F} (now : inputs[time]? = some input) (drains : Nat) :
    (stream W start inputs drains)[time]? =
      some ((stage W start inputs time).process W input).1 := by
  obtain ⟨lt, -⟩ := List.getElem?_eq_some_iff.mp now
  rw [stream, List.getElem?_append_left (by rwa [length_played]), played_get start inputs now,
    stage_early (Nat.le_of_lt lt)]

theorem stream_drain {drains : Nat} (late : inputs.length ≤ time)
    (early : time < inputs.length + drains) :
    (stream W start inputs drains)[time]? =
      some (stage W start inputs time).drainSample.1 := by
  unfold stream stage
  rw [List.getElem?_append_right (by rwa [length_played]), length_played,
    drained_get _ (by omega), List.take_of_length_le late]

end Stages

/-- A new workspace of the rate, or one that was reset. -/
def Fresh (rate : Nat) (start : Plc F) : Prop :=
  ∃ old : Plc F, old.scale = (Plc.new rate : Plc F).scale ∧ start = old.reset

omit [Binary64 W] [Widening F W] in
theorem fresh_new (rate : Nat) : (Plc.new rate : Plc F).Fresh rate :=
  ⟨Plc.new rate, rfl, rfl⟩

variable {rate : Nat} {start : Plc F}

omit [Binary64 W] [Widening F W] in
theorem Fresh.tracked (fresh : start.Fresh rate) (positive : 0 < rate) (word : rate < 2 ^ 32) :
    Tracked rate start .quiet := by
  obtain ⟨old, scaled, rfl⟩ := fresh
  have sized := (Plc.sized_new positive word).of_sizes (sizes_of_scale scaled)
  have history := sized.history_eq
  have lookahead := sized.lookahead_pos
  refine ⟨?_, scaled, .quiet rfl rfl⟩
  exact
    { sized := sized.of_sizes rfl
      next_lt := by
        change 0 < old.historyLength
        omega
      delayed_lt := lookahead
      recovery_le := Nat.zero_le _
      sounding := fun sounds => sounds.elim (fun lost => (lost rfl).elim) fun left => (left rfl).elim
      first := fun lost => (lost rfl).elim
      second := fun lost => (lost rfl).elim }

theorem Tracked.finds (W : Type) [Binary64 W] [Widening F W] {plc : Plc F} {phase : LossPhase}
    (tracked : Tracked rate plc phase) (input : Option F) :
    (PlcCall.process input (plc.freeze.detectPitch W)).Finds rate := by
  have found := tracked.bounded.found W
  have sizes := tracked.sizes
  simp only [Plc.sizes, List.cons.injEq, and_true] at sizes
  have range : (Plc.new rate : Plc F).minPitch ≤ plc.freeze.detectPitch W ∧
      plc.freeze.detectPitch W ≤ (Plc.new rate : Plc F).maxPitch := by
    rw [← sizes.2.2.1, ← sizes.2.2.2.1]
    exact found
  exact range

/-- The calls of the inputs find pitches of the rate, and the counters follow them. -/
theorem Tracked.after (tracked : Tracked rate start .quiet) (positive : 0 < rate)
    (word : rate < 2 ^ 32) (inputs : List (Option F)) :
    Tracked rate (start.after W inputs) (LossPhase.after (heard W start inputs)) := by
  induction inputs using List.reverseRecOn with
  | nil => exact tracked
  | append_singleton inputs input ih =>
      rw [heard_concat, after_concat, process_eq, LossPhase.after, List.foldl_append]
      exact ih.run positive word (ih.finds W input)

theorem Tracked.stage (tracked : Tracked rate start .quiet) (positive : 0 < rate)
    (word : rate < 2 ^ 32) (inputs : List (Option F)) (time : Nat) :
    Tracked rate (start.stage W inputs time)
      (LossPhase.after (heard W start (inputs.take time))) := by
  have drains (plc : Plc F) (phase : LossPhase) (before : Tracked rate plc phase) (count : Nat) :
      Tracked rate ((fun plc : Plc F => plc.drainSample.2)^[count] plc) phase := by
    induction count with
    | zero => exact before
    | succ count ih =>
        rw [Function.iterate_succ_apply']
        exact ih.run positive word (show (PlcCall.drain : PlcCall F).Finds rate from trivial)
  exact drains _ _ (tracked.after positive word (inputs.take time)) _

/-- How many samples call `time` of a stream may rewrite. -/
def rewritten (W : Type) [Binary64 W] [Widening F W] (start : Plc F) (inputs : List (Option F))
    (time : Nat) : Nat :=
  if inputs[time]?.any Option.isNone ∧ (stage W start inputs time).lost = 0 then
    (stage W start inputs time).freeze.detectPitch W / 4
  else 0

theorem stage_delays (tracked : Tracked rate start .quiet) (positive : 0 < rate)
    (word : rate < 2 ^ 32) (inputs : List (Option F)) {drains time : Nat}
    (early : time < inputs.length + drains) :
    ∃ played, (stream W start inputs drains)[time]? = some played.1 ∧
      stage W start inputs (time + 1) = played.2 ∧
      (stage W start inputs time).Delays (if inputs[time]?.join.isSome then 1 else 0)
        (rewritten W start inputs time) played := by
  have now := tracked.stage positive word inputs time (W := W)
  rcases Nat.lt_or_ge time inputs.length with within | late
  · have input := List.getElem?_eq_getElem within
    refine ⟨_, stream_input input drains, stage_input input, ?_⟩
    rw [rewritten, input, process_eq]
    exact processAt_delays now.bounded (now.range (now.finds W inputs[time])) inputs[time]
  · refine ⟨_, stream_drain late early, stage_drain late, ?_⟩
    rw [rewritten, List.getElem?_eq_none late]
    exact drainSample_delays now.bounded

theorem Tracked.lookahead {plc : Plc F} {phase : LossPhase} (tracked : Tracked rate plc phase) :
    plc.lookahead = plcDelay rate := by
  have sizes := tracked.sizes
  simp only [Plc.sizes, List.cons.injEq, and_true] at sizes
  exact sizes.2.1

/-- What a loss rewrites is still in the lookahead. -/
theorem rewritten_le (tracked : Tracked rate start .quiet) (positive : 0 < rate)
    (word : rate < 2 ^ 32) (inputs : List (Option F)) (time : Nat) :
    rewritten W start inputs time ≤ plcDelay rate := by
  have now := tracked.stage positive word inputs time (W := W)
  have found := (now.range (now.finds W none)).2
  have quarter := now.bounded.sized.quarter_le
  rw [now.lookahead] at quarter
  unfold rewritten
  split <;> omega

/-- The flags in the lookahead are those of the last inputs. -/
theorem heldReal_stage (tracked : Tracked rate start .quiet) (positive : 0 < rate)
    (word : rate < 2 ^ 32) (empty : ∀ index, start.real index = 0) (inputs : List (Option F))
    {drains time : Nat} (early : time ≤ inputs.length + drains) {age : Nat}
    (age_lt : age < plcDelay rate) :
    (stage W start inputs time).heldReal age =
      if age < time ∧ inputs[time - 1 - age]?.join.isSome then 1 else 0 := by
  induction time generalizing age with
  | zero =>
      rw [if_neg (by omega), stage_early (Nat.zero_le _)]
      exact empty _
  | succ time ih =>
      obtain ⟨played, -, stageEq, delays⟩ :=
        stage_delays tracked positive word inputs (Nat.lt_of_succ_le early) (W := W)
      have now := tracked.stage positive word inputs time (W := W)
      rw [stageEq]
      cases age with
      | zero =>
          rw [delays.real]
          simp
      | succ age =>
          rw [delays.reals age (by rwa [now.lookahead]), ih (by omega) (by omega)]
          simp only [Nat.add_lt_add_iff_right, Nat.add_sub_cancel, Nat.sub_sub]
          rw [Nat.add_comm 1 age]

/-- A loss goes on when the sample before was lost too. -/
theorem stage_losing (tracked : Tracked rate start .quiet) (positive : 0 < rate)
    (word : rate < 2 ^ 32) {inputs : List (Option F)} {time : Nat}
    (missing : inputs[time]? = some none) : (stage W start inputs (time + 1)).lost ≠ 0 := by
  obtain ⟨lt, inputEq⟩ := List.getElem?_eq_some_iff.mp missing
  have later := (tracked.stage positive word inputs (time + 1) (W := W)).follows.silent_iff
  rw [Ne, later, ← List.take_append_getElem lt, inputEq, heard_concat, LossPhase.after,
    List.foldl_append]
  cases (heard W start (inputs.take time)).foldl LossPhase.next .quiet <;>
    simp [LossPhase.next, LossPhase.losses]

/-- A call that begins no loss close after a sample leaves it. -/
theorem rewritten_calm (tracked : Tracked rate start .quiet) (positive : 0 < rate)
    (word : rate < 2 ^ 32) {inputs : List (Option F)} {time before : Nat}
    (calm : inputs[time + 1]? = some none → (∃ value, inputs[time]? = some (some value)) →
      (start.after W (inputs.take (time + 1))).freeze.detectPitch W / 4 ≤ time - before) :
    rewritten W start inputs (time + 1) ≤ time - before := by
  unfold rewritten
  split
  · rename_i onset
    obtain ⟨lossy, silent⟩ := onset
    obtain ⟨input, now, missing⟩ := (Option.any_eq_true _ _).mp lossy
    obtain rfl := Option.isNone_iff_eq_none.mp missing
    obtain ⟨lt, -⟩ := List.getElem?_eq_some_iff.mp now
    rw [stage_early (Nat.le_of_lt lt)]
    refine calm now ?_
    have earlier := List.getElem?_eq_getElem (Nat.lt_of_succ_lt lt)
    cases input : inputs[time] with
    | some value => exact ⟨value, earlier.trans (congrArg some input)⟩
    | none =>
        exact (stage_losing tracked positive word (earlier.trans (congrArg some input)) silent).elim
  · exact Nat.zero_le _

/-- A sample that a fade-out does not touch is put in as it is. -/
theorem stage_faded (tracked : Tracked rate start .quiet) (positive : 0 < rate)
    (word : rate < 2 ^ 32) {inputs : List (Option F)} {time : Nat} {value : F}
    (now : inputs[time]? = some (some value))
    (faded : (LossPhase.after (heard W start (inputs.take time))).span rate ≤
      (LossPhase.after (heard W start (inputs.take time))).reals) :
    (stage W start inputs (time + 1)).heldSample 0 = value := by
  have before := tracked.stage positive word inputs time (W := W)
  obtain ⟨left, -⟩ := before.follows.endLoss positive word before.scaled
  have kept : ((stage W start inputs time).recover value).1 = value := by
    rw [recover_eq, crossfade, if_pos (by omega)]
  have bounded := (PcmRing.recover_eq before.bounded value).2.1
  rw [stage_input now, process_eq]
  exact (delay_heldSample_zero bounded _ _).trans kept

/-- A sample that is put in as it is, and that no loss begins close after, stays. -/
theorem heldSample_stage (tracked : Tracked rate start .quiet) (positive : 0 < rate)
    (word : rate < 2 ^ 32) {inputs : List (Option F)} {drains before : Nat} {value : F}
    (now : inputs[before]? = some (some value))
    (faded : (LossPhase.after (heard W start (inputs.take before))).span rate ≤
      (LossPhase.after (heard W start (inputs.take before))).reals)
    (calm : ∀ time ≥ before, inputs[time + 1]? = some none →
      (∃ value, inputs[time]? = some (some value)) →
      (start.after W (inputs.take (time + 1))).freeze.detectPitch W / 4 ≤ time - before)
    {age : Nat} (age_le : age ≤ plcDelay rate)
    (early : before + 1 + age ≤ inputs.length + drains) :
    (stage W start inputs (before + 1 + age)).heldSample age = value := by
  induction age with
  | zero => exact stage_faded tracked positive word now faded
  | succ age ih =>
      have kept := ih (by omega) (by omega)
      have here := tracked.stage positive word inputs (before + 1 + age) (W := W)
      have short := here.bounded.lookahead_lt
      rw [here.lookahead] at short
      obtain ⟨played, -, stageEq, delays⟩ := stage_delays tracked positive word inputs
        (show before + 1 + age < inputs.length + drains by omega) (W := W)
      have untouched := rewritten_calm tracked positive word (calm (before + age) (by omega))
      rw [show before + age - before = age by omega,
        show before + age + 1 = before + 1 + age by omega] at untouched
      rw [← Nat.add_assoc, stageEq, delays.samples age untouched (by omega), kept]

end Streams

end Plc

section DelayLine

variable (W) [Binary32 F] [Binary64 W] [Widening F W]

open Plc

/-- The call plays the sample that was put in a lookahead before it, and no
sample that was played before is rewritten. -/
structure PlaysHeld (rate : Nat) (start : Plc F) (inputs : List (Option F)) (drains time : Nat) :
    Prop where
  held : ((stream W start inputs drains)[time]?).map Prod.fst =
    some ((stage W start inputs (time + 1)).heldSample (plcDelay rate))
  final : ∀ age, plcDelay rate ≤ age → age + 1 < (stage W start inputs time).historyLength →
    (stage W start inputs (time + 1)).heldSample (age + 1) =
      (stage W start inputs time).heldSample age

/-- Concealment delays its inputs by the lookahead.  Each call of the inputs and
of the drains after them plays one position, and the flag of that position.  A
received sample comes out unchanged when the last loss before it is faded out
and no loss begins within a quarter of the pitch that it finds. -/
theorem delay_exact [LawfulBinary32 F] {rate : Nat} (positive : 0 < rate) (word : rate < 2 ^ 32)
    {start : Plc F} (fresh : start.Fresh rate) (inputs : List (Option F)) (drains : Nat) :
    (stream W start inputs drains).length = inputs.length + drains ∧
      (∀ time < inputs.length + drains,
        (((stream W start inputs drains)[time]?).map Prod.snd = some true ↔
          plcDelay rate ≤ time ∧ ∃ value, inputs[time - plcDelay rate]? = some (some value)) ∧
        PlaysHeld W rate start inputs drains time) ∧
      ∀ position value, inputs[position]? = some (some value) →
        (LossPhase.after (heard W start (inputs.take position))).span rate ≤
          (LossPhase.after (heard W start (inputs.take position))).reals →
        (∀ onset, position < onset → inputs[onset]? = some none →
          (∃ value, inputs[onset - 1]? = some (some value)) →
          position + (start.after W (inputs.take onset)).freeze.detectPitch W / 4 < onset) →
        position + plcDelay rate < inputs.length + drains →
        ((stream W start inputs drains)[position + plcDelay rate]?).map Prod.fst = some value := by
  have tracked := fresh.tracked positive word
  have played (time : Nat) (early : time < inputs.length + drains) :
      PlaysHeld W rate start inputs drains time := by
    obtain ⟨played, streamEq, stageEq, delays⟩ :=
      stage_delays tracked positive word inputs early (W := W)
    have now := tracked.stage positive word inputs time (W := W)
    constructor
    · rw [streamEq, stageEq, Option.map_some, delays.sample, now.lookahead]
    · intro age older age_lt
      rw [stageEq]
      exact delays.samples age
        (Nat.le_trans (rewritten_le tracked positive word inputs time) older) age_lt
  refine ⟨length_stream start inputs drains, fun time early => ⟨?_, played time early⟩, ?_⟩
  · obtain ⟨played, streamEq, -, delays⟩ :=
      stage_delays tracked positive word inputs early (W := W)
    have now := tracked.stage positive word inputs time (W := W)
    have some_delay := now.bounded.sized.lookahead_pos
    rw [now.lookahead] at some_delay
    have empty : ∀ index, start.real index = 0 := by
      obtain ⟨old, -, rfl⟩ := fresh
      exact fun _ => rfl
    rw [streamEq, Option.map_some, delays.flag, now.lookahead,
      heldReal_stage tracked positive word empty inputs (Nat.le_of_lt early) (by omega),
      Option.some_inj, Nat.sub_sub, Nat.add_sub_cancel' some_delay]
    split
    · rename_i received
      obtain ⟨later, isReal⟩ := received
      rw [LawfulBinary32.isNonzero_one]
      obtain ⟨value, join⟩ := Option.isSome_iff_exists.mp isReal
      exact iff_of_true rfl ⟨by omega, value, Option.join_eq_some_iff.mp join⟩
    · rename_i missing
      rw [LawfulBinary32.isNonzero_zero]
      refine iff_of_false (by decide) fun received => ?_
      obtain ⟨later, value, isReal⟩ := received
      exact missing ⟨by omega, by rw [isReal]; rfl⟩
  · intro position value now faded calm early
    rw [(played _ early).held]
    refine congrArg some ?_
    rw [show position + plcDelay rate + 1 = position + 1 + plcDelay rate by omega]
    refine heldSample_stage tracked positive word now faded (fun time later missing received => ?_)
      (Nat.le_refl _) (show position + 1 + plcDelay rate ≤ inputs.length + drains by omega)
    have clear := calm (time + 1) (by omega) missing received
    omega

/-- At one sample a second the sample before a loss comes out unchanged. -/
theorem delay_exact_slow :
    ((stream ℚ (Plc.new 1 : Plc ℚ) [some (1 / 2), none, some 1] 1)[0 + plcDelay 1]?).map Prod.fst =
      some (1 / 2) := by
  refine (delay_exact ℚ (by decide) (by decide) (fresh_new 1) [some (1 / 2), none, some 1] 1).2.2 0
    (1 / 2) rfl (by decide) (fun onset later missing _ => ?_) (by decide)
  obtain rfl : onset = 1 := by
    rcases onset with _ | _ | _ | onset <;> simp_all
  decide +kernel

end DelayLine

end PcmRing
