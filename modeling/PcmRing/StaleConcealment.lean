import PcmRing.CheckedConcealment

/-!
# What concealment forgets

The waveform of a loss is read until the recovery from it is over, and the next
loss replaces it.  Two workspaces that differ in nothing else conceal alike.
-/

namespace PcmRing

variable {F W : Type}

theorem forRange_related {σ τ : Type} {count : Nat} {first : Nat → σ → σ} {second : Nat → τ → τ}
    (related : Nat → σ → τ → Prop)
    (turn : ∀ index state other, index < count → related index state other →
      related (index + 1) (first index state) (second index other))
    {state : σ} {other : τ} (start : related 0 state other) :
    related count (forRange count first state) (forRange count second other) := by
  unfold forRange
  induction count with
  | zero => exact start
  | succ count ih =>
      simp only [List.range_succ, List.foldl_append, List.foldl_cons, List.foldl_nil]
      exact turn count _ _ (Nat.lt_succ_self count)
        (ih fun index state other lt => turn index state other (Nat.lt_succ_of_lt lt))

/-- A turn that keeps an invariant of its index keeps it to the end of a loop. -/
theorem forRange_keeps {σ : Type} {count : Nat} {body : Nat → σ → σ} (inv : Nat → σ → Prop)
    (turn : ∀ index state, index < count → inv index state → inv (index + 1) (body index state))
    {state : σ} (start : inv 0 state) : inv count (forRange count body state) :=
  @forRange_related σ σ count body body (fun index state _ => inv index state)
    (fun index state _ => turn index state) state state start

namespace Plc

/-- What only a loss and the recovery from it read. -/
structure Waveform (F : Type) where
  frozen : Nat → F
  lastQuarter : Nat → F
  overlap : Nat → F
  pitch : Nat
  cycle : Nat
  phase : Nat
  overlapLeft : Nat
  recoveryLength : Nat
  recoveryGain : F

def withWaveform (waveform : Waveform F) (plc : Plc F) : Plc F :=
  { plc with
    frozen := waveform.frozen
    lastQuarter := waveform.lastQuarter
    overlap := waveform.overlap
    pitch := waveform.pitch
    cycle := waveform.cycle
    phase := waveform.phase
    overlapLeft := waveform.overlapLeft
    recoveryLength := waveform.recoveryLength
    recoveryGain := waveform.recoveryGain }

/-- What a loss may leave behind of the losses before it. -/
structure Scraps (F : Type) where
  lastQuarter : Nat → F
  overlap : Nat → F
  recoveryLength : Nat
  recoveryGain : F

def withScraps (scraps : Scraps F) (plc : Plc F) : Plc F :=
  { plc with
    lastQuarter := scraps.lastQuarter
    overlap := scraps.overlap
    recoveryLength := scraps.recoveryLength
    recoveryGain := scraps.recoveryGain }

/-- Scraps that a sounding loss never reads. -/
structure Fits (plc : Plc F) (scraps : Scraps F) : Prop where
  lastQuarter : ∀ index < plc.pitch / 4, scraps.lastQuarter index = plc.lastQuarter index
  overlap : plc.overlapLeft ≠ 0 → ∀ index < plc.pitch / 4,
    scraps.overlap index = plc.overlap index
  overlap_le : plc.overlapLeft ≤ plc.pitch / 4

/-- Two workspaces that conceal alike: outside a loss the whole waveform is
free, within one its scraps are. -/
inductive Alike (plc : Plc F) : Plc F → Prop where
  | resting (waveform : Waveform F) (lost : plc.lost = 0) (recovered : plc.recoveryLeft = 0) :
      Alike plc (plc.withWaveform waveform)
  | sounding (scraps : Scraps F) (fits : plc.Fits scraps)
      (recovery : plc.recoveryLeft ≠ 0 → scraps.recoveryLength = plc.recoveryLength ∧
        scraps.recoveryGain = plc.recoveryGain) :
      Alike plc (plc.withScraps scraps)

/-- The sizes that the rate determines. -/
def scale (plc : Plc F) : List Nat :=
  [plc.historyLength, plc.lookahead, plc.minPitch, plc.maxPitch, plc.analysis, plc.tenMs,
    plc.fourMs]

section Loss

variable [Binary32 F] {plc : Plc F} {scraps : Scraps F}

/-- Joining the tail reads the last quarter and nothing else that may differ. -/
theorem smoothCycleTail_withScraps
    (agrees : ∀ index < plc.pitch / 4, scraps.lastQuarter index = plc.lastQuarter index) :
    ∃ frozen, plc.smoothCycleTail = { plc with frozen := frozen } ∧
      (plc.withScraps scraps).smoothCycleTail =
        { plc.withScraps scraps with frozen := frozen } := by
  refine forRange_related (fun _ state other => ∃ frozen, state = { plc with frozen := frozen } ∧
    other = { plc.withScraps scraps with frozen := frozen }) ?_ ⟨plc.frozen, rfl, rfl⟩
  rintro index _ _ inside ⟨frozen, rfl, rfl⟩
  refine ⟨_, rfl, ?_⟩
  simp only [withScraps, agrees index inside]

omit [Binary32 F] in
theorem rewriteTail_withScraps (plc : Plc F) (scraps : Scraps F) (length quarter : Nat) :
    ∃ history, plc.rewriteTail length quarter = { plc with history := history } ∧
      (plc.withScraps scraps).rewriteTail length quarter =
        { plc.withScraps scraps with history := history } := by
  refine forRange_related (fun _ state other => ∃ history,
    state = { plc with history := history } ∧
      other = { plc.withScraps scraps with history := history }) ?_ ⟨plc.history, rfl, rfl⟩
  rintro index _ _ - ⟨history, rfl, rfl⟩
  exact ⟨_, rfl, rfl⟩

theorem beginLossAt_withWaveform (plc : Plc F) (pitch : Nat) (waveform : Waveform F) :
    ∃ scraps : Scraps F, (plc.withWaveform waveform).beginLossAt pitch =
        (plc.beginLossAt pitch).withScraps scraps ∧
      (plc.beginLossAt pitch).Fits scraps ∧ (plc.beginLossAt pitch).scale = plc.scale ∧
      (plc.beginLossAt pitch).lost = plc.lost ∧
      (plc.beginLossAt pitch).recoveryLeft = plc.recoveryLeft := by
  let scraps : Scraps F :=
    { lastQuarter := ((plc.withWaveform waveform).freeze.adoptPitch pitch).lastQuarter
      overlap := waveform.overlap
      recoveryLength := waveform.recoveryLength
      recoveryGain := waveform.recoveryGain }
  have agrees : ∀ index < pitch / 4, scraps.lastQuarter index =
      (plc.freeze.adoptPitch pitch).lastQuarter index := fun index inside => by
    simp only [scraps, adoptPitch, if_pos inside, freeze, withWaveform]
  obtain ⟨frozen, smoothed, smoothedToo⟩ : ∃ frozen,
      (plc.freeze.adoptPitch pitch).smoothCycleTail =
        { plc.freeze.adoptPitch pitch with frozen := frozen } ∧
      ((plc.freeze.adoptPitch pitch).withScraps scraps).smoothCycleTail =
        { (plc.freeze.adoptPitch pitch).withScraps scraps with frozen := frozen } :=
    smoothCycleTail_withScraps agrees
  obtain ⟨history, rewritten, rewrittenToo⟩ :
      ∃ history, Plc.rewriteTail plc.historyLength (pitch / 4)
          { plc.freeze.adoptPitch pitch with frozen := frozen } =
            { plc.freeze.adoptPitch pitch with frozen := frozen, history := history } ∧
        Plc.rewriteTail plc.historyLength (pitch / 4)
          (withScraps scraps { plc.freeze.adoptPitch pitch with frozen := frozen }) = _ :=
    rewriteTail_withScraps { plc.freeze.adoptPitch pitch with frozen := frozen } scraps
      plc.historyLength (pitch / 4)
  have begun : plc.beginLossAt pitch =
      { plc.freeze.adoptPitch pitch with frozen := frozen, history := history } := by
    unfold beginLossAt
    rw [smoothed]
    exact rewritten
  have begunToo : (plc.withWaveform waveform).beginLossAt pitch = withScraps scraps
      { plc.freeze.adoptPitch pitch with frozen := frozen, history := history } := by
    unfold beginLossAt
    rw [show (plc.withWaveform waveform).freeze.adoptPitch pitch =
      (plc.freeze.adoptPitch pitch).withScraps scraps from rfl, smoothedToo]
    exact rewrittenToo
  refine ⟨scraps, begunToo.trans (by rw [begun]), ?_, ?_, ?_, ?_⟩ <;> rw [begun]
  · exact ⟨agrees, fun overlapping => (overlapping rfl).elim, Nat.zero_le _⟩
  all_goals rfl

omit [Binary32 F] in
theorem keepOverlap_withScraps (plc : Plc F) (scraps : Scraps F) (quarter : Nat) :
    ∃ overlap overlap' phase, (∀ index < quarter, overlap' index = overlap index) ∧
      plc.keepOverlap quarter = { plc with overlap := overlap, phase := phase } ∧
      (plc.withScraps scraps).keepOverlap quarter =
        { plc.withScraps scraps with overlap := overlap', phase := phase } := by
  refine forRange_related (fun kept state other => ∃ overlap overlap' phase,
    (∀ index < kept, overlap' index = overlap index) ∧
      state = { plc with overlap := overlap, phase := phase } ∧
      other = { plc.withScraps scraps with overlap := overlap', phase := phase }) ?_
    ⟨plc.overlap, scraps.overlap, plc.phase, fun _ none => (Nat.not_lt_zero _ none).elim,
      rfl, rfl⟩
  rintro kept _ _ - ⟨overlap, overlap', phase, agrees, rfl, rfl⟩
  refine ⟨_, _, _, fun index inside => ?_, rfl, rfl⟩
  rcases Nat.lt_succ_iff_lt_or_eq.mp inside with before | rfl
  · rw [Function.update_of_ne (Nat.ne_of_lt before), Function.update_of_ne (Nat.ne_of_lt before)]
    exact agrees index before
  · rw [Function.update_self, Function.update_self]
    rfl

theorem expandCycle_withScraps (plc : Plc F) (scraps : Scraps F)
    (agrees : ∀ index < plc.pitch / 4, scraps.lastQuarter index = plc.lastQuarter index) :
    ∃ scraps' : Scraps F, (plc.withScraps scraps).expandCycle =
        plc.expandCycle.withScraps scraps' ∧ plc.expandCycle.Fits scraps' ∧
      plc.expandCycle.scale = plc.scale ∧ plc.expandCycle.lost = plc.lost ∧
      plc.expandCycle.recoveryLeft = plc.recoveryLeft := by
  obtain ⟨overlap, overlap', phase, overlaps, kept, keptToo⟩ :=
    keepOverlap_withScraps plc scraps (plc.pitch / 4)
  let longer : Plc F := { plc with
    overlap := overlap
    phase := foldPhase plc.pitch plc.phase plc.phase
    cycle := plc.cycle + plc.pitch }
  obtain ⟨frozen, smoothed, smoothedToo⟩ : ∃ frozen,
      longer.smoothCycleTail = { longer with frozen := frozen } ∧
      (longer.withScraps { scraps with overlap := overlap' }).smoothCycleTail =
        { longer.withScraps { scraps with overlap := overlap' } with frozen := frozen } :=
    smoothCycleTail_withScraps agrees
  have expanded : plc.expandCycle =
      { longer with frozen := frozen, overlapLeft := plc.pitch / 4 } := by
    change ({ (smoothCycleTail { plc.keepOverlap (plc.pitch / 4) with
      phase := foldPhase (plc.keepOverlap (plc.pitch / 4)).pitch plc.phase plc.phase
      cycle := (plc.keepOverlap (plc.pitch / 4)).cycle +
        (plc.keepOverlap (plc.pitch / 4)).pitch } : Plc F) with overlapLeft := plc.pitch / 4 }) = _
    rw [kept]
    exact congrArg (fun plc : Plc F => { plc with overlapLeft := longer.pitch / 4 }) smoothed
  have expandedToo : (plc.withScraps scraps).expandCycle =
      withScraps { scraps with overlap := overlap' }
        { longer with frozen := frozen, overlapLeft := plc.pitch / 4 } := by
    change ({ (smoothCycleTail { (plc.withScraps scraps).keepOverlap (plc.pitch / 4) with
      phase := foldPhase ((plc.withScraps scraps).keepOverlap (plc.pitch / 4)).pitch
        plc.phase plc.phase
      cycle := ((plc.withScraps scraps).keepOverlap (plc.pitch / 4)).cycle +
        ((plc.withScraps scraps).keepOverlap (plc.pitch / 4)).pitch } : Plc F) with
          overlapLeft := plc.pitch / 4 }) = _
    rw [keptToo]
    exact congrArg (fun plc : Plc F => { plc with overlapLeft := longer.pitch / 4 }) smoothedToo
  refine ⟨{ scraps with overlap := overlap' }, expandedToo.trans (by rw [expanded]), ?_, ?_, ?_,
    ?_⟩ <;> rw [expanded]
  · exact ⟨agrees, fun _ => overlaps, Nat.le_refl _⟩
  all_goals rfl

theorem substitution_withScraps (fits : plc.Fits scraps) :
    (plc.withScraps scraps).substitution =
        (plc.substitution.1, plc.substitution.2.withScraps scraps) ∧
      plc.substitution.2.Fits scraps ∧ ∃ phase overlapLeft, plc.substitution.2 =
        { plc with phase := phase, overlapLeft := overlapLeft } := by
  unfold substitution continuation
  by_cases overlapping : plc.overlapLeft ≠ 0
  · have overlappingToo : (plc.withScraps scraps).overlapLeft ≠ 0 := overlapping
    simp only [if_pos overlapping, if_pos overlappingToo]
    have bound := fits.overlap_le
    have inside : plc.pitch / 4 - plc.overlapLeft < plc.pitch / 4 := by omega
    refine ⟨?_, ⟨fits.lastQuarter, fun _ => fits.overlap overlapping, ?_⟩, _, _, rfl⟩
    · have same := fits.overlap overlapping _ inside
      simp only [withScraps, same]
    · dsimp only
      omega
  · have overlappingToo : ¬(plc.withScraps scraps).overlapLeft ≠ 0 := overlapping
    simp only [if_neg overlapping, if_neg overlappingToo]
    exact ⟨rfl, ⟨fits.lastQuarter, fits.overlap, fits.overlap_le⟩, _, _, rfl⟩

end Loss

section Operations

variable [Binary32 F] {plc other : Plc F}

theorem Alike.delay (alike : plc.Alike other) (sample real : F) :
    (other.delay sample real).1 = (plc.delay sample real).1 ∧
      (plc.delay sample real).2.Alike (other.delay sample real).2 := by
  cases alike with
  | resting waveform lost recovered => exact ⟨rfl, .resting waveform lost recovered⟩
  | sounding scraps fits recovery =>
      exact ⟨rfl, .sounding scraps ⟨fits.lastQuarter, fits.overlap, fits.overlap_le⟩ recovery⟩

/-- Received PCM freezes the loss envelope. -/
def endLoss (plc : Plc F) : Plc F :=
  if plc.lost ≠ 0 then
    let length := min (plc.pitch / 4 + (ceilDiv plc.lost plc.tenMs - 1) * plc.fourMs) plc.tenMs
    { plc with
      recoveryLength := length
      recoveryLeft := length
      recoveryGain := plc.lossGain
      lost := 0 }
  else plc

/-- Received PCM replaces the repeated wave. -/
def crossfade (plc : Plc F) (sample : F) : F × Plc F :=
  if plc.recoveryLeft = 0 then (sample, plc)
  else
    (blend (plc.substitution.1 * plc.recoveryGain) sample
        (plc.recoveryLength - plc.recoveryLeft) plc.recoveryLength,
      { plc.substitution.2 with recoveryLeft := plc.recoveryLeft - 1 })

theorem recover_eq (sample : F) : plc.recover sample = plc.endLoss.crossfade sample :=
  rfl

theorem Alike.endLoss (alike : plc.Alike other) : plc.endLoss.Alike other.endLoss := by
  unfold Plc.endLoss
  cases alike with
  | resting waveform lost recovered =>
      have lostToo : (plc.withWaveform waveform).lost = 0 := lost
      rw [if_neg (not_not.mpr lost), if_neg (not_not.mpr lostToo)]
      exact .resting waveform lost recovered
  | sounding scraps fits recovery =>
      by_cases lost : plc.lost = 0
      · have lostToo : (plc.withScraps scraps).lost = 0 := lost
        rw [if_neg (not_not.mpr lost), if_neg (not_not.mpr lostToo)]
        exact .sounding scraps fits recovery
      · have lostToo : (plc.withScraps scraps).lost ≠ 0 := lost
        rw [if_pos lost, if_pos lostToo]
        exact .sounding { scraps with
            recoveryLength :=
              min (plc.pitch / 4 + (ceilDiv plc.lost plc.tenMs - 1) * plc.fourMs) plc.tenMs
            recoveryGain := plc.lossGain }
          ⟨fits.lastQuarter, fits.overlap, fits.overlap_le⟩ fun _ => ⟨rfl, rfl⟩

theorem Alike.crossfade (alike : plc.Alike other) (sample : F) :
    (other.crossfade sample).1 = (plc.crossfade sample).1 ∧
      (plc.crossfade sample).2.Alike (other.crossfade sample).2 := by
  unfold Plc.crossfade
  cases alike with
  | resting waveform lost recovered =>
      have recoveredToo : (plc.withWaveform waveform).recoveryLeft = 0 := recovered
      rw [if_pos recovered, if_pos recoveredToo]
      exact ⟨rfl, .resting waveform lost recovered⟩
  | sounding scraps fits recovery =>
      by_cases recovered : plc.recoveryLeft = 0
      · have recoveredToo : (plc.withScraps scraps).recoveryLeft = 0 := recovered
        rw [if_pos recovered, if_pos recoveredToo]
        exact ⟨rfl, .sounding scraps fits recovery⟩
      · have recoveredToo : (plc.withScraps scraps).recoveryLeft ≠ 0 := recovered
        rw [if_neg recovered, if_neg recoveredToo]
        obtain ⟨sameLength, sameGain⟩ := recovery recovered
        obtain ⟨same, fitsThen, phase, overlapLeft, thenEq⟩ := substitution_withScraps fits
        have sameLength' : (plc.withScraps scraps).recoveryLength = plc.recoveryLength := sameLength
        have sameGain' : (plc.withScraps scraps).recoveryGain = plc.recoveryGain := sameGain
        rw [same, sameLength', sameGain']
        refine ⟨rfl, .sounding scraps
          ⟨fitsThen.lastQuarter, fitsThen.overlap, fitsThen.overlap_le⟩ fun _ => ?_⟩
        rw [thenEq]
        exact ⟨sameLength, sameGain⟩

/-- Once a loss has begun nothing before it is read. -/
theorem Alike.begun (alike : plc.Alike other) (pitch : Nat) :
    ∃ begun : Plc F, ∃ scraps : Scraps F, begun.Fits scraps ∧ begun.recoveryLeft = 0 ∧
      (if plc.lost = 0 then beginLossAt pitch { plc with recoveryLeft := 0 }
        else { plc with recoveryLeft := 0 }) = begun ∧
      (if other.lost = 0 then beginLossAt pitch { other with recoveryLeft := 0 }
        else { other with recoveryLeft := 0 }) = begun.withScraps scraps := by
  have starts (waveform : Waveform F) (lost : plc.lost = 0) : ∃ scraps : Scraps F,
      (beginLossAt pitch { plc with recoveryLeft := 0 }).Fits scraps ∧
      (beginLossAt pitch { plc with recoveryLeft := 0 }).recoveryLeft = 0 ∧
      beginLossAt pitch { plc.withWaveform waveform with recoveryLeft := 0 } =
        (beginLossAt pitch { plc with recoveryLeft := 0 }).withScraps scraps := by
    obtain ⟨scraps, same, fits, -, -, recovered⟩ :=
      beginLossAt_withWaveform { plc with recoveryLeft := 0 } pitch waveform
    exact ⟨scraps, fits, recovered, same⟩
  cases alike with
  | resting waveform lost recovered =>
      have lostToo : (plc.withWaveform waveform).lost = 0 := lost
      rw [if_pos lost, if_pos lostToo]
      obtain ⟨scraps, fits, silent, same⟩ := starts waveform lost
      exact ⟨_, scraps, fits, silent, rfl, same⟩
  | sounding scraps fits recovery =>
      by_cases lost : plc.lost = 0
      · have lostToo : (plc.withScraps scraps).lost = 0 := lost
        rw [if_pos lost, if_pos lostToo]
        obtain ⟨scraps', fits', silent, same⟩ := starts
          ⟨plc.frozen, scraps.lastQuarter, scraps.overlap, plc.pitch, plc.cycle, plc.phase,
            plc.overlapLeft, scraps.recoveryLength, scraps.recoveryGain⟩ lost
        exact ⟨_, scraps', fits', silent, rfl, same⟩
      · have lostToo : (plc.withScraps scraps).lost ≠ 0 := lost
        rw [if_neg lost, if_neg lostToo]
        exact ⟨{ plc with recoveryLeft := 0 }, scraps,
          ⟨fits.lastQuarter, fits.overlap, fits.overlap_le⟩, rfl, rfl, rfl⟩

theorem Alike.concealAt (alike : plc.Alike other) (pitch : Nat) :
    (other.concealAt pitch).1 = (plc.concealAt pitch).1 ∧
      (plc.concealAt pitch).2.Alike (other.concealAt pitch).2 := by
  obtain ⟨begun, scraps, fits, silent, first, second⟩ := alike.begun pitch
  unfold Plc.concealAt
  dsimp only
  rw [first, second]
  -- The cycle grows in both or in neither.
  obtain ⟨grown, scraps', fits', silent', first', second'⟩ : ∃ grown : Plc F,
      ∃ scraps' : Scraps F, grown.Fits scraps' ∧ grown.recoveryLeft = 0 ∧
        (if begun.lost = begun.tenMs ∨ begun.lost = begun.tenMs * 2 then begun.expandCycle
          else begun) = grown ∧
        (if (begun.withScraps scraps).lost = (begun.withScraps scraps).tenMs ∨
            (begun.withScraps scraps).lost = (begun.withScraps scraps).tenMs * 2 then
          (begun.withScraps scraps).expandCycle
          else begun.withScraps scraps) = grown.withScraps scraps' := by
    by_cases grows : begun.lost = begun.tenMs ∨ begun.lost = begun.tenMs * 2
    · have growsToo : (begun.withScraps scraps).lost = (begun.withScraps scraps).tenMs ∨
        (begun.withScraps scraps).lost = (begun.withScraps scraps).tenMs * 2 := grows
      rw [if_pos grows, if_pos growsToo]
      obtain ⟨scraps', same, fits', -, -, recovered⟩ := expandCycle_withScraps _ _ fits.lastQuarter
      exact ⟨_, scraps', fits', recovered.trans silent, rfl, same⟩
    · have growsToo : ¬((begun.withScraps scraps).lost = (begun.withScraps scraps).tenMs ∨
        (begun.withScraps scraps).lost = (begun.withScraps scraps).tenMs * 2) := grows
      rw [if_neg grows, if_neg growsToo]
      exact ⟨_, scraps, fits, silent, rfl, rfl⟩
  rw [first', second']
  obtain ⟨same, fitsThen, phase, overlapLeft, thenEq⟩ := substitution_withScraps fits'
  rw [same]
  refine ⟨rfl, .sounding scraps'
    ⟨fitsThen.lastQuarter, fitsThen.overlap, fitsThen.overlap_le⟩ fun left => ?_⟩
  rw [thenEq] at left
  exact (left silent').elim

omit [Binary32 F] in
theorem Alike.freeze [Binary64 W] [Widening F W] (alike : plc.Alike other) :
    other.freeze.detectPitch W = plc.freeze.detectPitch W := by
  cases alike with
  | resting waveform lost recovered => rfl
  | sounding scraps fits recovery => rfl

theorem Alike.process [Binary64 W] [Widening F W] (alike : plc.Alike other) (input : Option F) :
    (other.process W input).1 = (plc.process W input).1 ∧
      (plc.process W input).2.Alike (other.process W input).2 := by
  rw [process_eq, process_eq, alike.freeze]
  cases input with
  | some sample =>
      obtain ⟨same, later⟩ := alike.endLoss.crossfade sample
      simp only [processAt, recover_eq, same]
      exact later.delay _ _
  | none =>
      obtain ⟨same, later⟩ := alike.concealAt (plc.freeze.detectPitch W)
      simp only [processAt, same]
      exact later.delay _ _

theorem Alike.drainSample (alike : plc.Alike other) :
    other.drainSample.1 = plc.drainSample.1 ∧ plc.drainSample.2.Alike other.drainSample.2 :=
  alike.delay 0 0

theorem alike_reset (same : other.scale = plc.scale) : plc.reset.Alike other.reset := by
  simp only [scale, List.cons.injEq, and_true] at same
  obtain ⟨historyLength, lookahead, minPitch, maxPitch, analysis, tenMs, fourMs⟩ := same
  have reset : other.reset = plc.reset.withWaveform
      ⟨other.frozen, other.lastQuarter, other.overlap, other.pitch, other.cycle, other.phase,
        other.overlapLeft, other.recoveryLength, other.recoveryGain⟩ := by
    simp only [Plc.reset, withWaveform, historyLength, lookahead, minPitch, maxPitch, analysis,
      tenMs, fourMs]
  rw [reset]
  exact .resting _ rfl rfl

theorem expandCycle_scale (plc : Plc F) : plc.expandCycle.scale = plc.scale := by
  obtain ⟨-, -, -, same, -⟩ := expandCycle_withScraps plc
    ⟨plc.lastQuarter, plc.overlap, 0, 0⟩ fun _ _ => rfl
  exact same

theorem substitution_scale (plc : Plc F) : plc.substitution.2.scale = plc.scale := by
  unfold substitution
  split <;> rfl

theorem beginLossAt_scale (plc : Plc F) (pitch : Nat) :
    (plc.beginLossAt pitch).scale = plc.scale := by
  obtain ⟨-, -, -, same, -⟩ := beginLossAt_withWaveform plc pitch
    ⟨plc.frozen, plc.lastQuarter, plc.overlap, 0, 0, 0, 0, 0, 0⟩
  exact same

theorem expanded_scale (grows : Prop) [Decidable grows] (plc : Plc F) :
    (if grows then plc.expandCycle else plc).scale = plc.scale := by
  split
  · exact expandCycle_scale plc
  · rfl

theorem processAt_scale (plc : Plc F) (pitch : Nat) (input : Option F) :
    (plc.processAt pitch input).2.scale = plc.scale := by
  cases input with
  | some sample =>
      have ended : plc.endLoss.scale = plc.scale := by
        unfold endLoss
        split <;> rfl
      have faded : (plc.endLoss.crossfade sample).2.scale = plc.endLoss.scale := by
        unfold crossfade
        split
        · rfl
        · exact substitution_scale _
      exact faded.trans ended
  | none =>
      unfold processAt concealAt
      dsimp only
      refine (substitution_scale _).trans ?_
      have begun : (if plc.lost = 0 then beginLossAt pitch { plc with recoveryLeft := 0 }
          else { plc with recoveryLeft := 0 }).scale = plc.scale := by
        split
        · exact beginLossAt_scale _ _
        · rfl
      exact (expanded_scale _ _).trans begun

theorem process_scale [Binary64 W] [Widening F W] (plc : Plc F) (input : Option F) :
    (plc.process W input).2.scale = plc.scale := by
  rw [process_eq]
  exact processAt_scale plc _ input

end Operations

end Plc

end PcmRing
