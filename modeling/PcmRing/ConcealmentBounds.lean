import PcmRing.CheckedConcealment

/-!
# Concealment stays in its buffers

Whatever pitch the search finds within its range, no check of the checked
concealment fails, and what it computes is what the unchecked functions compute.
-/

namespace PcmRing

open CheckedAccess

variable {F W : Type}

/-- The sizes that the rate determines, and how they fit. -/
structure Plc.Sized (plc : Plc F) : Prop where
  lookahead_pos : 0 < plc.lookahead
  minPitch_pos : 0 < plc.minPitch
  pitch_le : plc.minPitch ≤ plc.maxPitch
  quarter_le : plc.maxPitch / 4 ≤ plc.lookahead
  history_eq : plc.historyLength = plc.maxPitch * 3 + plc.lookahead
  analysis_le : plc.analysis ≤ plc.maxPitch * 2
  tenMs_pos : 0 < plc.tenMs
  tenMs_lt : plc.tenMs * 2 < 2 ^ 64 - 1

/-- The sizes of a workspace; no operation changes them. -/
def Plc.sizes (plc : Plc F) : List Nat :=
  [plc.historyLength, plc.lookahead, plc.minPitch, plc.maxPitch, plc.analysis, plc.tenMs]

theorem Plc.Sized.of_sizes {plc other : Plc F} (sized : plc.Sized)
    (same : other.sizes = plc.sizes) : other.Sized := by
  simp only [Plc.sizes, List.cons.injEq, and_true] at same
  obtain ⟨history, lookahead, low, high, analysis, tenMs⟩ := same
  constructor
  all_goals simp only [history, lookahead, low, high, analysis, tenMs]
  exacts [sized.lookahead_pos, sized.minPitch_pos, sized.pitch_le, sized.quarter_le,
    sized.history_eq, sized.analysis_le, sized.tenMs_pos, sized.tenMs_lt]

theorem Plc.tenMs_eq_of_sizes {plc other : Plc F} (same : other.sizes = plc.sizes) :
    other.tenMs = plc.tenMs := by
  simp only [Plc.sizes, List.cons.injEq, and_true] at same
  exact same.2.2.2.2.2

theorem Plc.sized_new [Binary32 F] {rate : Nat} (positive : 0 < rate) (word : rate < 2 ^ 32) :
    (Plc.new rate : Plc F).Sized := by
  constructor <;> simp only [Plc.new, plcDelay, ceilDiv] <;> omega

section Pitch

variable [Binary64 W] [Widening F W] {plc : Plc F}

theorem mul_lt_of_lt_ceilDiv {count divisor index : Nat} (lt : index < ceilDiv count divisor) :
    index * divisor < count := by
  unfold ceilDiv at lt
  rcases Nat.eq_zero_or_pos divisor with rfl | positive
  · simp at lt
  · have := (Nat.le_div_iff_mul_le positive).mp (Nat.succ_le_of_lt lt)
    rw [Nat.succ_mul] at this
    omega

variable (W)

theorem score_eq (sized : plc.Sized) {lag : Nat} (lagLe : lag ≤ plc.maxPitch) (step : Nat) :
    CheckedPlc.score W plc lag step = some (plc.score W lag step) := by
  have history := sized.history_eq
  have analysis := sized.analysis_le
  refine bind_eq (subtract_eq (by omega)) (bind_eq (loop_eq (fun _ => True)
    (fun index sums lt _ => ⟨?_, trivial⟩) trivial).1 rfl)
  -- The oldest sample that a lag reaches is still in the history.
  have inside := mul_lt_of_lt_ceilDiv lt
  exact bind_eq (read_eq (by omega)) (bind_eq (subtract_eq (by omega))
    (bind_eq (read_eq (by omega)) rfl))

theorem bestLag_eq (sized : plc.Sized) (step pitch : Nat) {lags : List Nat}
    (lagsLe : ∀ lag ∈ lags, lag ≤ plc.maxPitch) :
    CheckedPlc.bestLag W plc step lags pitch = some (plc.bestLag W step lags pitch) := by
  refine bind_eq (foldlM_eq (fun lag member best => ?_) _) rfl
  exact bind_eq (score_eq W sized (lagsLe lag member) step) rfl

/-- The best lag is one of the lags, unless it is the pitch before. -/
theorem bestLag_mem (plc : Plc F) (step pitch : Nat) (lags : List Nat) :
    plc.bestLag W step lags pitch = pitch ∨ plc.bestLag W step lags pitch ∈ lags := by
  unfold Plc.bestLag
  generalize startEq : ((Binary64.negInfinity, pitch) : W × Nat) = best
  obtain rfl : best.2 = pitch := by rw [← startEq]
  clear startEq
  induction lags generalizing best with
  | nil => exact .inl rfl
  | cons lag lags ih =>
      rw [List.foldl_cons]
      dsimp only
      split
      · rcases ih (plc.score W lag step, lag) with same | later
        · exact .inr (by rw [same]; exact List.mem_cons_self)
        · exact .inr (List.mem_cons_of_mem _ later)
      · rcases ih best with same | later
        · exact .inl same
        · exact .inr (List.mem_cons_of_mem _ later)

theorem detectPitch_eq (sized : plc.Sized) :
    CheckedPlc.detectPitch W plc = some (plc.detectPitch W) := by
  refine bind_eq (bestLag_eq W sized _ _ fun lag member => ?_)
    (bestLag_eq W sized _ _ fun lag member => ?_)
  · obtain ⟨index, inside, rfl⟩ := List.mem_map.mp member
    rw [List.mem_range] at inside
    omega
  · obtain ⟨index, inside, rfl⟩ := List.mem_map.mp member
    rw [List.mem_range] at inside
    omega

theorem detectPitch_mem (sized : plc.Sized) :
    plc.minPitch ≤ plc.detectPitch W ∧ plc.detectPitch W ≤ plc.maxPitch := by
  have order := sized.pitch_le
  have within (step pitch low count stride : Nat) (atLeast : plc.minPitch ≤ pitch)
      (atMost : pitch ≤ plc.maxPitch) (low_le : plc.minPitch ≤ low)
      (high_le : ∀ index < count, low + index * stride ≤ plc.maxPitch) :
      plc.minPitch ≤ plc.bestLag W step
        ((List.range count).map fun index => low + index * stride) pitch ∧
      plc.bestLag W step
        ((List.range count).map fun index => low + index * stride) pitch ≤ plc.maxPitch := by
    rcases bestLag_mem W plc step pitch
      ((List.range count).map fun index => low + index * stride) with same | member
    · rw [same]
      exact ⟨atLeast, atMost⟩
    · obtain ⟨index, inside, indexEq⟩ := List.mem_map.mp member
      rw [← indexEq]
      exact ⟨Nat.le_trans low_le (Nat.le_add_right _ _),
        high_le index (List.mem_range.mp inside)⟩
  obtain ⟨coarseLow, coarseHigh⟩ := within 2 plc.minPitch plc.minPitch
    ((plc.maxPitch + 2 - plc.minPitch) / 2) 2 (Nat.le_refl _) order (Nat.le_refl _)
    (fun index inside => by omega)
  unfold Plc.detectPitch
  dsimp only
  generalize plc.bestLag W 2 _ _ = pitch at coarseLow coarseHigh ⊢
  have fine := within 1 pitch (max (pitch - 1) plc.minPitch)
    (min (pitch + 1) plc.maxPitch + 1 - max (pitch - 1) plc.minPitch) 1 coarseLow coarseHigh
    (by omega) (fun index inside => by omega)
  simpa only [Nat.mul_one] using fine

end Pitch

/-- What repeats a cycle of the frozen history stays in the buffers. -/
structure Plc.InBuffers (plc : Plc F) : Prop where
  quarter_le : plc.pitch / 4 ≤ plc.lookahead
  periods : plc.cycle = plc.pitch ∨ plc.cycle = plc.pitch * 2 ∨ plc.cycle = plc.pitch * 3
  cycle_le : plc.cycle + plc.pitch / 4 ≤ plc.historyLength
  phase_lt : plc.phase < plc.cycle
  overlap_le : plc.overlapLeft ≤ plc.pitch / 4
  recovery_le : plc.recoveryLeft ≤ plc.recoveryLength

section Loss

variable [Binary32 F] {plc : Plc F}

theorem blend_eq {old new : F} {index count : Nat} (nonzero : count ≠ 0) :
    CheckedPlc.blend old new index count = some (blend old new index count) :=
  if_pos nonzero

theorem smoothCycleTail_eq (quarter_le : plc.pitch / 4 ≤ plc.lookahead)
    (cycle_le : plc.cycle + plc.pitch / 4 ≤ plc.historyLength) :
    CheckedPlc.smoothCycleTail plc = some plc.smoothCycleTail ∧
      ∃ frozen, plc.smoothCycleTail = { plc with frozen := frozen } := by
  refine loop_eq (fun state => ∃ frozen, state = { plc with frozen := frozen }) ?_
    ⟨plc.frozen, rfl⟩
  rintro index _ inside ⟨frozen, rfl⟩
  refine ⟨?_, _, rfl⟩
  exact bind_eq (read_eq (by dsimp only; omega)) (bind_eq (subtract_eq (by dsimp only; omega))
    (bind_eq (subtract_eq (by dsimp only; omega)) (bind_eq (read_eq (by dsimp only; omega))
      (bind_eq (blend_eq (by omega)) (bind_eq (subtract_eq (by dsimp only; omega))
        (bind_eq (write_eq (by dsimp only; omega)) rfl))))))

omit [Binary32 F] in
theorem rewriteTail_eq (plc : Plc F) {quarter : Nat} (quarter_le : quarter ≤ plc.historyLength)
    (positive : 0 < plc.historyLength) :
    CheckedPlc.rewriteTail plc.historyLength quarter plc =
        some (plc.rewriteTail plc.historyLength quarter) ∧
      ∃ history, plc.rewriteTail plc.historyLength quarter = { plc with history := history } := by
  refine loop_eq (fun state => ∃ history, state = { plc with history := history }) ?_
    ⟨plc.history, rfl⟩
  rintro index _ inside ⟨history, rfl⟩
  refine ⟨?_, _, rfl⟩
  exact bind_eq (subtract_eq (by dsimp only; omega)) (bind_eq (remainder_eq positive)
    (bind_eq (subtract_eq quarter_le) (bind_eq (read_eq (by omega))
      (bind_eq (write_eq (Nat.mod_lt _ positive)) rfl))))

theorem beginLoss_eq (sized : plc.Sized) {search : Plc F → Option Nat} {pitch : Nat}
    (found : search plc.freeze = some pitch) (pitch_le : pitch ≤ plc.maxPitch) :
    CheckedPlc.beginLoss search plc = some (plc.beginLossAt pitch) ∧
      ∃ history frozen lastQuarter, plc.beginLossAt pitch =
        { plc with
          history := history
          frozen := frozen
          lastQuarter := lastQuarter
          pitch := pitch
          cycle := pitch
          phase := 0
          overlapLeft := 0 } := by
  have historyEq := sized.history_eq
  have quarter := sized.quarter_le
  have positive : 0 < plc.historyLength := by
    have := sized.lookahead_pos
    omega
  have fits : pitch / 4 ≤ plc.lookahead := by omega
  have frozen : gather plc.historyLength (fun index => do
      let source ← remainder (plc.next + index) plc.historyLength
      read plc.historyLength plc.history source) = some plc.freeze.frozen :=
    gather_eq fun index => bind_eq (remainder_eq positive) (read_eq (Nat.mod_lt _ positive))
  obtain ⟨smoothed, tail, tailEq⟩ : CheckedPlc.smoothCycleTail (plc.freeze.adoptPitch pitch) =
      some (plc.freeze.adoptPitch pitch).smoothCycleTail ∧ _ :=
    smoothCycleTail_eq (by dsimp only [Plc.adoptPitch, Plc.freeze]; omega)
      (by dsimp only [Plc.adoptPitch, Plc.freeze]; omega)
  obtain ⟨rewritten, history, rewrittenEq⟩ :
      CheckedPlc.rewriteTail plc.historyLength (pitch / 4)
          { plc.freeze.adoptPitch pitch with frozen := tail } = _ ∧ _ :=
    rewriteTail_eq { plc.freeze.adoptPitch pitch with frozen := tail }
      (show pitch / 4 ≤ plc.historyLength by omega) positive
  constructor
  · refine bind_eq frozen (bind_eq found (bind_eq (subtract_eq (by omega))
      (bind_eq (copySlice_eq fits (Nat.sub_le _ _) (by omega))
        (bind_eq smoothed ?_))))
    unfold Plc.beginLossAt
    rw [tailEq]
    exact rewritten
  · refine ⟨history, tail, (plc.freeze.adoptPitch pitch).lastQuarter, ?_⟩
    unfold Plc.beginLossAt
    rw [tailEq]
    exact rewrittenEq

omit [Binary32 F] in
theorem continuation_eq (cycle_le : plc.cycle ≤ plc.historyLength)
    (phase_lt : plc.phase < plc.cycle) :
    CheckedPlc.continuation plc = some plc.continuation :=
  bind_eq (subtract_eq cycle_le) (bind_eq (read_eq (by omega))
    (bind_eq (remainder_eq (by omega)) rfl))

/-- The phase is brought into the first period in as many turns as it counts. -/
theorem foldPhase_eq {pitch : Nat} (positive : 0 < pitch) {fuel phase : Nat}
    (enough : phase ≤ fuel) :
    CheckedPlc.foldPhase pitch fuel phase = some (Plc.foldPhase pitch fuel phase) ∧
      Plc.foldPhase pitch fuel phase ≤ pitch := by
  induction fuel generalizing phase with
  | zero =>
      obtain rfl := Nat.le_zero.mp enough
      exact ⟨if_neg (Nat.not_lt_zero _), Nat.zero_le _⟩
  | succ fuel ih =>
      unfold CheckedPlc.foldPhase Plc.foldPhase
      split
      · rename_i longer
        have shorter : phase - pitch ≤ fuel := by omega
        obtain ⟨foldEq, foldLe⟩ := ih shorter
        exact ⟨bind_eq (subtract_eq (Nat.le_of_lt longer)) foldEq, foldLe⟩
      · rename_i within
        exact ⟨rfl, Nat.not_lt.mp within⟩

omit [Binary32 F] in
theorem keepOverlap_eq {quarter : Nat} (fits : quarter ≤ plc.lookahead)
    (cycle_le : plc.cycle ≤ plc.historyLength) (phase_lt : plc.phase < plc.cycle) :
    CheckedPlc.keepOverlap quarter plc = some (plc.keepOverlap quarter) ∧
      ∃ overlap phase, phase < plc.cycle ∧
        plc.keepOverlap quarter = { plc with overlap := overlap, phase := phase } := by
  refine loop_eq (fun state => ∃ overlap phase, phase < plc.cycle ∧
    state = { plc with overlap := overlap, phase := phase }) ?_
    ⟨plc.overlap, plc.phase, phase_lt, rfl⟩
  rintro index _ inside ⟨overlap, phase, lt, rfl⟩
  refine ⟨?_, _, _, Nat.mod_lt (phase + 1) (Nat.zero_lt_of_lt lt), rfl⟩
  exact bind_eq (continuation_eq cycle_le lt)
    (bind_eq (write_eq (Nat.lt_of_lt_of_le inside fits)) rfl)

theorem expandCycle_eq (buffers : plc.InBuffers) (positive : 0 < plc.pitch)
    (fits : plc.cycle + plc.pitch + plc.pitch / 4 ≤ plc.historyLength) :
    CheckedPlc.expandCycle plc = some plc.expandCycle ∧
      ∃ overlap frozen phase, phase ≤ plc.pitch ∧ plc.expandCycle =
        { plc with
          overlap := overlap
          frozen := frozen
          phase := phase
          cycle := plc.cycle + plc.pitch
          overlapLeft := plc.pitch / 4 } := by
  obtain ⟨kept, overlap, later, -, keptEq⟩ := keepOverlap_eq buffers.quarter_le
    (Nat.le_trans (Nat.le_add_right _ _) buffers.cycle_le) buffers.phase_lt
  obtain ⟨folded, foldedLe⟩ := foldPhase_eq positive (Nat.le_refl plc.phase)
  let lengthened : Plc F :=
    { plc with
      overlap := overlap
      phase := Plc.foldPhase plc.pitch plc.phase plc.phase
      cycle := plc.cycle + plc.pitch }
  obtain ⟨smoothed, frozen, smoothedEq⟩ : CheckedPlc.smoothCycleTail lengthened = some _ ∧ _ :=
    smoothCycleTail_eq buffers.quarter_le fits
  have expanded : plc.expandCycle =
      { lengthened.smoothCycleTail with overlapLeft := plc.pitch / 4 } := by
    change ({ (Plc.smoothCycleTail { plc.keepOverlap (plc.pitch / 4) with
      phase := Plc.foldPhase (plc.keepOverlap (plc.pitch / 4)).pitch plc.phase plc.phase
      cycle := (plc.keepOverlap (plc.pitch / 4)).cycle +
        (plc.keepOverlap (plc.pitch / 4)).pitch } : Plc F) with overlapLeft := plc.pitch / 4 }) = _
    rw [keptEq]
  constructor
  · unfold CheckedPlc.expandCycle
    rw [expanded]
    refine bind_eq kept ?_
    rw [keptEq]
    exact bind_eq folded (bind_eq smoothed rfl)
  · refine ⟨overlap, frozen, Plc.foldPhase plc.pitch plc.phase plc.phase, foldedLe, ?_⟩
    rw [expanded, smoothedEq]

theorem substitution_eq (buffers : plc.InBuffers) :
    CheckedPlc.substitution plc = some plc.substitution ∧
      ∃ phase left, phase < plc.cycle ∧ left ≤ plc.overlapLeft ∧
        plc.substitution.2 = { plc with phase := phase, overlapLeft := left } := by
  have quarter := buffers.quarter_le
  have overlap := buffers.overlap_le
  have phase_lt : (plc.phase + 1) % plc.cycle < plc.cycle :=
    Nat.mod_lt _ (Nat.zero_lt_of_lt buffers.phase_lt)
  have continued := continuation_eq (Nat.le_trans (Nat.le_add_right _ _) buffers.cycle_le)
    buffers.phase_lt
  unfold CheckedPlc.substitution Plc.substitution
  dsimp only
  split
  · refine ⟨bind_eq continued ?_, _, _, phase_lt, Nat.sub_le _ _, rfl⟩
    exact bind_eq (subtract_eq overlap) (bind_eq (read_eq (by omega))
      (bind_eq (blend_eq (by omega)) (bind_eq (subtract_eq (by omega)) rfl)))
  · exact ⟨bind_eq continued rfl, _, _, phase_lt, Nat.le_refl _, rfl⟩

theorem lossGain_eq (positive : 0 < plc.tenMs) :
    CheckedPlc.lossGain plc = some plc.lossGain :=
  if_pos (by omega)

end Loss

/-- The state of the workspace between two operations. -/
structure Plc.Bounded (plc : Plc F) : Prop where
  sized : plc.Sized
  next_lt : plc.next < plc.historyLength
  delayed_lt : plc.delayed < plc.lookahead
  recovery_le : plc.recoveryLeft ≤ plc.recoveryLength
  /-- A loss, or the recovery from it, has a cycle to repeat. -/
  sounding : plc.lost ≠ 0 ∨ plc.recoveryLeft ≠ 0 →
    plc.minPitch ≤ plc.pitch ∧ plc.pitch ≤ plc.maxPitch ∧ plc.InBuffers
  /-- The cycle grows after 10 and 20 ms and at no other time. -/
  first : plc.lost ≠ 0 → plc.lost ≤ plc.tenMs → plc.cycle = plc.pitch
  second : plc.lost ≠ 0 → plc.lost ≤ plc.tenMs * 2 → plc.cycle ≤ plc.pitch * 2

section Kept

variable [Binary32 F] {plc : Plc F}

theorem bounded_new {rate : Nat} (positive : 0 < rate) (word : rate < 2 ^ 32) :
    (Plc.new rate : Plc F).Bounded where
  sized := Plc.sized_new positive word
  next_lt := by
    have sized := Plc.sized_new (F := F) positive word
    have := sized.history_eq
    have := sized.lookahead_pos
    change 0 < (Plc.new rate : Plc F).historyLength
    omega
  delayed_lt := (Plc.sized_new positive word).lookahead_pos
  recovery_le := Nat.le_refl 0
  sounding sounds := sounds.elim (fun lost => (lost rfl).elim) fun left => (left rfl).elim
  first lost := (lost rfl).elim
  second lost := (lost rfl).elim

theorem Plc.Bounded.reset (bounded : plc.Bounded) : plc.reset.Bounded where
  sized := bounded.sized.of_sizes rfl
  next_lt := Nat.zero_lt_of_lt bounded.next_lt
  delayed_lt := Nat.zero_lt_of_lt bounded.delayed_lt
  recovery_le := Nat.zero_le _
  sounding sounds := sounds.elim (fun lost => (lost rfl).elim) fun left => (left rfl).elim
  first lost := (lost rfl).elim
  second lost := (lost rfl).elim

theorem delay_eq (bounded : plc.Bounded) (sample real : F) :
    CheckedPlc.delay plc sample real = some (plc.delay sample real) ∧
      (plc.delay sample real).2.Bounded := by
  have history := bounded.sized.history_eq
  have positive := Nat.zero_lt_of_lt bounded.next_lt
  constructor
  · exact bind_eq (subtract_eq (by omega)) (bind_eq (remainder_eq positive)
      (bind_eq (read_eq (Nat.mod_lt _ positive)) (bind_eq (read_eq bounded.delayed_lt)
        (bind_eq (write_eq bounded.next_lt) (bind_eq (write_eq bounded.delayed_lt)
          (bind_eq (remainder_eq positive)
            (bind_eq (remainder_eq bounded.sized.lookahead_pos) rfl)))))))
  · exact
      { sized := bounded.sized.of_sizes rfl
        next_lt := Nat.mod_lt _ positive
        delayed_lt := Nat.mod_lt _ bounded.sized.lookahead_pos
        recovery_le := bounded.recovery_le
        sounding := fun sounds =>
          have ⟨low, high, buffers⟩ := bounded.sounding sounds
          ⟨low, high, { buffers with }⟩
        first := bounded.first
        second := bounded.second }

/-- A workspace that has a cycle to repeat. -/
structure Plc.Voiced (plc : Plc F) : Prop where
  sized : plc.Sized
  next_lt : plc.next < plc.historyLength
  delayed_lt : plc.delayed < plc.lookahead
  pitch_low : plc.minPitch ≤ plc.pitch
  pitch_high : plc.pitch ≤ plc.maxPitch
  buffers : plc.InBuffers

omit [Binary32 F] in
theorem Plc.Voiced.pitch_pos (voiced : plc.Voiced) : 0 < plc.pitch :=
  Nat.lt_of_lt_of_le voiced.sized.minPitch_pos voiced.pitch_low

theorem Plc.Voiced.substitution (voiced : plc.Voiced) {sample : F × Plc F}
    (sampleEq : plc.substitution = sample) :
    sample.2.Voiced ∧ sample.2.recoveryLeft = plc.recoveryLeft ∧ sample.2.lost = plc.lost ∧
      sample.2.sizes = plc.sizes ∧ sample.2.pitch = plc.pitch ∧ sample.2.cycle = plc.cycle := by
  obtain ⟨phase, left, phase_lt, left_le, stateEq⟩ := (substitution_eq voiced.buffers).2
  rw [← sampleEq, stateEq]
  exact ⟨{ voiced with
    sized := voiced.sized.of_sizes rfl
    buffers := { voiced.buffers with
      phase_lt := phase_lt
      overlap_le := Nat.le_trans left_le voiced.buffers.overlap_le } }, rfl, rfl, rfl, rfl, rfl⟩

/-- The loss has a cycle to repeat from its first sample on. -/
theorem beginLoss_voiced (bounded : plc.Bounded) {search : Plc F → Option Nat} {pitch : Nat}
    (found : search plc.freeze = some pitch)
    (range : plc.minPitch ≤ pitch ∧ pitch ≤ plc.maxPitch) :
    CheckedPlc.beginLoss search plc = some (plc.beginLossAt pitch) ∧
      (plc.beginLossAt pitch).Voiced ∧ (plc.beginLossAt pitch).cycle = (plc.beginLossAt pitch).pitch ∧
      (plc.beginLossAt pitch).recoveryLeft = plc.recoveryLeft ∧
      (plc.beginLossAt pitch).lost = plc.lost ∧ (plc.beginLossAt pitch).sizes = plc.sizes := by
  have sized := bounded.sized
  obtain ⟨checked, history, frozen, lastQuarter, begunEq⟩ := beginLoss_eq sized found range.2
  refine ⟨checked, ?_⟩
  rw [begunEq]
  have historyEq := sized.history_eq
  have quarter := sized.quarter_le
  exact ⟨{ sized := sized.of_sizes rfl
           next_lt := bounded.next_lt
           delayed_lt := bounded.delayed_lt
           pitch_low := range.1
           pitch_high := range.2
           buffers :=
            { quarter_le := by dsimp only; omega
              periods := .inl rfl
              cycle_le := by dsimp only; omega
              phase_lt := Nat.lt_of_lt_of_le sized.minPitch_pos range.1
              overlap_le := Nat.zero_le _
              recovery_le := bounded.recovery_le } }, rfl, rfl, rfl, rfl⟩

theorem expandCycle_voiced (voiced : plc.Voiced) (short : plc.cycle ≤ plc.pitch * 2) :
    CheckedPlc.expandCycle plc = some plc.expandCycle ∧ plc.expandCycle.Voiced ∧
      plc.expandCycle.cycle = plc.cycle + plc.expandCycle.pitch ∧
      plc.expandCycle.pitch = plc.pitch ∧ plc.expandCycle.recoveryLeft = plc.recoveryLeft ∧
      plc.expandCycle.lost = plc.lost ∧ plc.expandCycle.sizes = plc.sizes := by
  have historyEq := voiced.sized.history_eq
  have quarter := voiced.sized.quarter_le
  have high := voiced.pitch_high
  have positive := voiced.pitch_pos
  have periods := voiced.buffers.periods
  obtain ⟨checked, overlap, frozen, phase, phase_le, expandedEq⟩ :=
    expandCycle_eq voiced.buffers positive (by omega)
  refine ⟨checked, ?_⟩
  rw [expandedEq]
  exact ⟨{ voiced with
    sized := voiced.sized.of_sizes rfl
    buffers := { voiced.buffers with
      periods := by dsimp only; omega
      cycle_le := by dsimp only; omega
      phase_lt := by dsimp only; omega
      overlap_le := Nat.le_refl _ } }, rfl, rfl, rfl, rfl, rfl⟩

/-- The state in the middle of a loss: `count` more samples are lost after the
ones that the cycle has grown for. -/
structure Plc.Losing (entry : Plc F) (count : Nat) (plc : Plc F) : Prop where
  voiced : plc.Voiced
  recovery_eq : plc.recoveryLeft = 0
  lost_eq : plc.lost = entry.lost
  sizes_eq : plc.sizes = entry.sizes
  first : entry.lost + count ≤ entry.tenMs → plc.cycle = plc.pitch
  second : entry.lost + count ≤ entry.tenMs * 2 → plc.cycle ≤ plc.pitch * 2

theorem begun_losing (bounded : plc.Bounded) {search : Plc F → Option Nat} {pitch : Nat}
    (found : search { plc with recoveryLeft := 0 }.freeze = some pitch)
    (range : plc.minPitch ≤ pitch ∧ pitch ≤ plc.maxPitch) :
    (if plc.lost = 0 then CheckedPlc.beginLoss search { plc with recoveryLeft := 0 }
        else some { plc with recoveryLeft := 0 }) =
      some (if plc.lost = 0 then { plc with recoveryLeft := 0 }.beginLossAt pitch
        else { plc with recoveryLeft := 0 }) ∧
      plc.Losing 0 (if plc.lost = 0 then { plc with recoveryLeft := 0 }.beginLossAt pitch
        else { plc with recoveryLeft := 0 }) := by
  have quieted : ({ plc with recoveryLeft := 0 } : Plc F).Bounded :=
    { bounded with
      sized := bounded.sized.of_sizes rfl
      recovery_le := Nat.zero_le _
      sounding := fun sounds =>
        have ⟨low, high, buffers⟩ :=
          bounded.sounding (sounds.elim .inl fun left => (left rfl).elim)
        ⟨low, high, { buffers with recovery_le := Nat.zero_le _ }⟩ }
  by_cases silent : plc.lost = 0
  · rw [if_pos silent, if_pos silent]
    obtain ⟨checked, voiced, cycleEq, recoveryEq, lostEq, sizesEq⟩ :=
      beginLoss_voiced quieted found range
    exact ⟨checked, voiced, recoveryEq, lostEq, sizesEq, fun _ => cycleEq,
      fun _ => by rw [cycleEq]; omega⟩
  · rw [if_neg silent, if_neg silent]
    obtain ⟨low, high, buffers⟩ := quieted.sounding (.inl silent)
    exact ⟨rfl, ⟨quieted.sized, quieted.next_lt, quieted.delayed_lt, low, high, buffers⟩, rfl, rfl,
      rfl, bounded.first silent, bounded.second silent⟩

theorem expanded_losing {entry : Plc F} (losing : entry.Losing 0 plc) :
    (if plc.lost = plc.tenMs ∨ plc.lost = plc.tenMs * 2 then CheckedPlc.expandCycle plc
        else some plc) =
      some (if plc.lost = plc.tenMs ∨ plc.lost = plc.tenMs * 2 then plc.expandCycle else plc) ∧
      entry.Losing 1
        (if plc.lost = plc.tenMs ∨ plc.lost = plc.tenMs * 2 then plc.expandCycle else plc) := by
  obtain ⟨voiced, recoveryEq, lostEq, sizesEq, first, second⟩ := losing
  have positive := voiced.sized.tenMs_pos
  have tenMsEq := Plc.tenMs_eq_of_sizes sizesEq
  split
  · rename_i boundary
    obtain ⟨checked, expanded, cycleEq, pitchEq, recoveryEq', lostEq', sizesEq'⟩ :=
      expandCycle_voiced voiced (second (by omega))
    refine ⟨checked, expanded, recoveryEq'.trans recoveryEq, lostEq'.trans lostEq,
      sizesEq'.trans sizesEq, fun early => by omega, fun early => ?_⟩
    have := first (by omega)
    omega
  · exact ⟨rfl, voiced, recoveryEq, lostEq, sizesEq, fun early => first (by omega),
      fun early => second (by omega)⟩

theorem conceal_eq (bounded : plc.Bounded) {search : Plc F → Option Nat} {pitch : Nat}
    (found : search { plc with recoveryLeft := 0 }.freeze = some pitch)
    (range : plc.minPitch ≤ pitch ∧ pitch ≤ plc.maxPitch) :
    CheckedPlc.conceal search plc = some (plc.concealAt pitch) ∧
      (plc.concealAt pitch).2.Bounded ∧ (plc.concealAt pitch).2.sizes = plc.sizes := by
  obtain ⟨begun, losing⟩ := begun_losing bounded found range
  obtain ⟨expanded, ready⟩ := expanded_losing losing
  obtain ⟨voiced, recoveryEq, lostEq, sizesEq, pitchEq, cycleEq⟩ := ready.voiced.substitution rfl
  constructor
  · refine bind_eq begun ?_
    refine bind_eq expanded ?_
    exact bind_eq (substitution_eq ready.voiced.buffers).1
      (bind_eq (lossGain_eq voiced.sized.tenMs_pos) rfl)
  · have lost := lostEq.trans ready.lost_eq
    have sizes := sizesEq.trans ready.sizes_eq
    have tenMs := Plc.tenMs_eq_of_sizes sizes
    have recovery := recoveryEq.trans ready.recovery_eq
    have first := ready.first
    have second := ready.second
    rw [← cycleEq, ← pitchEq] at first second
    have bound := voiced.sized.tenMs_lt
    unfold Plc.concealAt
    dsimp only
    generalize (Plc.substitution _ : F × Plc F) = sample
      at voiced recovery lost sizes tenMs first second bound ⊢
    generalize 2 ^ 64 - 1 = limit at bound ⊢
    exact
      ⟨{ sized := voiced.sized.of_sizes rfl
         next_lt := voiced.next_lt
         delayed_lt := voiced.delayed_lt
         recovery_le := voiced.buffers.recovery_le
         sounding := fun _ => ⟨voiced.pitch_low, voiced.pitch_high, { voiced.buffers with }⟩
         first := fun _ early => first (by dsimp only at early; omega)
         second := fun _ early => second (by dsimp only at early; omega) }, sizes⟩

theorem endLoss_eq (bounded : plc.Bounded) (lost : plc.lost ≠ 0) :
    ∃ ended, CheckedPlc.endLoss plc = some ended ∧ ended.Bounded ∧
      ended.lost = 0 ∧ ended.sizes = plc.sizes ∧
        ∀ sample, plc.recover sample = ended.recover sample := by
  have positive := bounded.sized.tenMs_pos
  obtain ⟨low, high, buffers⟩ := bounded.sounding (.inl lost)
  refine ⟨_, (if_pos (Nat.ne_of_gt positive)).trans (bind_eq (lossGain_eq positive) rfl), ?_, rfl,
    rfl, fun sample => ?_⟩
  · exact
      { sized := bounded.sized.of_sizes rfl
        next_lt := bounded.next_lt
        delayed_lt := bounded.delayed_lt
        recovery_le := Nat.le_refl _
        sounding := fun _ => ⟨low, high, { buffers with recovery_le := Nat.le_refl _ }⟩
        first := fun lost => (lost rfl).elim
        second := fun lost => (lost rfl).elim }
  · unfold Plc.recover
    rw [if_pos lost]
    rfl

theorem recovery_eq (bounded : plc.Bounded) (silent : plc.lost = 0) (sample : F) :
    CheckedPlc.recover plc sample = some (plc.recover sample) ∧
      (plc.recover sample).2.Bounded ∧ (plc.recover sample).2.sizes = plc.sizes := by
  unfold CheckedPlc.recover Plc.recover
  rw [if_neg (not_not.mpr silent), if_neg (not_not.mpr silent)]
  by_cases recovered : plc.recoveryLeft = 0
  · rw [if_pos recovered]
    exact ⟨bind_eq rfl (if_pos recovered), bounded, rfl⟩
  · rw [if_neg recovered]
    obtain ⟨low, high, buffers⟩ := bounded.sounding (.inr recovered)
    have voiced : plc.Voiced := ⟨bounded.sized, bounded.next_lt, bounded.delayed_lt, low, high,
      buffers⟩
    obtain ⟨later, recoveryEq, lostEq, sizesEq, -, -⟩ := voiced.substitution rfl
    have shorter := bounded.recovery_le
    constructor
    · refine bind_eq rfl ((if_neg recovered).trans ?_)
      refine bind_eq (substitution_eq buffers).1 (bind_eq (subtract_eq shorter)
        (bind_eq (blend_eq (by omega)) (bind_eq (subtract_eq (by omega)) rfl)))
    · dsimp only
      generalize (Plc.substitution plc : F × Plc F) = old at later recoveryEq lostEq sizesEq ⊢
      have nowLe := later.buffers.recovery_le
      exact
        ⟨{ sized := later.sized.of_sizes rfl
           next_lt := later.next_lt
           delayed_lt := later.delayed_lt
           recovery_le := by dsimp only; omega
           sounding := fun _ => ⟨later.pitch_low, later.pitch_high,
             { later.buffers with recovery_le := by dsimp only; omega }⟩
           first := fun lost => (lost (lostEq.trans silent)).elim
           second := fun lost => (lost (lostEq.trans silent)).elim }, sizesEq⟩

theorem recover_eq (bounded : plc.Bounded) (sample : F) :
    CheckedPlc.recover plc sample = some (plc.recover sample) ∧
      (plc.recover sample).2.Bounded ∧ (plc.recover sample).2.sizes = plc.sizes := by
  by_cases silent : plc.lost = 0
  · exact recovery_eq bounded silent sample
  · obtain ⟨ended, checked, endedBounded, lostEq, sizesEq, same⟩ := endLoss_eq bounded silent
    obtain ⟨recovered, kept, sizes⟩ := recovery_eq endedBounded lostEq sample
    rw [same]
    refine ⟨?_, kept, sizes.trans sizesEq⟩
    unfold CheckedPlc.recover at recovered ⊢
    rw [if_neg (not_not.mpr lostEq)] at recovered
    rw [if_pos silent]
    exact bind_eq checked recovered

theorem process_checked (bounded : plc.Bounded) (search : Plc F → Option Nat) {pitch : Nat}
    (found : search { plc with recoveryLeft := 0 }.freeze = some pitch)
    (range : plc.minPitch ≤ pitch ∧ pitch ≤ plc.maxPitch) (input : Option F) :
    CheckedPlc.process search plc input = some (plc.processAt pitch input) ∧
      (plc.processAt pitch input).2.Bounded ∧ (plc.processAt pitch input).2.sizes = plc.sizes := by
  cases input with
  | some sample =>
      obtain ⟨recovered, kept, sizes⟩ := recover_eq bounded sample
      obtain ⟨delayed, last⟩ := delay_eq kept (plc.recover sample).1 1
      exact ⟨bind_eq recovered delayed, last, sizes⟩
  | none =>
      obtain ⟨concealed, kept, sizes⟩ := conceal_eq bounded found range
      obtain ⟨delayed, last⟩ := delay_eq kept (plc.concealAt pitch).1 0
      exact ⟨bind_eq concealed delayed, last, sizes⟩

end Kept

/-- One operation.  The pitch is what the search finds if a loss begins. -/
inductive PlcCall (F : Type) where
  | process (input : Option F) (pitch : Nat)
  | drain
  | reset

namespace PlcCall

/-- The pitch is within the range of the rate. -/
def Finds (rate : Nat) : PlcCall F → Prop
  | .process _ pitch => ceilDiv (rate * 5) 1000 ≤ pitch ∧ pitch ≤ ceilDiv (rate * 15) 1000
  | .drain | .reset => True

variable [Binary32 F]

def run (plc : Plc F) : PlcCall F → Plc F
  | .process input pitch => (plc.processAt pitch input).2
  | .drain => plc.drainSample.2
  | .reset => plc.reset

def checked (plc : Plc F) : PlcCall F → Option (Plc F)
  | .process input pitch => do
      let next ← CheckedPlc.process (fun _ => some pitch) plc input
      return next.2
  | .drain => do
      let next ← CheckedPlc.drainSample plc
      return next.2
  | .reset => return plc.reset

theorem checked_eq {plc : Plc F} {rate : Nat} (bounded : plc.Bounded)
    (sizes : plc.sizes = (Plc.new rate : Plc F).sizes) {call : PlcCall F}
    (finds : call.Finds rate) :
    call.checked plc = some (call.run plc) ∧ (call.run plc).Bounded ∧
      (call.run plc).sizes = plc.sizes := by
  cases call with
  | process input pitch =>
      simp only [Plc.sizes, List.cons.injEq, and_true] at sizes
      have range : plc.minPitch ≤ pitch ∧ pitch ≤ plc.maxPitch := by
        rw [sizes.2.2.1, sizes.2.2.2.1]
        exact finds
      obtain ⟨processed, kept, same⟩ :=
        process_checked bounded (fun _ => some pitch) rfl range input
      exact ⟨bind_eq processed rfl, kept, same⟩
  | drain =>
      obtain ⟨drained, kept⟩ := delay_eq bounded 0 0
      exact ⟨bind_eq drained rfl, kept, rfl⟩
  | reset => exact ⟨rfl, bounded.reset, rfl⟩

end PlcCall

section Runs

variable [Binary32 F]

/-- What holds after operations on a new workspace. -/
structure ConcealmentBounded (W : Type) [Binary64 W] [Widening F W] (plc : Plc F) : Prop where
  bounded : plc.Bounded
  /-- While a loss is concealed or faded out. -/
  buffers : plc.lost ≠ 0 ∨ plc.recoveryLeft ≠ 0 → plc.InBuffers
  /-- The search that begins the next loss stays in bounds and in its range. -/
  searched : CheckedPlc.detectPitch W plc.freeze = some (plc.freeze.detectPitch W) ∧
    plc.minPitch ≤ plc.freeze.detectPitch W ∧ plc.freeze.detectPitch W ≤ plc.maxPitch
  /-- With what it finds, the next sample is the one that is computed unchecked. -/
  processed : ∀ input, CheckedPlc.process (CheckedPlc.detectPitch W) plc input =
    some (plc.process W input)

theorem concealmentBounded_of_bounded (W : Type) [Binary64 W] [Widening F W] {plc : Plc F}
    (bounded : plc.Bounded) : ConcealmentBounded W plc := by
  have frozen : plc.freeze.Sized := bounded.sized.of_sizes rfl
  have quieted : ({ plc with recoveryLeft := 0 } : Plc F).freeze.Sized :=
    bounded.sized.of_sizes rfl
  have found := detectPitch_mem W frozen
  refine ⟨bounded, fun sounds => (bounded.sounding sounds).2.2, ⟨detectPitch_eq W frozen, found⟩,
    fun input => ?_⟩
  rw [Plc.process_eq]
  exact (process_checked bounded _ (detectPitch_eq W quieted) found input).1

/-- Whatever is played, lost, drained and reset, and whatever pitches within the
range the search finds, no check fails. -/
theorem concealment_bounded (W : Type) [Binary64 W] [Widening F W] {rate : Nat}
    (positive : 0 < rate) (word : rate < 2 ^ 32) (calls : List (PlcCall F))
    (finds : ∀ call ∈ calls, call.Finds rate) :
    ∃ plc, calls.foldlM PlcCall.checked (Plc.new rate) = some plc ∧
      plc = calls.foldl PlcCall.run (Plc.new rate) ∧ ConcealmentBounded W plc := by
  suffices kept : ∀ plc : Plc F, plc.Bounded → plc.sizes = (Plc.new rate : Plc F).sizes →
      calls.foldlM PlcCall.checked plc = some (calls.foldl PlcCall.run plc) ∧
        (calls.foldl PlcCall.run plc).Bounded by
    obtain ⟨checked, bounded⟩ := kept _ (bounded_new positive word) rfl
    exact ⟨_, checked, rfl, concealmentBounded_of_bounded W bounded⟩
  induction calls with
  | nil => exact fun plc bounded _ => ⟨rfl, bounded⟩
  | cons call calls ih =>
      intro plc bounded sizes
      obtain ⟨checked, kept, same⟩ := PlcCall.checked_eq bounded sizes (finds call (by simp))
      obtain ⟨rest, last⟩ := ih (fun other member => finds other (by simp [member])) _ kept
        (same.trans sizes)
      exact ⟨bind_eq checked rest, last⟩

/-- At 800 samples a second a loss outlasts 10 ms, with periods of eight samples, and
audio returns while the longer cycle is joined. -/
def expandedLoss : List (PlcCall ℚ) :=
  [.process (some (1 / 2)) 4, .process (some (-1 / 4)) 4] ++ List.replicate 9 (.process none 8) ++
    [.process (some 1) 8, .process (some (-1)) 8, .drain]

theorem expandedLoss_finds : ∀ call ∈ expandedLoss, call.Finds 800 := by
  simp [expandedLoss, PlcCall.Finds, ceilDiv]

/-- Two periods are repeated, and four of the six samples of the fade are to come. -/
theorem concealment_bounded_expanded :
    ∃ plc, expandedLoss.foldlM PlcCall.checked (Plc.new 800) = some plc ∧
      plc.cycle = 16 ∧ plc.recoveryLength = 6 ∧ plc.recoveryLeft = 4 ∧
      ConcealmentBounded ℚ plc := by
  obtain ⟨plc, checked, ran, bounded⟩ :=
    concealment_bounded ℚ (by decide) (by decide) expandedLoss expandedLoss_finds
  have reached : (expandedLoss.foldl PlcCall.run (Plc.new 800)).cycle = 16 ∧
      (expandedLoss.foldl PlcCall.run (Plc.new 800)).recoveryLength = 6 ∧
      (expandedLoss.foldl PlcCall.run (Plc.new 800)).recoveryLeft = 4 := by decide +kernel
  rw [← ran] at reached
  exact ⟨plc, checked, reached.1, reached.2.1, reached.2.2, bounded⟩

end Runs

end PcmRing
