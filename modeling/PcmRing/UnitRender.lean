import PcmRing.UnitRate

/-!
# One render at unit rate

A render that nothing interrupts emits the next slot of the stream if one was
accepted, whatever is in the queue, the workspace and the cache, and a shortfall
otherwise; a finite boundary is found exactly behind the last slot.
-/

namespace PcmRing

open TwoLapQueue

variable {F W : Type}

/-- One base explains every stamp of a stream, so no slot stops at the fence. -/
def Contiguous (line : List (SourceSample F)) : Prop :=
  ∃ base : Nat × Int, ∀ (index : Nat) slot mark,
    (line)[index]? = some slot → slot.stamp = some mark →
    base = (mark.generation, (mark.source : Int) - index)

/-- Nothing of the stream was dropped: behind what was taken comes what can be read. -/
structure Split (line : List (SourceSample F)) (taken : Nat) (slots : List (SourceSample F)) :
    Prop where
  whole : line.length = taken + slots.length
  rest : line.drop taken = slots

theorem Split.cons {line rest : List (SourceSample F)} {taken : Nat} {slot : SourceSample F}
    (split : Split line taken (slot :: rest)) :
    (line)[taken]? = some slot ∧ Split line (taken + 1) rest := by
  have whole := split.whole
  rw [List.length_cons] at whole
  refine ⟨?_, ?_, ?_⟩
  · rw [← List.head?_drop, split.rest]
    rfl
  · omega
  · rw [← List.drop_drop, split.rest]
    rfl

/-- What a refill leaves alone. -/
structure SameBeside (before after : ConsumerState F Unit W) : Prop where
  finite_eq : after.finite = before.finite
  quiet_eq : after.quiet = before.quiet
  plc_eq : after.plc = before.plc
  primed_eq : after.primed = before.primed
  resetFailed_eq : after.resetFailed = before.resetFailed
  muteHistory_eq : after.muteHistory = before.muteHistory
  muteFault_eq : after.muteFault = before.muteFault
  plcPositions_eq : after.plcPositions = before.plcPositions
  plcPosition_eq : after.plcPosition = before.plcPosition

theorem SameBeside.refl (state : ConsumerState F Unit W) : SameBeside state state :=
  ⟨rfl, rfl, rfl, rfl, rfl, rfl, rfl, rfl, rfl⟩

theorem SameBeside.trans {first middle last : ConsumerState F Unit W}
    (before : SameBeside first middle) (after : SameBeside middle last) :
    SameBeside first last where
  finite_eq := after.finite_eq.trans before.finite_eq
  quiet_eq := after.quiet_eq.trans before.quiet_eq
  plc_eq := after.plc_eq.trans before.plc_eq
  primed_eq := after.primed_eq.trans before.primed_eq
  resetFailed_eq := after.resetFailed_eq.trans before.resetFailed_eq
  muteHistory_eq := after.muteHistory_eq.trans before.muteHistory_eq
  muteFault_eq := after.muteFault_eq.trans before.muteFault_eq
  plcPositions_eq := after.plcPositions_eq.trans before.plcPositions_eq
  plcPosition_eq := after.plcPosition_eq.trans before.plcPosition_eq

section Taking

variable [Zero F] {line slots : List (SourceSample F)} {state : ConsumerState F Unit W}

theorem InOrder.fence_passes (ordered : InOrder line state) (contiguous : Contiguous line)
    {slot : SourceSample F} (slotAt : (line)[state.sourceTaken]? = some slot) :
    ∃ base, state.fence slot.stamp = (true, { state with sourceBase := base }) := by
  obtain ⟨base, explains⟩ := contiguous
  rcases state.fence_cases slot.stamp with
    ⟨-, fenced⟩ | ⟨mark, -, -, fenced⟩ | ⟨mark, stamped, breaks, -⟩
  · exact ⟨state.sourceBase, fenced⟩
  · exact ⟨_, fenced⟩
  · refine (breaks ?_).elim
    have markEq := explains _ _ _ slotAt stamped
    have baseEq : state.baseOf mark =
        (mark.generation, (mark.source : Int) - state.sourceTaken) := by
      unfold ConsumerState.baseOf
      cases found : state.sourceBase with
      | none =>
          rfl
      | some base' =>
          obtain ⟨index, -, other, mark', otherAt, stamped', base'Eq⟩ := ordered.based base' found
          rw [Option.getD_some, base'Eq, ← explains _ _ _ otherAt stamped', markEq]
    unfold ConsumerState.Continues
    rw [baseEq]
    exact ⟨rfl, by dsimp only; omega⟩

omit [Zero F] in
/-- An accepted slot leaves everything beside the workspace alone. -/
theorem acceptSource_beside {gapCapacity : Nat} {slot : SourceSample F}
    (accepted : (state.acceptSource gapCapacity slot).1 = true) :
    SameBeside state (state.acceptSource gapCapacity slot).2 ∧
      (state.acceptSource gapCapacity slot).2.ratio = state.ratio ∧
      (state.acceptSource gapCapacity slot).2.nextIndex = state.nextIndex ∧
      (state.acceptSource gapCapacity slot).2.inputPadding = state.inputPadding := by
  have fenced : (state.fence slot.stamp).1 = true → ∃ base,
      (state.fence slot.stamp).2 = { state with sourceBase := base } := by
    rcases state.fence_cases slot.stamp with
      ⟨-, fenced⟩ | ⟨mark, -, -, fenced⟩ | ⟨mark, -, -, fenced⟩ <;> rw [fenced]
    · exact fun _ => ⟨state.sourceBase, rfl⟩
    · exact fun _ => ⟨_, rfl⟩
    · exact fun refused => by cases refused
  rcases state.acceptSource_cases gapCapacity slot with
    ⟨gaps, continues, -, resultEq⟩ | ⟨-, resultEq⟩ | ⟨-, -, -, resultEq⟩
  · obtain ⟨base, fencedEq⟩ := fenced continues
    rw [resultEq, fencedEq]
    exact ⟨⟨rfl, rfl, rfl, rfl, rfl, rfl, rfl, rfl, rfl⟩, rfl, rfl, rfl⟩
  · rw [resultEq] at accepted
    cases accepted
  · rw [resultEq] at accepted
    cases accepted

/-- What taking slots leaves behind. -/
structure TookAll (line : List (SourceSample F)) (wanted : Nat)
    (before : ConsumerState F Unit W) (slots : List (SourceSample F))
    (taken : (Bool × ConsumerState F Unit W) × List (SourceSample F)) : Prop where
  accepted : taken.1.1 = true
  ordered : InOrder line taken.1.2
  split : Split line taken.1.2.sourceTaken taken.2
  beside : SameBeside before taken.1.2
  ratio_eq : taken.1.2.ratio = before.ratio
  cached_eq : taken.1.2.outputPending = before.outputPending
  next_eq : taken.1.2.nextIndex = before.nextIndex
  pending_eq : before.inputPadding = false →
    taken.1.2.inputPending = before.inputPending + min wanted slots.length
  padding_eq : taken.1.2.inputPadding = before.inputPadding
  padded : before.inputPadding = true → taken.1.2 = before ∧ taken.2 = slots

theorem takeAll_unit (contiguous : Contiguous line) {capacity gapCapacity : Nat}
    (reserved : capacity < gapCapacity) (wanted : Nat) (ordered : InOrder line state)
    (split : Split line state.sourceTaken slots)
    (fits : 0 < wanted → state.inputPending + wanted ≤ capacity) :
    TookAll line wanted state slots (state.takeAll gapCapacity wanted slots) := by
  induction wanted generalizing state slots with
  | zero =>
      exact ⟨rfl, ordered, split, .refl state, rfl, rfl, rfl, fun _ => (by simp [
        ConsumerState.takeAll]), rfl, fun _ => ⟨rfl, rfl⟩⟩
  | succ wanted ih =>
      cases slots with
      | nil =>
          exact ⟨rfl, ordered, split, .refl state, rfl, rfl, rfl, fun _ => (by simp [
            ConsumerState.takeAll]), rfl, fun _ => ⟨rfl, rfl⟩⟩
      | cons slot rest =>
          unfold ConsumerState.takeAll
          by_cases padding : state.inputPadding = true
          · rw [if_pos padding]
            exact ⟨rfl, ordered, split, .refl state, rfl, rfl, rfl,
              fun unpadded => Bool.noConfusion (padding.symm.trans unpadded), rfl,
              fun _ => ⟨rfl, rfl⟩⟩
          rw [if_neg padding]
          have unpadded := Bool.eq_false_iff.mpr padding
          have room := fits (Nat.succ_pos wanted)
          obtain ⟨slotAt, later⟩ := split.cons
          obtain ⟨base, fenced⟩ := ordered.fence_passes contiguous slotAt
          have short := ordered.room unpadded (show state.inputPending < capacity by omega) reserved
          have accepted : (state.acceptSource gapCapacity slot).1 = true := by
            rcases state.acceptSource_cases gapCapacity slot with
              ⟨gaps, -, -, resultEq⟩ | ⟨refused, -⟩ | ⟨-, -, full, -⟩
            · rw [resultEq]
            · rw [fenced] at refused
              cases refused
            · rw [extendGaps_none full] at short
              exact (Nat.lt_irrefl _ short).elim
          have takenEq := (state.acceptSource_count gapCapacity slot).1
          rw [if_pos accepted] at takenEq
          have grown := state.acceptSource_inputPending gapCapacity slot accepted
          obtain ⟨beside, ratioEq, nextEq, paddingEq⟩ := acceptSource_beside accepted
          have cachedEq := (state.acceptSource_keeps gapCapacity slot).outputPending_eq
          dsimp only
          rw [if_pos accepted]
          have more := ih (ordered.acceptSource unpadded slotAt accepted) (takenEq.symm ▸ later)
            (fun _ => by omega)
          exact
            { accepted := more.accepted
              ordered := more.ordered
              split := more.split
              beside := beside.trans more.beside
              ratio_eq := more.ratio_eq.trans ratioEq
              cached_eq := more.cached_eq.trans cachedEq
              next_eq := more.next_eq.trans nextEq
              pending_eq := fun _ => by
                rw [more.pending_eq (paddingEq.trans unpadded), grown, List.length_cons]
                omega
              padding_eq := more.padding_eq.trans paddingEq
              padded := fun padded => (padding padded).elim }

end Taking

section Refilling

variable [Binary32 F] [Binary64 W] [OrderedBinary64 W] {geometry : Geometry}
  {line slots : List (SourceSample F)} {state : ConsumerState F Unit W}

/-- What conversion at unit rate relies on. -/
structure Geometry.AtUnitRate (W : Type) [Binary64 W] [OrderedBinary64 W] (geometry : Geometry) :
    Prop where
  sized : 0 < geometry.capacity
  reserved : geometry.capacity < geometry.gapCapacity
  targetLt : geometry.target < 2 ^ 32
  nominal : Bounded (nominalRatio W geometry.outputRateHz geometry.inputRateHz)

omit [Binary32 F] in
/-- The clock control only sets the ratio, within the bounds. -/
theorem steered_unit (unit : geometry.AtUnitRate W) (ratio : RatioSet state.ratio)
    (occupancy : Nat) : ∃ smoothed ratio, Bounded ratio ∧
      state.steered geometry occupancy =
        { state with occupancyMilli := smoothed, ratio := ratio } := by
  unfold ConsumerState.steered
  split
  · exact ⟨_, _, steeredRatio_bounded unit.targetLt unit.nominal ratio _, rfl⟩
  · split
    · exact ⟨state.occupancyMilli, _, unit.nominal, rfl⟩
    · rename_i nonzero
      refine ⟨state.occupancyMilli, _, ratio.resolve_left fun cleared => nonzero ?_, rfl⟩
      have zeroEq := value_int (W := W) 0 (by decide)
      have compared := LawfulBinary64.eq_eq _ _ _ _ cleared zeroEq
      push_cast at compared
      rw [compared, decide_eq_true rfl]

/-- What one conversion leaves behind. -/
structure ConvertsTo (line : List (SourceSample F)) (before : ConsumerState F Unit W)
    (converted : RefillResult × ConsumerState F Unit W) : Prop where
  ordered : InOrder line converted.2
  beside : SameBeside before converted.2
  ratio : RatioSet converted.2.ratio
  next_eq : converted.2.nextIndex = before.converterAccepted
  taken_eq : converted.2.sourceTaken = before.sourceTaken
  padding_eq : converted.2.inputPadding = before.inputPadding
  result : converted.1 = if before.inputPending = 0 then .starved else .ready
  cached : before.inputPending ≠ 0 → converted.2.outputPending ≠ 0
  uncached : before.inputPending = 0 → converted.2.outputPending = 0

theorem convert_unitRate (unit : geometry.AtUnitRate W) (ordered : InOrder line state)
    (empty : state.outputPending = 0) (bounded : Bounded state.ratio) {quantum : Nat}
    (positive : 0 < quantum) :
    ConvertsTo line state (state.convert unitConverter geometry quantum) := by
  have kept := ordered.convert bounded.usable empty unit.sized positive
  rcases Nat.eq_zero_or_pos state.inputPending with none | some
  · rw [ConsumerState.convert_unit_empty bounded.usable positive none unit.sized] at kept ⊢
    exact
      { ordered := kept
        beside := ⟨rfl, rfl, rfl, rfl, rfl, rfl, rfl, rfl, rfl⟩
        ratio := .inr bounded
        next_eq := rfl
        taken_eq := rfl
        padding_eq := rfl
        result := (if_pos none).symm
        cached := fun some => (some none).elim
        uncached := fun _ => rfl }
  · have used : 0 < state.unitCount quantum := by
      refine Nat.lt_min.mpr ⟨some, ?_⟩
      split
      · exact positive
      · exact Nat.one_pos
    rw [ConsumerState.convert_unit bounded.usable positive some] at kept ⊢
    refine
      { ordered := kept
        beside := ⟨rfl, rfl, rfl, rfl, rfl, rfl, rfl, rfl, rfl⟩
        ratio := .inr bounded
        next_eq := ?_
        taken_eq := rfl
        padding_eq := rfl
        result := (if_neg some.ne').symm
        cached := fun _ => used.ne'
        uncached := fun none => (some.ne' none).elim }
    have accepted := ConsumerState.converterAccepted_consumeInput state (state.unitCount quantum)
    change (state.consumeInput (state.unitCount quantum)).converterAccepted -
      state.unitCount quantum = state.converterAccepted
    omega

theorem converted_unit (unit : geometry.AtUnitRate W) (ordered : InOrder line state)
    (empty : state.outputPending = 0) (ratio : RatioSet state.ratio) {quantum : Nat}
    (positive : 0 < quantum) (readable : Nat) :
    ConvertsTo line state (state.converted unitConverter geometry quantum readable) := by
  obtain ⟨smoothed, set, bounded, steeredEq⟩ :=
    steered_unit unit ratio (occupancyOf readable state.inputPending 0)
  have runs : state.converted unitConverter geometry quantum readable =
      (state.steered geometry (occupancyOf readable state.inputPending 0)).convert
        unitConverter geometry quantum := rfl
  have ready : InOrder line { state with occupancyMilli := smoothed, ratio := set } :=
    ordered.agree ⟨rfl, rfl, rfl, rfl, rfl⟩ rfl ⟨rfl, rfl, rfl, rfl, rfl, rfl⟩ ⟨rfl, rfl, rfl⟩ rfl
  have ran := convert_unitRate unit ready empty bounded positive
  rw [runs, steeredEq]
  have same : SameBeside state { state with occupancyMilli := smoothed, ratio := set } :=
    ⟨rfl, rfl, rfl, rfl, rfl, rfl, rfl, rfl, rfl⟩
  exact
    { ordered := ran.ordered
      beside := same.trans ran.beside
      ratio := ran.ratio
      next_eq := ran.next_eq
      taken_eq := ran.taken_eq
      padding_eq := ran.padding_eq
      result := ran.result
      cached := ran.cached
      uncached := ran.uncached }

/-- What a refill leaves behind. -/
structure RefillsTo (line : List (SourceSample F)) (before : ConsumerState F Unit W)
    (refill : (RefillResult × ConsumerState F Unit W) × List (SourceSample F)) : Prop where
  ordered : InOrder line refill.1.2
  split : Split line refill.1.2.sourceTaken refill.2
  beside : SameBeside before refill.1.2
  ratio : RatioSet refill.1.2.ratio
  next_eq : refill.1.2.nextIndex = before.nextIndex
  padded : refill.1.2.inputPadding = true → before.finite.isSome = true
  result : refill.1.1 =
    if before.nextIndex < line.length ∨ before.finite.isSome then .ready else .starved
  cached : refill.1.1 = .ready → refill.1.2.outputPending ≠ 0
  uncached : refill.1.1 = .starved → refill.1.2.outputPending = 0 ∧ refill.2 = []

omit [Binary64 W] [OrderedBinary64 W] in
theorem InOrder.sum (ordered : InOrder line state) (unpadded : state.inputPadding = false) :
    state.converterAccepted + state.inputPending = state.sourceTaken := by
  have sum := ordered.classified.unpadded unpadded
  unfold ConsumerState.converterAccepted
  omega

omit [Binary32 F] [Binary64 W] [OrderedBinary64 W] in
theorem makeInputSpace_unit (additional capacity : Nat) : ∃ input inputOffset,
    state.makeInputSpace additional capacity =
      { state with input := input, inputOffset := inputOffset } := by
  unfold ConsumerState.makeInputSpace
  split
  · exact ⟨_, _, rfl⟩
  · exact ⟨_, _, rfl⟩

/-- A refill from a workspace that was filled as far as it goes. -/
theorem filled_unit (unit : geometry.AtUnitRate W) {quantum : Nat} (positive : 0 < quantum)
    {filled : ConsumerState F Unit W} {rest : List (SourceSample F)}
    (ordered : InOrder line filled) (split : Split line filled.sourceTaken rest)
    (empty : filled.outputPending = 0) (ratio : RatioSet filled.ratio)
    (padded : filled.inputPadding = true → filled.finite.isSome = true)
    (taken : filled.inputPending = 0 → rest = []) :
    RefillsTo line filled
      (if (filled.padInput quantum).inputPending = 0 ∧ (filled.padInput quantum).zeroProgress then
        ((.starved, filled.padInput quantum), rest)
      else ((filled.padInput quantum).converted unitConverter geometry quantum rest.length,
        rest)) := by
  have next : filled.nextIndex = filled.converterAccepted := by
    unfold ConsumerState.nextIndex
    rw [empty, Nat.sub_zero]
  have whole := split.whole
  -- Behind an empty workspace the stream is over.
  have expired (none : filled.inputPending = 0) : line.length = filled.sourceTaken ∧
      line.length ≤ filled.converterAccepted := by
    rw [taken none, List.length_nil] at whole
    refine ⟨whole, ?_⟩
    have accepted := ordered.sourceAccepted_eq none
    unfold ConsumerState.converterAccepted
    omega
  have made {ready : ConsumerState F Unit W} (same : SameBeside filled ready)
      (ranOrdered : InOrder line ready) (acceptedEq : ready.converterAccepted =
        filled.converterAccepted) (takenEq : ready.sourceTaken = filled.sourceTaken)
      (readyEmpty : ready.outputPending = 0) (readyRatio : RatioSet ready.ratio)
      (readyPadded : ready.inputPadding = true → filled.finite.isSome = true)
      (result : ready.inputPending = 0 ↔
        ¬(filled.nextIndex < line.length ∨ filled.finite.isSome)) :
      RefillsTo line filled (ready.converted unitConverter geometry quantum rest.length, rest) := by
    have ran := converted_unit unit ranOrdered readyEmpty readyRatio positive rest.length
    refine
      { ordered := ran.ordered
        split := by rw [ran.taken_eq, takenEq]; exact split
        beside := same.trans ran.beside
        ratio := ran.ratio
        next_eq := ran.next_eq.trans (acceptedEq.trans next.symm)
        padded := fun padding => readyPadded (ran.padding_eq ▸ padding)
        result := ?_
        cached := fun isReady => ran.cached fun none => ?_
        uncached := fun isStarved => ?_ }
    · rw [ran.result]
      by_cases stalls : ready.inputPending = 0
      · rw [if_pos stalls, if_neg (result.mp stalls)]
      · rw [if_neg stalls, if_pos (not_not.mp (mt result.mpr stalls))]
    · rw [ran.result, if_pos none] at isReady
      cases isReady
    · rw [ran.result] at isStarved
      split at isStarved
      · rename_i none
        refine ⟨ran.uncached none, ?_⟩
        have ended := (not_or.mp (result.mp none)).1
        rw [next] at ended
        have fits := ordered.classified.taken_le
        rcases Nat.eq_zero_or_pos filled.inputPending with zero | some
        · exact taken zero
        · cases padding : filled.inputPadding with
          | false =>
              have sum := ordered.sum padding
              omega
          | true => exact (not_or.mp (result.mp none)).2.elim (padded padding)
      · cases isStarved
  by_cases pads : filled.inputPending = 0 ∧ filled.finite.isSome
  · -- The stream is over and zeros follow it.
    have paddedOrdered := ordered.padInput (expired pads.1).1 quantum
    unfold ConsumerState.padInput at paddedOrdered ⊢
    rw [if_pos pads] at paddedOrdered ⊢
    rw [if_neg (fun stalls => positive.ne' stalls.1)]
    exact made ⟨rfl, rfl, rfl, rfl, rfl, rfl, rfl, rfl, rfl⟩ paddedOrdered rfl rfl empty ratio
      (fun _ => pads.2)
      ⟨fun none => (positive.ne' none).elim, fun neither => (neither (.inr pads.2)).elim⟩
  · unfold ConsumerState.padInput
    rw [if_neg pads]
    have result : filled.inputPending = 0 ↔
        ¬(filled.nextIndex < line.length ∨ filled.finite.isSome) := by
      rw [next]
      refine ⟨fun none => not_or.mpr ⟨not_lt.mpr (expired none).2, fun some => pads ⟨none, some⟩⟩,
        fun neither => ?_⟩
      obtain ⟨ended, streaming⟩ := not_or.mp neither
      have unpadded := Bool.eq_false_iff.mpr fun padding => streaming (padded padding)
      have sum := ordered.sum unpadded
      omega
    by_cases stalls : filled.inputPending = 0 ∧ filled.zeroProgress
    · rw [if_pos stalls]
      have ended := result.mp stalls.1
      exact
        { ordered := ordered
          split := split
          beside := .refl filled
          ratio := ratio
          next_eq := rfl
          padded := padded
          result := (if_neg ended).symm
          cached := fun ready => by cases ready
          uncached := fun _ => ⟨empty, taken stalls.1⟩ }
    · rw [if_neg stalls]
      exact made (.refl filled) ordered rfl rfl empty ratio padded result

/-- A refill finds the next slot if there is one; behind a boundary it finds zeros. -/
theorem refilled_unit (unit : geometry.AtUnitRate W) (contiguous : Contiguous line)
    (ordered : InOrder line state) (split : Split line state.sourceTaken slots)
    (working : state.resetFailed = false) (ratio : RatioSet state.ratio)
    (padded : state.inputPadding = true → state.finite.isSome = true) :
    RefillsTo line state (state.refilled unitConverter geometry slots) := by
  unfold ConsumerState.refilled
  rw [if_neg (by rw [working]; decide)]
  have fits := ordered.classified.taken_le
  have whole := split.whole
  by_cases pending : state.outputPending ≠ 0
  · rw [if_pos pending]
    have found : state.nextIndex < line.length ∨ state.finite.isSome = true := by
      cases padding : state.inputPadding with
      | false =>
          have sum := ordered.sum padding
          have cached := ordered.pending_le
          unfold ConsumerState.nextIndex
          omega
      | true => exact .inr (padded padding)
    exact
      { ordered := ordered
        split := split
        beside := .refl state
        ratio := ratio
        next_eq := rfl
        padded := padded
        result := (if_pos found).symm
        cached := fun _ => pending
        uncached := fun starved => by cases starved }
  rw [if_neg pending]
  have empty := not_not.mp pending
  have quantum_pos : 0 < min geometry.capacity converterQuantum :=
    Nat.lt_min.mpr ⟨unit.sized, by decide⟩
  have quantumLe : min geometry.capacity converterQuantum ≤ geometry.capacity := Nat.min_le_left _ _
  dsimp only
  generalize min geometry.capacity converterQuantum = quantum at *
  have desired : 0 < desiredInput geometry quantum state ∧
      desiredInput geometry quantum state ≤ geometry.capacity := by
    unfold desiredInput
    split <;> omega
  generalize wantedEq : desiredInput geometry quantum state - state.inputPending = wanted
  obtain ⟨input, inputOffset, spacedEq⟩ := makeInputSpace_unit wanted geometry.capacity
  have spaced := ordered.makeInputSpace wanted geometry.capacity
  rw [spacedEq] at spaced ⊢
  have took := takeAll_unit contiguous unit.reserved wanted spaced split fun some => by
    change state.inputPending + wanted ≤ geometry.capacity
    omega
  generalize ({ state with
    input := input, inputOffset := inputOffset } : ConsumerState F Unit W).takeAll
      geometry.gapCapacity wanted slots = taking at took ⊢
  obtain ⟨⟨ok, filled⟩, rest⟩ := taking
  have beside : SameBeside state filled :=
    ⟨took.beside.finite_eq, took.beside.quiet_eq, took.beside.plc_eq, took.beside.primed_eq,
      took.beside.resetFailed_eq, took.beside.muteHistory_eq, took.beside.muteFault_eq,
      took.beside.plcPositions_eq, took.beside.plcPosition_eq⟩
  have padding : filled.inputPadding = state.inputPadding := took.padding_eq
  rw [if_pos took.accepted]
  have ran := filled_unit unit quantum_pos took.ordered took.split
    (took.cached_eq.trans empty) (by rw [took.ratio_eq]; exact ratio) (fun padding' => by
      rw [beside.finite_eq]
      exact padded (padding ▸ padding')) fun none => by
    have none : filled.inputPending = 0 := none
    have left := took.split.whole
    cases unpadded : state.inputPadding with
    | true =>
        obtain ⟨-, same⟩ := took.padded unpadded
        have ended := ordered.classified.padded unpadded
        change rest = slots at same
        rw [same]
        apply List.eq_nil_of_length_eq_zero
        change slots.length = 0
        omega
    | false =>
        have count := took.pending_eq unpadded
        have sum := ordered.sum unpadded
        have sum' := took.ordered.sum (padding.trans unpadded)
        have next : filled.nextIndex = state.nextIndex := took.next_eq
        have cached : filled.outputPending = 0 := took.cached_eq.trans empty
        change filled.inputPending = state.inputPending + min wanted slots.length at count
        unfold ConsumerState.nextIndex at next
        change line.length = filled.sourceTaken + rest.length at left
        change filled.converterAccepted + filled.inputPending = filled.sourceTaken at sum'
        apply List.eq_nil_of_length_eq_zero
        change rest.length = 0
        rcases Nat.eq_zero_or_pos slots.length with zero | some
        · omega
        · have front : 0 < min wanted slots.length := Nat.lt_min.mpr ⟨by omega, some⟩
          omega
  exact
    { ordered := ran.ordered
      split := ran.split
      beside := beside.trans ran.beside
      ratio := ran.ratio
      next_eq := ran.next_eq.trans took.next_eq
      padded := fun padding' => by
        have finite := ran.padded padding'
        rwa [beside.finite_eq] at finite
      result := by
        have next : filled.nextIndex = state.nextIndex := took.next_eq
        rw [ran.result, next, beside.finite_eq]
      cached := ran.cached
      uncached := ran.uncached }

omit [Binary64 W] [OrderedBinary64 W] in
/-- The next cached output is mapped to the start of its slot. -/
theorem InOrder.position (ordered : InOrder line state) (pending : state.outputPending ≠ 0) :
    state.cacheSourcePosition = (state.nextIndex : Int) * frameUnit := by
  obtain ⟨count, le, startEq, endEq⟩ := ordered.placed pending
  have positive : (state.cacheCount : Int) ≠ 0 := by omega
  unfold ConsumerState.cacheSourcePosition ConsumerState.nextIndex
  rw [startEq, endEq, ← Int.sub_mul]
  rw [show ((state.converterAccepted : Int) - ((state.converterAccepted - state.cacheCount : Nat) :
    Int)) = state.cacheCount by omega, Int.mul_assoc, Int.mul_tdiv_cancel_left _ positive]
  rw [show ((state.converterAccepted - state.outputPending : Nat) : Int) =
    ((state.converterAccepted - state.cacheCount : Nat) : Int) + state.outputOffset by omega,
    Int.add_mul, Int.mul_comm (frameUnit : Int)]

/-- A stream at unit rate of which nothing was dropped, and no fault is latched. -/
structure Standing (line slots : List (SourceSample F)) (state : ConsumerState F Unit W) :
    Prop where
  ordered : InOrder line state
  split : Split line state.sourceTaken slots
  contiguous : Contiguous line
  working : state.resetFailed = false
  ratio : RatioSet state.ratio
  clean : state.muteFault = false
  padded : state.inputPadding = true → state.finite.isSome = true
  boundary : ∀ boundary ∈ state.finite, boundary.stop = line.length

/-- What a refill that decides the end of a render leaves behind. -/
structure Decides (line slots : List (SourceSample F)) (before after : ConsumerState F Unit W) :
    Prop where
  standing : Standing line slots after
  beside : SameBeside before after
  next_eq : after.nextIndex = before.nextIndex

omit [Binary64 W] [OrderedBinary64 W] in
theorem refilledTail_ready [Binary64 W] {adapter : Adapter F W Unit} (limit : Nat)
    (state : ConsumerState F Unit W) (slots : List (SourceSample F)) :
    state.refilledTail adapter geometry limit .ready slots = ((.ready, state), slots) := by
  cases limit with
  | zero => rfl
  | succ limit =>
      unfold ConsumerState.refilledTail
      exact if_neg (by decide)

namespace Standing

theorem decides (standing : Standing line slots state)
    {refill : (RefillResult × ConsumerState F Unit W) × List (SourceSample F)}
    (refills : RefillsTo line state refill) : Decides line refill.2 state refill.1.2 where
  standing :=
    { ordered := refills.ordered
      split := refills.split
      contiguous := standing.contiguous
      working := refills.beside.resetFailed_eq.trans standing.working
      ratio := refills.ratio
      clean := refills.beside.muteFault_eq.trans standing.clean
      padded := fun padding => by
        rw [refills.beside.finite_eq]
        exact refills.padded padding
      boundary := by
        rw [refills.beside.finite_eq]
        exact standing.boundary }
  beside := refills.beside
  next_eq := refills.next_eq

/-- A slot that was not emitted yet is emitted. -/
theorem emits (unit : geometry.AtUnitRate W) (standing : Standing line slots state)
    (found : state.nextIndex < line.length) : ∃ rest after,
      state.outputExit unitConverter geometry slots = .emitted rest after .ready ∧
      Decides line rest state after ∧ after.outputPending ≠ 0 := by
  have refills := refilled_unit unit standing.contiguous standing.ordered standing.split
    standing.working standing.ratio standing.padded
  have decides := standing.decides refills
  have result := refills.result
  rw [if_pos (.inl found)] at result
  have cached := refills.cached result
  unfold ConsumerState.outputExit
  dsimp only
  generalize state.refilled unitConverter geometry slots = refill at *
  obtain ⟨⟨result', after⟩, rest⟩ := refill
  obtain rfl : result' = .ready := result
  refine ⟨rest, after, ?_, decides, cached⟩
  have clean : after.muteFault = false := decides.standing.clean
  cases finiteEq : after.finite with
  | none =>
      dsimp only
      rw [if_neg (by rw [clean]; decide)]
  | some boundary =>
      have stop := decides.standing.boundary boundary finiteEq
      have next : after.nextIndex = state.nextIndex := decides.next_eq
      have before : ¬after.PastBoundary := by
        rintro ⟨boundary', member, past⟩
        rw [decides.standing.ordered.position cached] at past
        have frames := Int.le_of_mul_le_mul_right past (by decide)
        have stop' := decides.standing.boundary boundary' member
        change (boundary'.stop : Int) ≤ after.nextIndex at frames
        omega
      dsimp only
      rw [refilledTail_ready]
      unfold ConsumerState.tailExit
      dsimp only
      rw [if_neg (by decide), if_neg before, if_neg (by rw [clean]; decide)]

/-- Without a boundary the end of the stream is a shortfall. -/
theorem starves (unit : geometry.AtUnitRate W) (standing : Standing line slots state)
    (ended : line.length ≤ state.nextIndex) (streaming : state.finite = none) : ∃ after,
      state.outputExit unitConverter geometry slots = .emitted [] after .starved ∧
      Decides line [] state after ∧ after.outputPending = 0 := by
  have refills := refilled_unit unit standing.contiguous standing.ordered standing.split
    standing.working standing.ratio standing.padded
  have decides := standing.decides refills
  have result := refills.result
  rw [streaming, if_neg (by simp; omega)] at result
  have uncached := refills.uncached result
  have streams : (state.refilled unitConverter geometry slots).1.2.finite = none :=
    refills.beside.finite_eq.trans streaming
  unfold ConsumerState.outputExit
  dsimp only
  generalize state.refilled unitConverter geometry slots = refill at *
  obtain ⟨⟨result', after⟩, rest⟩ := refill
  obtain rfl : result' = .starved := result
  obtain ⟨empty, restEq⟩ := uncached
  obtain rfl : rest = [] := restEq
  have clean : after.muteFault = false := decides.standing.clean
  refine ⟨after, ?_, decides, empty⟩
  have streams : after.finite = none := streams
  cases finiteEq : after.finite with
  | none =>
      dsimp only
      rw [if_neg (by rw [clean]; decide)]
  | some boundary =>
      rw [finiteEq] at streams
      cases streams

theorem drains (unit : geometry.AtUnitRate W) (standing : Standing line slots state)
    (ended : line.length ≤ state.nextIndex) {boundary : Finite}
    (finiteEq : state.finite = some boundary) : ∃ rest after,
      state.outputExit unitConverter geometry slots = after.drainExit geometry boundary rest ∧
      Decides line rest state after := by
  have refills := refilled_unit unit standing.contiguous standing.ordered standing.split
    standing.working standing.ratio standing.padded
  have decides := standing.decides refills
  have result := refills.result
  rw [if_pos (.inr (by rw [finiteEq]; rfl))] at result
  have cached := refills.cached result
  have finiteEq' : (state.refilled unitConverter geometry slots).1.2.finite = some boundary :=
    refills.beside.finite_eq.trans finiteEq
  unfold ConsumerState.outputExit
  dsimp only
  generalize state.refilled unitConverter geometry slots = refill at *
  obtain ⟨⟨result', after⟩, rest⟩ := refill
  obtain rfl : result' = .ready := result
  refine ⟨rest, after, ?_, decides⟩
  have finiteEq' : after.finite = some boundary := finiteEq'
  have stop := decides.standing.boundary boundary finiteEq'
  have next : after.nextIndex = state.nextIndex := decides.next_eq
  have past : after.PastBoundary := by
    refine ⟨boundary, finiteEq', ?_⟩
    rw [decides.standing.ordered.position cached]
    apply Int.mul_le_mul_of_nonneg_right _ (by decide)
    change (boundary.stop : Int) ≤ after.nextIndex
    omega
  dsimp only
  rw [finiteEq']
  dsimp only
  rw [refilledTail_ready]
  unfold ConsumerState.tailExit
  dsimp only
  rw [if_neg (by decide), if_pos past]

/-- Nothing but the flags changes when a render does not rest. -/
theorem flagged (standing : Standing line slots state) (quiet primed : Bool) :
    Standing line slots { state with quiet := quiet, primed := primed } where
  ordered := standing.ordered.agree ⟨rfl, rfl, rfl, rfl, rfl⟩ rfl ⟨rfl, rfl, rfl, rfl, rfl, rfl⟩
    ⟨rfl, rfl, rfl⟩ rfl
  split := standing.split
  contiguous := standing.contiguous
  working := standing.working
  ratio := standing.ratio
  clean := standing.clean
  padded := standing.padded
  boundary := standing.boundary

end Standing

/-- A render that does not begin to play: nothing was published since a completed
stream, or not enough yet. -/
def ConsumerState.Rests (geometry : Geometry) (state : ConsumerState F Unit W)
    (slots : List (SourceSample F)) : Prop :=
  state.quiet = true ∧ slots = [] ∨
    state.primed = false ∧ slots.length < geometry.reserve ∧ state.finite = none

theorem Standing.readyExit (standing : Standing line slots state) :
    (state.Rests geometry slots ∧ state.readyExit unitConverter geometry slots =
        .silent slots { state with quiet := state.quiet && slots.isEmpty } false) ∨
    (¬state.Rests geometry slots ∧
      state.readyExit unitConverter geometry slots =
        ({ state with quiet := false, primed := true } : ConsumerState F Unit W).primedExit
          unitConverter geometry slots) := by
  have working := standing.working
  have awake (quiet : Bool) (restless : ¬(state.quiet = true ∧ slots = [])) :
      (state.Rests geometry slots ∧
        ({ state with quiet := quiet } : ConsumerState F Unit W).awakeExit unitConverter geometry
          slots = .silent slots { state with quiet := quiet } false) ∨
      (¬state.Rests geometry slots ∧
        ({ state with quiet := quiet } : ConsumerState F Unit W).awakeExit unitConverter geometry
          slots = ({ state with quiet := quiet, primed := true } :
            ConsumerState F Unit W).primedExit unitConverter geometry slots) := by
    unfold ConsumerState.awakeExit ConsumerState.Rests
    by_cases primed : state.primed = true
    · refine .inr ⟨?_, ?_⟩
      · rintro (rests | rests)
        · exact restless rests
        · exact Bool.noConfusion (primed.symm.trans rests.1)
      · rw [if_pos (.inl primed)]
        congr 1
        rw [← primed]
    · rw [if_neg (by rintro (one | two); exacts [primed one, by rw [working] at two; cases two])]
      by_cases below : slots.length < geometry.reserve ∧ state.finite.isNone = true
      · rw [if_pos below]
        exact .inl ⟨.inr ⟨Bool.eq_false_iff.mpr primed, below.1,
          Option.isNone_iff_eq_none.mp below.2⟩, rfl⟩
      · rw [if_neg below]
        refine .inr ⟨?_, rfl⟩
        rintro (rests | rests)
        · exact restless rests
        · exact below ⟨rests.2.1, by rw [rests.2.2]; rfl⟩
  unfold ConsumerState.readyExit
  rw [if_neg (by rw [standing.clean]; decide)]
  by_cases quiet : state.quiet = true
  · rw [if_pos quiet]
    by_cases empty : slots.length = 0
    · rw [if_pos empty]
      obtain rfl := List.length_eq_zero_iff.mp empty
      refine .inl ⟨.inl ⟨quiet, rfl⟩, ?_⟩
      rw [show (state.quiet && List.isEmpty (α := SourceSample F) []) = state.quiet from
        Bool.and_true _]
      exact congrArg (RenderExit.silent _ state) working
    · rw [if_neg empty]
      have waiting : slots ≠ [] := fun none => empty (List.length_eq_zero_iff.mpr none)
      have restless : ¬(state.quiet = true ∧ slots = []) := fun rests => waiting rests.2
      rw [show (state.quiet && slots.isEmpty) = false by simp [waiting]]
      exact awake false restless
  · rw [if_neg quiet]
    have unquiet := Bool.eq_false_iff.mpr quiet
    rw [show (state.quiet && slots.isEmpty) = state.quiet by rw [unquiet]; rfl]
    rcases awake state.quiet (fun rests => quiet rests.1) with
      ⟨rests, exitEq⟩ | ⟨plays, exitEq⟩
    · exact .inl ⟨rests, exitEq⟩
    · refine .inr ⟨plays, exitEq.trans ?_⟩
      rw [unquiet]

end Refilling

end PcmRing
