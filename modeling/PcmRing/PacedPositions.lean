import PcmRing.AtomicExits
import PcmRing.DrainSoundness

/-!
# Source positions never go back

Against a converter whose position on the source timeline never moves back, the
outputs of a stream are mapped to positions in order: whatever is still to be
emitted lies at or behind everything emitted before.
-/

namespace PcmRing

open TwoLapQueue

variable {F S W : Type}

/-- The delay behind a handle is never negative, and no operation moves the
position of the converter, its accepted input less its delay, back. -/
structure Adapter.Advances [Binary64 W] (adapter : Adapter F W S) (delay : S → Int) : Prop where
  nonneg : ∀ handle, 0 ≤ delay handle
  reports : ∀ handle, (adapter.inputDelay handle).1 = adapterOk →
    (adapter.inputDelay handle).2.1 = delay handle
  inputDelay : ∀ handle, delay (adapter.inputDelay handle).2.2 ≤ delay handle
  queuedInput : ∀ handle, delay (adapter.queuedInput handle).2.2 ≤ delay handle
  process : ∀ handle input outputLength ratio,
    let reply := adapter.converterProcess handle input outputLength ratio
    delay reply.2 ≤ delay handle +
      ((reply.1.elim 0 Adapter.Converted.inputUsed : Nat) : Int) * frameUnit

theorem around_eq {generation : Nat} {position : Int} {around : Position}
    (aroundEq : Position.around generation position = some around) :
    around.generation = generation ∧ toU64? (position / frameUnit) = some around.low ∧
      toU64? ((position + (frameUnit - 1)) / frameUnit) = some around.high := by
  unfold Position.around at aroundEq
  split at aroundEq
  · rename_i low high lowEq highEq
    cases aroundEq
    exact ⟨rfl, lowEq, highEq⟩
  · cases aroundEq

/-- A later position has no earlier support. -/
theorem around_low_le {generation generation' : Nat} {first second : Int} {early late : Position}
    (le : first ≤ second) (earlyEq : Position.around generation first = some early)
    (lateEq : Position.around generation' second = some late) : early.low ≤ late.low :=
  toU64?_mono (Int.ediv_le_ediv (by decide) le) (around_eq earlyEq).2.1 (around_eq lateEq).2.1

namespace ConsumerState

/-- Where the converter is on the source timeline of the stream. -/
def converterPosition (delay : S → Int) (state : ConsumerState F S W) : Int :=
  (state.converterAccepted : Int) * frameUnit - delay state.converter

/-- The position of the next output, cached or still to be converted. -/
def nextPosition (delay : S → Int) (state : ConsumerState F S W) : Int :=
  if state.outputPending = 0 then state.converterPosition delay else state.cacheSourcePosition

/-- A support that nothing still to be emitted precedes. -/
def Behind (delay : S → Int) (state : ConsumerState F S W) (position : Position) : Prop :=
  ∃ offset, state.sourceBase = some (position.generation, offset) ∧
    ∀ later around, state.nextPosition delay ≤ later →
      Position.around position.generation (later + offset * frameUnit) = some around →
      position.low ≤ around.low

/-- The cached outputs lie between the converter's positions, and the emitted
supports `line` behind them. -/
structure Paced (delay : S → Int) (line : List (Option Position)) (state : ConsumerState F S W) :
    Prop where
  cached : state.outputPending ≠ 0 →
    state.outputOffset + state.outputPending = state.cacheCount ∧
      state.cacheStart ≤ state.cacheEnd ∧ state.cacheEnd ≤ state.converterPosition delay
  behind : ∀ position, some position ∈ line → Behind delay state position

variable {delay : S → Int} {line : List (Option Position)} {state after : ConsumerState F S W}

/-- A step that neither goes back nor moves the base keeps the pace. -/
theorem Paced.forward (paced : Paced delay line state) (empty : state.outputPending = 0)
    (none : after.outputPending = 0)
    (forward : state.converterPosition delay ≤ after.converterPosition delay)
    (base : ∀ base, state.sourceBase = some base → after.sourceBase = some base) :
    Paced delay line after where
  cached pending := (pending none).elim
  behind position member := by
    obtain ⟨offset, baseEq, ahead⟩ := paced.behind position member
    refine ⟨offset, base _ baseEq, fun later around le => ahead later around ?_⟩
    rw [nextPosition, if_pos empty]
    rw [nextPosition, if_pos none] at le
    exact Int.le_trans forward le

/-- The support of the next cached output follows the emitted ones. -/
theorem Paced.low_le (paced : Paced delay line state) (pending : state.outputPending ≠ 0)
    {position early : Position} (positionEq : state.cachePosition = some position)
    (member : some early ∈ line) :
    early.generation = position.generation ∧ early.low ≤ position.low := by
  obtain ⟨offset, baseEq, ahead⟩ := paced.behind early member
  unfold cachePosition at positionEq
  rw [baseEq] at positionEq
  have aroundEq : Position.around early.generation
      (state.cacheSourcePosition + offset * frameUnit) = some position := positionEq
  refine ⟨(around_eq aroundEq).1.symm, ahead _ position ?_ aroundEq⟩
  rw [nextPosition, if_neg pending]

/-- Popping a cached output moves the next position forward. -/
theorem Paced.popped [Binary32 F] {result : RefillResult} (paced : Paced delay line state)
    (cached : result = .ready → state.outputPending ≠ 0) :
    Paced delay ((if result = .ready then state.cachePosition else none) :: line)
      (state.popped result).2 := by
  unfold ConsumerState.popped
  by_cases ready : result = .ready
  · rw [if_pos ready, if_pos ready]
    have pending := cached ready
    obtain ⟨count, order, reach⟩ := paced.cached pending
    have positive : 0 < state.cacheCount := by omega
    have onward : state.cacheSourcePosition ≤ state.nextCached.2.nextPosition delay := by
      unfold nextPosition nextCached
      dsimp only
      split
      · exact Int.le_trans (mappedPosition_le_cacheEnd order positive (by omega)) reach
      · exact mappedPosition_mono order positive (Nat.le_succ _)
    refine ⟨fun more => ?_, fun position member => ?_⟩
    · have more : state.outputPending - 1 ≠ 0 := more
      refine ⟨?_, order, reach⟩
      simp only [nextCached, if_neg more]
      omega
    · rcases List.mem_cons.mp member with same | earlier
      · -- The support that was just emitted.
        unfold cachePosition at same
        cases baseEq : state.sourceBase with
        | none =>
            rw [baseEq] at same
            cases same
        | some base =>
            obtain ⟨generation, offset⟩ := base
            rw [baseEq] at same
            have aroundEq : Position.around generation
                (state.cacheSourcePosition + offset * frameUnit) = some position := same.symm
            obtain rfl := (around_eq aroundEq).1
            exact ⟨offset, baseEq, fun later around le laterEq =>
              around_low_le (Int.add_le_add_right (Int.le_trans onward le) _) aroundEq laterEq⟩
      · obtain ⟨offset, baseEq, ahead⟩ := paced.behind position earlier
        refine ⟨offset, baseEq, fun later around le => ahead later around ?_⟩
        rw [nextPosition, if_neg pending]
        exact Int.le_trans onward le
  · rw [if_neg ready, if_neg ready]
    refine ⟨paced.cached, fun position member => ?_⟩
    rcases List.mem_cons.mp member with same | earlier
    · cases same
    · exact paced.behind position earlier

section Conversion

variable [Binary64 W] {adapter : Adapter F W S} {geometry : Geometry}

/-- An accepted delay query answers the delay and moves nothing back. -/
theorem delay_converterInputDelay (advances : adapter.Advances delay) (handle : S) :
    (∀ answered, (adapter.converterInputDelay handle).1 = some answered →
      answered = delay handle) ∧ delay (adapter.converterInputDelay handle).2 ≤ delay handle := by
  refine ⟨fun answered answeredEq => ?_, advances.inputDelay handle⟩
  unfold Adapter.converterInputDelay at answeredEq
  dsimp only at answeredEq
  split at answeredEq
  · rename_i checked
    cases answeredEq
    exact advances.reports handle checked.1
  · cases answeredEq

/-- A conversion moves the position forward, and places its batch in between. -/
structure Advanced (delay : S → Int) (before after : ConsumerState F S W) : Prop where
  forward : before.converterPosition delay ≤ after.converterPosition delay
  base_eq : after.sourceBase = before.sourceBase
  cached : after.outputPending ≠ 0 → after.outputPending = after.cacheCount ∧
    after.outputOffset = 0 ∧ before.converterPosition delay ≤ after.cacheStart ∧
      after.cacheStart ≤ after.cacheEnd ∧ after.cacheEnd ≤ after.converterPosition delay

omit [Binary64 W] in
theorem Advanced.since {between : ConsumerState F S W}
    (forward : state.converterPosition delay ≤ between.converterPosition delay)
    (base : between.sourceBase = state.sourceBase) (advanced : Advanced delay between after) :
    Advanced delay state after where
  forward := Int.le_trans forward advanced.forward
  base_eq := advanced.base_eq.trans base
  cached pending := by
    obtain ⟨count, first, start, order, reach⟩ := advanced.cached pending
    exact ⟨count, first, Int.le_trans forward start, order, reach⟩

theorem classifyGaps_advances (advances : adapter.Advances delay) (state : ConsumerState F S W) :
    ∃ ok gaps missing converter, delay converter ≤ delay state.converter ∧
      state.classifyGaps adapter =
        (ok, { state with gaps := gaps, outputMissing := missing, converter := converter }) := by
  have queried := (delay_converterInputDelay advances state.converter).2
  unfold classifyGaps
  dsimp only
  generalize adapter.converterInputDelay state.converter = reply at queried ⊢
  split
  · exact ⟨true, state.gaps, false, state.converter, Int.le_refl _, rfl⟩
  · obtain ⟨answer, converter⟩ := reply
    cases answer with
    | none => exact ⟨false, state.gaps, false, converter, queried, rfl⟩
    | some answered =>
        dsimp only
        split
        · exact ⟨true, state.gaps, false, converter, queried, rfl⟩
        · exact ⟨true, _, _, converter, queried, rfl⟩

/-- Recording a batch moves nothing back and places it behind its start. -/
theorem recordCache_advances (advances : adapter.Advances delay) (state : ConsumerState F S W)
    (start : Int) (generated : Nat) :
    let recorded := state.recordCache adapter start generated
    state.converterPosition delay ≤ recorded.2.converterPosition delay ∧
      recorded.2.sourceBase = state.sourceBase ∧
      recorded.2.outputPending = state.outputPending ∧
      (recorded.1 = true → generated ≠ 0 → recorded.2.cacheCount = generated ∧
        recorded.2.cacheStart = start ∧ start ≤ recorded.2.cacheEnd ∧
        recorded.2.cacheEnd ≤ recorded.2.converterPosition delay) := by
  obtain ⟨answered, queried⟩ := delay_converterInputDelay advances state.converter
  unfold recordCache
  generalize adapter.converterInputDelay state.converter = reply at answered queried ⊢
  obtain ⟨answer, converter⟩ := reply
  have onward : state.converterPosition delay ≤
      (state.converterAccepted : Int) * frameUnit - delay converter :=
    Int.sub_le_sub_left queried _
  by_cases none : generated = 0
  · simp only [none, if_true]
    exact ⟨Int.le_refl _, trivial, trivial, fun _ some => (some rfl).elim⟩
  simp only [none, if_false]
  cases answer with
  | none => exact ⟨onward, rfl, rfl, fun ok => (by cases ok)⟩
  | some answer =>
      obtain rfl := answered answer rfl
      dsimp only
      split
      · exact ⟨onward, rfl, rfl, fun ok => (by cases ok)⟩
      · rename_i order
        exact ⟨onward, rfl, rfl, fun _ _ => ⟨rfl, rfl, Int.not_lt.mp order, onward⟩⟩

omit [Binary64 W] in
/-- Handing a batch over changes the cache and the workspace offset only. -/
theorem finishConversion_state (geometry : Geometry) (used generated : Nat)
    (state : ConsumerState F S W) : ∃ inputOffset zeroProgress,
      (state.finishConversion geometry used generated).2 =
        { state with
          inputOffset := inputOffset, outputOffset := 0, outputPending := generated
          zeroProgress := zeroProgress } := by
  unfold finishConversion
  dsimp only
  split
  · exact ⟨_, _, rfl⟩
  · split
    · exact ⟨_, _, rfl⟩
    · exact ⟨_, _, rfl⟩

theorem runConverter_advances (advances : adapter.Advances delay) (quantum : Nat)
    (empty : state.outputPending = 0) :
    Advanced delay state (state.runConverter adapter geometry quantum).2 := by
  have stays {converter : S} (le : delay converter ≤ delay state.converter) :
      Advanced delay state { state with converter := converter } :=
    ⟨Int.sub_le_sub_left le _, rfl, fun pending => (pending empty).elim⟩
  obtain ⟨answered, queried⟩ := delay_converterInputDelay advances state.converter
  unfold runConverter
  generalize adapter.converterInputDelay state.converter = reply at answered queried ⊢
  obtain ⟨answer, converter⟩ := reply
  cases answer with
  | none => exact stays queried
  | some start =>
      obtain rfl := answered start rfl
      dsimp only at queried ⊢
      generalize (if state.gaps = [] then quantum else 1) = outputCount
      have processed := advances.process converter state.offered outputCount state.ratio
      generalize adapter.converterProcess converter state.offered outputCount state.ratio = reply
        at processed ⊢
      obtain ⟨result, converter'⟩ := reply
      cases result with
      | none =>
          dsimp only [Option.elim_none] at processed
          exact stays (by simpa using Int.le_trans processed (by simpa using queried))
      | some converted =>
          dsimp only [Option.elim_some] at processed ⊢
          have feeds (output : Nat → F) :
              let fed := ({ state with converter := converter', output := output } :
                ConsumerState F S W).consumeInput converted.inputUsed
              fed.converterAccepted = state.converterAccepted + converted.inputUsed ∧
                fed.sourceBase = state.sourceBase ∧ fed.converter = converter' ∧
                fed.outputPending = 0 :=
            ⟨converterAccepted_consumeInput _ _, rfl, rfl, empty⟩
          generalize (fun index => if index < converted.outputGenerated then
            converted.output index else state.output index) = output
          have fedFacts := feeds output
          generalize ConsumerState.consumeInput converted.inputUsed _ = fed at fedFacts ⊢
          obtain ⟨accepted, base, handle, empties⟩ := fedFacts
          -- From here on the input counts as accepted and nothing moves back.
          have reached : state.converterPosition delay ≤ fed.converterPosition delay := by
            unfold converterPosition
            rw [accepted, handle]
            push_cast
            rw [Int.add_mul]
            omega
          have recorded := recordCache_advances advances fed
            ((state.converterAccepted : Int) * frameUnit - delay state.converter)
            converted.outputGenerated
          generalize fed.recordCache adapter _ converted.outputGenerated = recording at recorded ⊢
          obtain ⟨ok, placed⟩ := recording
          obtain ⟨forward, baseEq, pendingEq, placement⟩ := recorded
          have onward := Int.le_trans reached forward
          cases ok with
          | false =>
              exact ⟨onward, baseEq.trans base, fun pending =>
                (pending (pendingEq.trans empties)).elim⟩
          | true =>
              obtain ⟨inputOffset, zeroProgress, finished⟩ := placed.finishConversion_state geometry
                converted.inputUsed converted.outputGenerated
              dsimp only
              rw [finished]
              refine ⟨onward, baseEq.trans base, fun generated => ?_⟩
              obtain ⟨count, start, order, reach⟩ := placement rfl generated
              exact ⟨count.symm, rfl, start.ge, start.symm ▸ order, reach⟩

theorem convert_advances (advances : adapter.Advances delay) (quantum : Nat)
    (empty : state.outputPending = 0) :
    Advanced delay state (state.convert adapter geometry quantum).2 := by
  obtain ⟨ok, gaps, missing, converter, le, classified⟩ :=
    classifyGaps_advances advances state
  have onward : state.converterPosition delay ≤
      (state.converterAccepted : Int) * frameUnit - delay converter := Int.sub_le_sub_left le _
  unfold convert
  rw [classified]
  cases ok with
  | false => exact ⟨onward, rfl, fun pending => (pending empty).elim⟩
  | true =>
      have between : state.converterPosition delay ≤ converterPosition delay
        { state with gaps := gaps, outputMissing := missing, converter := converter } := onward
      exact Advanced.since between rfl (runConverter_advances advances quantum empty)

omit [Binary64 W] in
theorem Paced.advanced (paced : Paced delay line state) (empty : state.outputPending = 0)
    (advanced : Advanced delay state after) : Paced delay line after where
  cached pending := by
    obtain ⟨count, first, -, order, reach⟩ := advanced.cached pending
    exact ⟨by rw [first, Nat.zero_add, count], order, reach⟩
  behind position member := by
    obtain ⟨offset, baseEq, ahead⟩ := paced.behind position member
    refine ⟨offset, advanced.base_eq.trans baseEq, fun later around le => ahead later around ?_⟩
    rw [nextPosition, if_pos empty]
    unfold nextPosition at le
    split at le
    · exact Int.le_trans advanced.forward le
    · rename_i pending
      obtain ⟨count, first, start, order, -⟩ := advanced.cached pending
      refine Int.le_trans start (Int.le_trans ?_ le)
      have zero : after.mappedPosition 0 = after.cacheStart := by simp [mappedPosition]
      rw [← zero]
      exact mappedPosition_mono order (by omega) (Nat.zero_le _)

end Conversion

theorem pacedKept [Binary32 F] [Binary64 W] {adapter : Adapter F W S} {geometry : Geometry}
    (advances : adapter.Advances delay) (line : List (Option Position)) :
    RefillKeeps adapter geometry
      fun (state : ConsumerState F S W) _ => Paced delay line state where
  flags _ _ paced := ⟨paced.cached, paced.behind⟩
  space {state slots} wanted refilling paced := by
    refine paced.forward refilling.2 ?_ ?_ ?_
    · exact (state.makeInputSpace_keeps wanted geometry.capacity).outputPending_eq.trans
        refilling.2
    · unfold makeInputSpace
      split <;> exact Int.le_refl _
    · unfold makeInputSpace
      split <;> exact fun _ same => same
  take {state slot rest} refilling _ paced := by
    have fenced : (state.fence slot.stamp).2.converterPosition delay =
          state.converterPosition delay ∧
        ∀ base, state.sourceBase = some base →
          (state.fence slot.stamp).2.sourceBase = some base := by
      rcases state.fence_cases slot.stamp with
        ⟨_, fenced⟩ | ⟨mark, _, _, fenced⟩ | ⟨mark, _, _, fenced⟩ <;> rw [fenced] <;>
        refine ⟨rfl, fun base baseEq => ?_⟩
      · exact baseEq
      · simp [baseOf, baseEq]
      · simp [baseOf, baseEq]
    have accepted : (state.acceptSource geometry.gapCapacity slot).2.converterPosition delay =
          (state.fence slot.stamp).2.converterPosition delay ∧
        (state.acceptSource geometry.gapCapacity slot).2.sourceBase =
          (state.fence slot.stamp).2.sourceBase := by
      rcases state.acceptSource_cases geometry.gapCapacity slot with
        ⟨gaps, _, _, accepted⟩ | ⟨_, accepted⟩ | ⟨_, _, _, accepted⟩ <;> rw [accepted] <;>
        exact ⟨rfl, rfl⟩
    refine paced.forward refilling.2 ?_ (accepted.1.trans fenced.1).ge ?_
    · exact (state.acceptSource_keeps geometry.gapCapacity slot).outputPending_eq.trans
        refilling.2
    · exact fun base baseEq => accepted.2.trans (fenced.2 base baseEq)
  pad {state slots} refilling _ paced := by
    refine paced.forward refilling.2 ?_ ?_ ?_
    · exact (state.padInput_keeps _).outputPending_eq.trans refilling.2
    · unfold padInput
      split <;> exact Int.le_refl _
    · unfold padInput
      split <;> exact fun _ same => same
  query {state slots} refilling paced := by
    refine paced.forward refilling.2 refilling.2 ?_ fun _ same => same
    exact Int.sub_le_sub_left (advances.queuedInput state.converter) _
  steer _ _ refilling paced :=
    paced.forward refilling.2 refilling.2 (Int.le_refl _) fun _ same => same
  convert refilling paced := paced.advanced refilling.2 (convert_advances advances _ refilling.2)

end ConsumerState

end PcmRing
