import PcmRing.GapClassification
import PcmRing.SteeredRatio

/-!
# The ring at unit rate

With a converter that hands on every sample at once, the input workspace and the
output cache hold the slots of the stream in order: what is cached next is the
slot behind the last one that was emitted.
-/

namespace PcmRing

open AtomicProgram TwoLapQueue

variable {F W : Type}

namespace ConsumerState

variable (quantum : Nat) (state : ConsumerState F Unit W)

/-- Gaps that the next conversion does not drop. -/
def unitGaps : List GapSpan :=
  state.gaps.dropWhile fun span => span.stop ≤ state.converterAccepted

/-- The next slot to convert is a gap. -/
def unitMissing : Bool :=
  state.unitGaps.head?.any fun span => decide (span.start ≤ state.converterAccepted)

/-- Samples that the next conversion hands on. -/
def unitCount : Nat :=
  min state.inputPending (if state.unitGaps = [] then quantum else 1)

/-- After a conversion of a workspace that is not empty. -/
def unitConverted : ConsumerState F Unit W :=
  let used := state.unitCount quantum
  { ({ state with
      gaps := state.unitGaps
      outputMissing := state.unitMissing
      output := fun index =>
        if index < used then state.input (state.inputOffset + index) else state.output index
      }).consumeInput used with
    inputOffset := if state.inputPending - used = 0 then 0 else state.inputOffset + used
    cacheStart := (state.converterAccepted : Int) * frameUnit
    cacheEnd := ((state.converterAccepted + used : Nat) : Int) * frameUnit
    cacheCount := used
    outputOffset := 0
    outputPending := used
    zeroProgress := false }

/-- After a conversion of an empty workspace. -/
def unitStalled : ConsumerState F Unit W :=
  { state with
    gaps := state.unitGaps
    outputMissing := state.unitMissing
    inputOffset := 0
    outputOffset := 0
    outputPending := 0
    zeroProgress := true }

variable {quantum state} [Binary32 F] [Binary64 W] {geometry : Geometry}

omit [Binary32 F] [Binary64 W] in
theorem unitGaps_of_empty (none : state.gaps = []) : state.unitGaps = [] := by
  unfold unitGaps
  rw [none]
  rfl

/-- Without a delay the converter stands behind what it accepted. -/
theorem classifyGaps_unit :
    state.classifyGaps (unitConverter (F := F)) =
      (true, { state with gaps := state.unitGaps, outputMissing := state.unitMissing }) := by
  have frames : ceilDiv (0 : Int).toNat frameUnit = 0 := by decide
  have queried : (unitConverter (F := F) (W := W)).converterInputDelay state.converter =
      (some 0, state.converter) := rfl
  unfold classifyGaps
  dsimp only
  by_cases none : state.gaps = []
  · rw [if_pos none]
    unfold unitMissing
    rw [unitGaps_of_empty none, none]
    rfl
  · rw [if_neg none, queried]
    dsimp only
    rw [frames, if_neg (Nat.not_lt_zero _)]
    rfl

theorem converterProcess_unit {ratio : W} (usable : Binary64.isFinite ratio = true ∧
    Binary64.le ratio (Binary64.ofRat 0) = false) (input : List F) {count : Nat}
    (positive : 0 < count) :
    (unitConverter (F := F) (W := W)).converterProcess () input count ratio =
      (some ⟨min input.length count, min input.length count, fun index => input.getD index 0⟩,
        ()) := by
  unfold Adapter.converterProcess
  rw [if_neg (by simp [usable.1, usable.2, positive.ne'])]
  dsimp only [unitConverter]
  rw [if_neg (by simp [usable.1, usable.2])]
  rw [if_neg (by simp [usable.1, usable.2])]

omit [Binary64 W] in
theorem offered_getD {index : Nat} (inside : index < state.inputPending) :
    state.offered.getD index 0 = state.input (state.inputOffset + index) := by
  unfold offered
  rw [List.getD_eq_getElem?_getD, List.getElem?_map, List.getElem?_range inside]
  rfl

/-- A batch is placed between what was accepted before and after it. -/
theorem recordCache_unit {start generated : Nat} (some : generated ≠ 0)
    (le : start ≤ state.converterAccepted) :
    state.recordCache (unitConverter (F := F)) ((start : Int) * frameUnit - 0) generated =
      (true, { state with
        cacheStart := (start : Int) * frameUnit
        cacheEnd := (state.converterAccepted : Int) * frameUnit
        cacheCount := generated }) := by
  have queried : (unitConverter (F := F) (W := W)).converterInputDelay state.converter =
      (Option.some 0, state.converter) := rfl
  have ordered : ¬(state.converterAccepted : Int) * frameUnit < (start : Int) * frameUnit :=
    not_lt.mpr (Int.mul_le_mul_of_nonneg_right (by omega) (by decide))
  unfold recordCache
  rw [if_neg some, queried]
  simp only [Int.sub_zero]
  exact if_neg ordered

section Usable

variable (usable : Binary64.isFinite state.ratio = true ∧
  Binary64.le state.ratio (Binary64.ofRat 0) = false) (positive : 0 < quantum)

include usable positive

/-- A conversion takes what it generates out of the workspace. -/
theorem convert_unit (some : 0 < state.inputPending) :
    state.convert (unitConverter (F := F)) geometry quantum =
      (.ready, state.unitConverted quantum) := by
  have room : 0 < if state.unitGaps = [] then quantum else 1 := by
    split
    · exact positive
    · exact Nat.one_pos
  have used : 0 < state.unitCount quantum := Nat.lt_min.mpr ⟨some, room⟩
  have queried (handle : Unit) : (unitConverter (F := F) (W := W)).converterInputDelay handle =
      (Option.some 0, handle) := rfl
  unfold convert
  rw [classifyGaps_unit]
  dsimp only
  unfold runConverter
  dsimp only
  rw [queried]
  dsimp only
  rw [converterProcess_unit usable _ room]
  dsimp only
  rw [show ({ state with
    gaps := state.unitGaps, outputMissing := state.unitMissing } : ConsumerState F Unit W).offered =
      state.offered from rfl, offered_length]
  have usedEq : min state.inputPending (if state.unitGaps = [] then quantum else 1) =
      state.unitCount quantum := rfl
  have outputEq : (fun index => if index < state.unitCount quantum then state.offered.getD index 0
      else state.output index) = fun index => if index < state.unitCount quantum then
        state.input (state.inputOffset + index) else state.output index := by
    funext index
    split
    · rename_i inside
      exact offered_getD (inside.trans_le (Nat.min_le_left _ _))
    · rfl
  rw [usedEq, outputEq, recordCache_unit used.ne' (by
    rw [converterAccepted_consumeInput]
    exact Nat.le_add_right _ _), converterAccepted_consumeInput]
  dsimp only
  unfold finishConversion
  rw [if_pos used.ne']
  rfl

theorem convert_unit_empty (none : state.inputPending = 0) (sized : 0 < geometry.capacity) :
    state.convert (unitConverter (F := F)) geometry quantum = (.starved, state.unitStalled) := by
  have room : 0 < if state.unitGaps = [] then quantum else 1 := by
    split
    · exact positive
    · exact Nat.one_pos
  have queried (handle : Unit) : (unitConverter (F := F) (W := W)).converterInputDelay handle =
      (some 0, handle) := rfl
  unfold convert
  rw [classifyGaps_unit]
  dsimp only
  unfold runConverter
  dsimp only
  rw [queried]
  dsimp only
  rw [converterProcess_unit usable _ room]
  dsimp only
  rw [show ({ state with
    gaps := state.unitGaps, outputMissing := state.unitMissing } : ConsumerState F Unit W).offered =
      state.offered from rfl, offered_length, none, Nat.zero_min]
  unfold recordCache
  rw [if_pos rfl]
  dsimp only
  unfold finishConversion consumeInput
  dsimp only
  rw [if_neg (by simp)]
  rw [if_neg (by omega)]
  unfold unitStalled
  simp [none]

end Usable

end ConsumerState

/-- The sample of a slot; zeros follow the last one. -/
def pcmAt [Zero F] (line : List (SourceSample F)) (index : Nat) : F :=
  ((line)[index]?).elim 0 SourceSample.pcm

/-- The slot of the next output. -/
def ConsumerState.nextIndex (state : ConsumerState F Unit W) : Nat :=
  state.converterAccepted - state.outputPending

/-- The workspace and the cache hold the stream in order, and the base is where
its stamps begin. -/
structure InOrder [Zero F] (line : List (SourceSample F)) (state : ConsumerState F Unit W) :
    Prop where
  classified : Classified (fun _ => 0) line state
  offered : ∀ index < state.inputPending,
    state.input (state.inputOffset + index) = pcmAt line (state.converterAccepted + index)
  cached : ∀ index < state.outputPending,
    state.output (state.outputOffset + index) = pcmAt line (state.nextIndex + index)
  placed : state.outputPending ≠ 0 →
    state.outputOffset + state.outputPending = state.cacheCount ∧
      state.cacheCount ≤ state.converterAccepted ∧
      state.cacheStart = ((state.converterAccepted - state.cacheCount : Nat) : Int) * frameUnit ∧
      state.cacheEnd = (state.converterAccepted : Int) * frameUnit
  behind : ∀ span ∈ state.gaps, state.converterAccepted ≤ span.stop
  padded : state.inputPadding = true → state.sourceAccepted = state.sourceTaken
  base : ∀ index < state.sourceTaken, ∀ slot mark, (line)[index]? = some slot →
    slot.stamp = some mark →
    state.sourceBase = some (mark.generation, (mark.source : Int) - index)
  based : ∀ base, state.sourceBase = some base → ∃ index < state.sourceTaken, ∃ slot mark,
    (line)[index]? = some slot ∧ slot.stamp = some mark ∧
      base = (mark.generation, (mark.source : Int) - index)

namespace InOrder

variable [Zero F] {line : List (SourceSample F)} {state other : ConsumerState F Unit W}

/-- Only the counts, the queue, the workspace, the cache and the base matter. -/
theorem agree (ordered : InOrder line state)
    (countsEq : other.sourceTaken = state.sourceTaken ∧
      other.sourceAccepted = state.sourceAccepted ∧
      other.paddingAccepted = state.paddingAccepted ∧
      other.inputPending = state.inputPending ∧ other.inputPadding = state.inputPadding)
    (gapsEq : other.gaps = state.gaps)
    (cacheEq : other.outputOffset = state.outputOffset ∧
      other.outputPending = state.outputPending ∧ other.outputMissing = state.outputMissing ∧
      other.cacheStart = state.cacheStart ∧ other.cacheEnd = state.cacheEnd ∧
      other.cacheCount = state.cacheCount)
    (samplesEq : other.inputOffset = state.inputOffset ∧ other.input = state.input ∧
      other.output = state.output) (baseEq : other.sourceBase = state.sourceBase) :
    InOrder line other := by
  have classified := ordered.classified.agree countsEq rfl gapsEq cacheEq
  obtain ⟨takenEq, acceptedEq, paddingEq, pendingEq, flagEq⟩ := countsEq
  obtain ⟨offsetEq, cachedEq, missingEq, startEq, endEq, countEq⟩ := cacheEq
  obtain ⟨inputOffsetEq, inputEq, outputEq⟩ := samplesEq
  have sum : other.converterAccepted = state.converterAccepted := by
    unfold ConsumerState.converterAccepted
    rw [acceptedEq, paddingEq]
  have next : other.nextIndex = state.nextIndex := by
    unfold ConsumerState.nextIndex
    rw [sum, cachedEq]
  constructor
  · exact classified
  · rw [pendingEq, inputOffsetEq, inputEq, sum]
    exact ordered.offered
  · rw [cachedEq, offsetEq, outputEq, next]
    exact ordered.cached
  · rw [cachedEq, offsetEq, countEq, startEq, endEq, sum]
    exact ordered.placed
  · rw [gapsEq, sum]
    exact ordered.behind
  · rw [flagEq, acceptedEq, takenEq]
    exact ordered.padded
  · rw [takenEq, baseEq]
    exact ordered.base
  · rw [takenEq, baseEq]
    exact ordered.based

theorem fresh (line : List (SourceSample F))
    (counts : state.sourceTaken = 0 ∧ state.sourceAccepted = 0 ∧ state.paddingAccepted = 0 ∧
      state.inputPending = 0 ∧ state.inputPadding = false)
    (empty : state.outputPending = 0) (gapsEq : state.gaps = [])
    (baseEq : state.sourceBase = none) : InOrder line state := by
  obtain ⟨taken, accepted, padding, pending, unpadded⟩ := counts
  have none (span : GapSpan) : span ∉ state.gaps := by
    rw [gapsEq]
    exact List.not_mem_nil
  constructor
  · constructor
    · omega
    · omega
    · exact fun padded => Bool.noConfusion (unpadded.symm.trans padded)
    · exact gapsEq ▸ .nil
    · omega
    · omega
  · omega
  · omega
  · exact fun some => (some empty).elim
  · exact fun span member => (none span member).elim
  · exact fun padded => Bool.noConfusion (unpadded.symm.trans padded)
  · omega
  · intro base found
    rw [baseEq] at found
    cases found

theorem pending_le (ordered : InOrder line state) :
    state.outputPending ≤ state.converterAccepted := by
  by_cases empty : state.outputPending = 0
  · omega
  · obtain ⟨count, le, -⟩ := ordered.placed empty
    omega

/-- Once the workspace is empty every slot that was taken is converted. -/
theorem sourceAccepted_eq (ordered : InOrder line state) (empty : state.inputPending = 0) :
    state.sourceAccepted = state.sourceTaken := by
  cases padding : state.inputPadding with
  | false =>
      have sum := ordered.classified.unpadded padding
      omega
  | true => exact ordered.padded padding

/-- Slots that are not taken yet change nothing, unless zeros follow. -/
theorem extend (ordered : InOrder line state) (unpadded : state.inputPadding = false)
    (more : List (SourceSample F)) : InOrder (line ++ more) state := by
  have taken := ordered.classified.taken_le
  have sum := ordered.classified.unpadded unpadded
  have accepted : state.converterAccepted + state.inputPending = state.sourceTaken := by
    unfold ConsumerState.converterAccepted
    omega
  have same {index : Nat} (below : index < state.sourceTaken) :
      (line ++ more)[index]? = (line)[index]? :=
    List.getElem?_append_left (below.trans_le taken)
  have sample {index : Nat} (below : index < state.sourceTaken) :
      pcmAt (line ++ more) index = pcmAt line index := by
    unfold pcmAt
    rw [same below]
  have pending := ordered.pending_le
  refine
    { ordered with
      classified := ordered.classified.extend unpadded more
      offered := fun index inside => ?_
      cached := fun index inside => ?_
      base := fun index below slot mark slotAt => ?_
      based := fun base baseEq => ?_ }
  · rw [sample (by omega)]
    exact ordered.offered index inside
  · rw [sample (by unfold ConsumerState.nextIndex; omega)]
    exact ordered.cached index inside
  · rw [same below] at slotAt
    exact ordered.base index below slot mark slotAt
  · obtain ⟨index, below, rest⟩ := ordered.based base baseEq
    refine ⟨index, below, ?_⟩
    rw [same below]
    exact rest

theorem acceptSource (ordered : InOrder line state) (unpadded : state.inputPadding = false)
    {gapCapacity : Nat} {slot : SourceSample F} (slotAt : (line)[state.sourceTaken]? = some slot)
    (accepted : (state.acceptSource gapCapacity slot).1 = true) :
    InOrder line (state.acceptSource gapCapacity slot).2 := by
  have classified := ordered.classified.acceptSource unpadded slotAt accepted
  have sum := ordered.classified.unpadded unpadded
  have whole : state.converterAccepted + state.inputPending = state.sourceTaken := by
    unfold ConsumerState.converterAccepted
    omega
  obtain ⟨base, fencedEq, kept, new⟩ : ∃ base,
      ((state.fence slot.stamp).1 = true → (state.fence slot.stamp).2 = { state with
        sourceBase := base }) ∧
      ((state.fence slot.stamp).1 = true → base = state.sourceBase ∨ ∃ mark,
        slot.stamp = some mark ∧ base =
          some (mark.generation, (mark.source : Int) - state.sourceTaken)) ∧
      ((state.fence slot.stamp).1 = true → (∀ old, state.sourceBase = some old → base = some old) ∧
        ∀ mark, slot.stamp = some mark →
          base = some (mark.generation, (mark.source : Int) - state.sourceTaken)) := by
    rcases state.fence_cases slot.stamp with
      ⟨unstamped, fenced⟩ | ⟨mark, stamped, continues, fenced⟩ | ⟨mark, -, -, fenced⟩
    · refine ⟨state.sourceBase, fun _ => by rw [fenced], fun _ => .inl rfl, fun _ =>
        ⟨fun _ same => same, fun mark stamped => ?_⟩⟩
      rw [unstamped] at stamped
      cases stamped
    · have baseEq : state.baseOf mark =
          (mark.generation, (mark.source : Int) - state.sourceTaken) := by
        refine Prod.ext continues.1 ?_
        have continued := continues.2
        dsimp only
        omega
      refine ⟨some (state.baseOf mark), fun _ => by rw [fenced], fun _ =>
        .inr ⟨mark, stamped, by rw [baseEq]⟩, fun _ => ⟨fun old same => ?_, fun other same => ?_⟩⟩
      · unfold ConsumerState.baseOf
        rw [same]
        rfl
      · rw [stamped] at same
        cases same
        rw [baseEq]
    · refine ⟨none, ?_, ?_, ?_⟩ <;>
      · intro continues
        rw [fenced] at continues
        cases continues
  rcases state.acceptSource_cases gapCapacity slot with
    ⟨gaps, continues, grows, resultEq⟩ | ⟨-, resultEq⟩ | ⟨-, -, -, resultEq⟩
  · have marks := new continues
    rw [resultEq, fencedEq continues] at classified ⊢
    constructor
    · exact classified
    · intro index inside
      change index < state.inputPending + 1 at inside
      change Function.update state.input (state.inputOffset + state.inputPending) slot.pcm
        (state.inputOffset + index) = pcmAt line (state.converterAccepted + index)
      by_cases last : index = state.inputPending
      · rw [last, Function.update_self, whole]
        unfold pcmAt
        rw [slotAt]
        rfl
      · rw [Function.update_of_ne (by omega)]
        exact ordered.offered index (by omega)
    · exact ordered.cached
    · exact ordered.placed
    · intro span member
      change state.converterAccepted ≤ span.stop
      change span ∈ gaps at member
      split at grows
      · rcases extendGaps_mem grows member with earlier | last
        · exact ordered.behind span earlier
        · omega
      · rw [grows] at member
        exact ordered.behind span member
    · exact fun padding => Bool.noConfusion (unpadded.symm.trans padding)
    · intro index below slot' mark slotAt' stamped
      change index < state.sourceTaken + 1 at below
      change base = _
      rcases Nat.lt_succ_iff_lt_or_eq.mp below with earlier | rfl
      · exact marks.1 _ (ordered.base index earlier slot' mark slotAt' stamped)
      · rw [slotAt] at slotAt'
        cases slotAt'
        exact marks.2 mark stamped
    · intro found foundEq
      change base = some found at foundEq
      rcases kept continues with same | ⟨mark, stamped, baseEq⟩
      · obtain ⟨index, below, rest⟩ := ordered.based found (same ▸ foundEq)
        exact ⟨index, Nat.lt_succ_of_lt below, rest⟩
      · rw [baseEq] at foundEq
        cases foundEq
        exact ⟨state.sourceTaken, Nat.lt_succ_self _, slot, mark, slotAt, stamped, rfl⟩
  · rw [resultEq] at accepted
    cases accepted
  · rw [resultEq] at accepted
    cases accepted

theorem makeInputSpace (ordered : InOrder line state) (additional capacity : Nat) :
    InOrder line (state.makeInputSpace additional capacity) := by
  have classified := ordered.classified.makeInputSpace additional capacity
  unfold ConsumerState.makeInputSpace at classified ⊢
  split
  · exact ordered
  · rename_i crowded
    rw [if_neg crowded] at classified
    refine
      { ordered with
        classified := classified
        offered := fun index inside => ?_ }
    dsimp only
    rw [Nat.zero_add, if_pos inside]
    exact ordered.offered index inside

theorem padInput (ordered : InOrder line state) (last : line.length = state.sourceTaken)
    (quantum : Nat) : InOrder line (state.padInput quantum) := by
  have classified := ordered.classified.padInput last quantum
  have accepted := ordered.sourceAccepted_eq
  unfold ConsumerState.padInput at classified ⊢
  split
  · rename_i pads
    rw [if_pos pads] at classified
    refine
      { ordered with
        classified := classified
        offered := fun index inside => ?_
        padded := fun _ => accepted pads.1 }
    dsimp only at inside ⊢
    rw [Nat.zero_add, if_pos inside]
    change 0 = pcmAt line (state.converterAccepted + index)
    have whole := accepted pads.1
    unfold pcmAt ConsumerState.converterAccepted
    rw [List.getElem?_eq_none (by omega)]
    rfl
  · exact ordered

theorem room (ordered : InOrder line state)
    (unpadded : state.inputPadding = false) {capacity gapCapacity : Nat}
    (fits : state.inputPending < capacity) (reserved : capacity < gapCapacity) :
    state.gaps.length < gapCapacity := by
  have sum := ordered.classified.unpadded unpadded
  have accepted : state.converterAccepted + state.inputPending = state.sourceTaken := by
    unfold ConsumerState.converterAccepted
    omega
  by_cases none : state.gaps = []
  · rw [none, List.length_nil]
    omega
  have behind : ∀ span ∈ state.gaps, state.converterAccepted - 1 < span.stop := by
    intro span member
    have later := ordered.behind span member
    have nonempty := (ordered.classified.ordered.each span member).1
    omega
  have few := ordered.classified.ordered.length_le behind none
  omega

end InOrder

section Steps

variable [Binary32 F] [Binary64 W] {geometry : Geometry} {line : List (SourceSample F)}
  {state : ConsumerState F Unit W}

omit [Binary64 W] in
theorem InOrder.nextIndex_nextCached (ordered : InOrder line state)
    (pending : state.outputPending ≠ 0) :
    state.nextCached.2.nextIndex = state.nextIndex + 1 := by
  have pendingLe := ordered.pending_le
  change state.converterAccepted - (state.outputPending - 1) =
    state.converterAccepted - state.outputPending + 1
  omega

omit [Binary64 W] in
theorem InOrder.popped (ordered : InOrder line state) (result : RefillResult)
    (ready : result = .ready → state.outputPending ≠ 0) :
    InOrder line (state.popped result).2 := by
  have classified := ordered.classified.popped result
  unfold ConsumerState.popped at classified ⊢
  split
  · rename_i cached
    rw [if_pos cached] at classified
    have some := ready cached
    have pending := ordered.pending_le
    obtain ⟨count, le, startEq, endEq⟩ := ordered.placed some
    have next := ordered.nextIndex_nextCached some
    refine
      { ordered with
        classified := classified
        cached := fun index inside => ?_
        placed := fun left => ?_ }
    · rw [next]
      change index < state.outputPending - 1 at inside
      change state.output ((if state.outputPending - 1 = 0 then 0 else state.outputOffset + 1) +
        index) = _
      rw [if_neg (by omega), Nat.add_assoc, Nat.add_assoc]
      exact ordered.cached (1 + index) (by omega)
    · change state.outputPending - 1 ≠ 0 at left
      refine ⟨?_, le, startEq, endEq⟩
      change (if state.outputPending - 1 = 0 then 0 else state.outputOffset + 1) +
        (state.outputPending - 1) = state.cacheCount
      rw [if_neg left]
      omega
  · exact ordered

variable (usable : Binary64.isFinite state.ratio = true ∧
  Binary64.le state.ratio (Binary64.ofRat 0) = false)

include usable

theorem InOrder.convert (ordered : InOrder line state) (empty : state.outputPending = 0)
    (sized : 0 < geometry.capacity) {quantum : Nat} (positive : 0 < quantum) :
    InOrder line (state.convert (unitConverter (F := F)) geometry quantum).2 := by
  have classified : Classified (fun _ => 0) line
      (state.convert (unitConverter (F := F)) geometry quantum).2 :=
    convert_classified unitConverter_places ordered.classified empty quantum
  have kept : ∀ span ∈ state.unitGaps, span ∈ state.gaps :=
    fun span member => (List.dropWhile_sublist _).subset member
  have unpassed := ordered.classified.ordered.unpassed state.converterAccepted
  rcases Nat.eq_zero_or_pos state.inputPending with none | some
  · rw [ConsumerState.convert_unit_empty usable positive none sized] at classified ⊢
    refine
      { ordered with
        classified := classified
        offered := fun index inside => ?_
        cached := fun index inside => (Nat.not_lt_zero index inside).elim
        placed := fun left => (left rfl).elim
        behind := fun span member => ordered.behind span (kept span member) }
    change index < state.inputPending at inside
    omega
  · rw [ConsumerState.convert_unit usable positive some] at classified ⊢
    have usedLe : state.unitCount quantum ≤ state.inputPending := Nat.min_le_left _ _
    have accepted : (state.unitConverted quantum).converterAccepted =
        state.converterAccepted + state.unitCount quantum :=
      ConsumerState.converterAccepted_consumeInput _ _
    have next : (state.unitConverted quantum).nextIndex = state.converterAccepted := by
      change (state.unitConverted quantum).converterAccepted - state.unitCount quantum = _
      omega
    refine ⟨classified, fun index inside => ?_, fun index inside => ?_, fun _ => ?_,
      fun span member => ?_, fun padding => ?_, ordered.base, ordered.based⟩
    · change index < state.inputPending - state.unitCount quantum at inside
      change state.input ((if state.inputPending - state.unitCount quantum = 0 then 0
        else state.inputOffset + state.unitCount quantum) + index) = _
      rw [if_neg (by omega), accepted, Nat.add_assoc, Nat.add_assoc]
      exact ordered.offered (state.unitCount quantum + index) (by omega)
    · change index < state.unitCount quantum at inside
      change (if 0 + index < state.unitCount quantum then state.input (state.inputOffset +
        (0 + index)) else state.output (0 + index)) = _
      rw [next, Nat.zero_add, if_pos inside]
      exact ordered.offered index (by omega)
    · rw [accepted]
      change 0 + state.unitCount quantum = state.unitCount quantum ∧ state.unitCount quantum ≤ _ ∧
        (state.converterAccepted : Int) * frameUnit = _ * _ ∧ _ = _
      refine ⟨Nat.zero_add _, Nat.le_add_left _ _, ?_, rfl⟩
      change _ = ((state.converterAccepted + state.unitCount quantum - state.unitCount quantum :
        Nat) : Int) * frameUnit
      rw [Nat.add_sub_cancel]
    · rw [accepted]
      have member : span ∈ state.unitGaps := member
      have later := unpassed span member
      have single : state.unitCount quantum ≤ 1 := by
        unfold ConsumerState.unitCount
        rw [if_neg (List.ne_nil_of_mem member)]
        exact Nat.min_le_right _ _
      omega
    · change state.inputPadding = true at padding
      change (if state.inputPadding then state.sourceAccepted else
        state.sourceAccepted + state.unitCount quantum) = state.sourceTaken
      rw [if_pos padding]
      exact ordered.padded padding

end Steps

section Kept

variable [Binary32 F] [Binary64 W] [OrderedBinary64 W] {geometry : Geometry}
  {state : ConsumerState F Unit W} {ring : Ring F Unit W}

/-- The ratio is cleared, or set within the bounds. -/
def RatioSet (ratio : W) : Prop :=
  LawfulBinary64.value ratio = some 0 ∨ Bounded ratio

theorem RatioSet.bounded {ratio : W} (set : RatioSet ratio)
    (nonzero : Binary64.eq ratio (Binary64.ofRat 0) = false) : Bounded ratio := by
  apply set.resolve_left
  intro cleared
  have compared := LawfulBinary64.eq_eq _ _ _ _ cleared (value_int (W := W) 0 (by decide))
  push_cast at compared
  rw [compared] at nonzero
  simp at nonzero

/-- Unless a mute fault is latched every taken slot was accepted, in order. -/
structure UnitHolds (state : ConsumerState F Unit W) (ring : Ring F Unit W) : Prop where
  ordered : ring.pcm.passed.length = ring.ledger.streamStart + state.sourceTaken →
    InOrder ring.takenLine state
  whole : state.muteFault = false →
    ring.pcm.passed.length = ring.ledger.streamStart + state.sourceTaken
  working : state.resetFailed = false

omit [Binary32 F] [Binary64 W] [OrderedBinary64 W] in
/-- Taking a slot clears no fault, and leaves the ratio alone. -/
theorem acceptSource_unfaulted (gapCapacity : Nat) (slot : SourceSample F) :
    ((state.acceptSource gapCapacity slot).2.muteFault = false → state.muteFault = false) ∧
      (state.acceptSource gapCapacity slot).2.ratio = state.ratio := by
  have fenced : ((state.fence slot.stamp).2.muteFault = false → state.muteFault = false) ∧
      (state.fence slot.stamp).2.ratio = state.ratio := by
    rcases state.fence_cases slot.stamp with
      ⟨-, fenced⟩ | ⟨mark, -, -, fenced⟩ | ⟨mark, -, -, fenced⟩ <;> rw [fenced]
    · exact ⟨id, rfl⟩
    · exact ⟨id, rfl⟩
    · exact ⟨fun latched => Bool.noConfusion latched, rfl⟩
  rcases state.acceptSource_cases gapCapacity slot with
    ⟨gaps, -, -, resultEq⟩ | ⟨-, resultEq⟩ | ⟨-, -, -, resultEq⟩ <;> rw [resultEq] <;> exact fenced

omit [Binary32 F] [Binary64 W] [OrderedBinary64 W] in
theorem acceptSource_clean {gapCapacity : Nat} (slot : SourceSample F)
    (room : state.gaps.length < gapCapacity)
    (clean : (state.acceptSource gapCapacity slot).2.muteFault = false) :
    (state.acceptSource gapCapacity slot).1 = true := by
  rcases state.acceptSource_cases gapCapacity slot with
    ⟨gaps, -, -, resultEq⟩ | ⟨refused, resultEq⟩ | ⟨-, -, full, -⟩
  · rw [resultEq]
  · rw [resultEq] at clean
    rcases state.fence_cases slot.stamp with
      ⟨-, fenced⟩ | ⟨mark, -, -, fenced⟩ | ⟨mark, -, -, fenced⟩
    · rw [fenced] at refused
      cases refused
    · rw [fenced] at refused
      cases refused
    · rw [fenced] at clean
      cases clean
  · rw [extendGaps_none full] at room
    exact (Nat.lt_irrefl _ room).elim

omit [OrderedBinary64 W] in
theorem convert_unit_muteFault (usable : Binary64.isFinite state.ratio = true ∧
      Binary64.le state.ratio (Binary64.ofRat 0) = false) (sized : 0 < geometry.capacity)
    {quantum : Nat} (positive : 0 < quantum) :
    (state.convert (unitConverter (F := F)) geometry quantum).2.muteFault = state.muteFault ∧
      (state.convert (unitConverter (F := F)) geometry quantum).2.ratio = state.ratio := by
  rcases Nat.eq_zero_or_pos state.inputPending with none | some
  · rw [ConsumerState.convert_unit_empty usable positive none sized]
    exact ⟨rfl, rfl⟩
  · rw [ConsumerState.convert_unit usable positive some]
    exact ⟨rfl, rfl⟩

namespace UnitHolds

omit [Binary64 W] [OrderedBinary64 W] in
/-- A step that neither takes nor refuses a slot only has to keep the order. -/
theorem still (holds : UnitHolds state ring) {other : ConsumerState F Unit W}
    (takenEq : other.sourceTaken = state.sourceTaken)
    (clean : other.muteFault = false → state.muteFault = false)
    (resetEq : other.resetFailed = state.resetFailed)
    (kept : InOrder ring.takenLine state → InOrder ring.takenLine other) :
    UnitHolds other ring where
  ordered whole := kept (holds.ordered (takenEq ▸ whole))
  whole fault := takenEq ▸ holds.whole (clean fault)
  working := resetEq.trans holds.working

omit [Binary64 W] [OrderedBinary64 W] in
/-- A step that touches neither the counts, nor the caches, nor the base. -/
theorem aside (holds : UnitHolds state ring) {other : ConsumerState F Unit W}
    (sameEq : other = { state with
      finite := other.finite, quiet := other.quiet, plc := other.plc
      occupancyMilli := other.occupancyMilli, ratio := other.ratio, primed := other.primed
      muteHistory := other.muteHistory, muteFault := other.muteFault
      plcPositions := other.plcPositions, plcPosition := other.plcPosition })
    (clean : other.muteFault = false → state.muteFault = false) : UnitHolds other ring := by
  refine holds.still ?_ clean ?_ fun ordered => ?_ <;> rw [sameEq]
  exact ordered.agree ⟨rfl, rfl, rfl, rfl, rfl⟩ rfl ⟨rfl, rfl, rfl, rfl, rfl, rfl⟩
    ⟨rfl, rfl, rfl⟩ rfl

omit [Binary64 W] [OrderedBinary64 W] in
/-- Only what is taken and where the stream began matters of the ring. -/
theorem elsewhere (holds : UnitHolds state ring) {after : Ring F Unit W}
    (passedEq : after.pcm.passed = ring.pcm.passed)
    (startEq : after.ledger.streamStart = ring.ledger.streamStart) : UnitHolds state after := by
  have lineEq : after.takenLine = ring.takenLine := by
    unfold Ring.takenLine
    rw [passedEq, startEq]
  refine ⟨?_, ?_, holds.working⟩
  · rw [passedEq, startEq, lineEq]
    exact holds.ordered
  · rw [passedEq, startEq]
    exact holds.whole

omit [Binary64 W] [OrderedBinary64 W] in
theorem take {slot : SourceSample F} {slack : Nat} (holds : UnitHolds state ring)
    (accounts : Accounts geometry slack state ring) (unpadded : state.inputPadding = false)
    (fits : state.inputPending < geometry.capacity)
    (reserved : geometry.capacity < geometry.gapCapacity) :
    UnitHolds (state.acceptSource geometry.gapCapacity slot).2 (takeSlot geometry slot ring) := by
  have startLe : ring.ledger.streamStart + state.sourceTaken ≤ ring.pcm.passed.length :=
    accounts.taken_le
  have passedEq : (takeSlot geometry slot ring).pcm.passed.length =
      ring.pcm.passed.length + 1 := by
    rw [takeSlot_passed, List.length_append, List.length_singleton]
  have startEq : (takeSlot geometry slot ring).ledger.streamStart =
      ring.ledger.streamStart := rfl
  have takenEq := (state.acceptSource_count geometry.gapCapacity slot).1
  refine ⟨fun whole => ?_, fun clean => ?_, ?_⟩
  · rw [takenEq, passedEq, startEq] at whole
    split at whole
    · rename_i accepted
      have earlier : ring.pcm.passed.length = ring.ledger.streamStart + state.sourceTaken := by
        omega
      rw [takenLine_takeSlot slot (by omega)]
      apply ((holds.ordered earlier).extend unpadded [slot]).acceptSource unpadded _ accepted
      rw [List.getElem?_append_right (takenLine_length earlier).le, takenLine_length earlier,
        Nat.sub_self]
      rfl
    · omega
  · have earlier := holds.whole ((acceptSource_unfaulted _ slot).1 clean)
    have room := (holds.ordered earlier).room unpadded fits reserved
    rw [takenEq, if_pos (acceptSource_clean slot room clean), passedEq, startEq]
    omega
  · exact (state.acceptSource_keeps geometry.gapCapacity slot).resetFailed_eq.trans holds.working

end UnitHolds

variable [Widening F W]

/-- Every local step at unit rate keeps the caches in order. -/
theorem unitKept (sized : 0 < geometry.capacity)
    (reserved : geometry.capacity < geometry.gapCapacity) (targetLt : geometry.target < 2 ^ 32)
    (nominal : Bounded (nominalRatio W geometry.outputRateHz geometry.inputRateHz))
    {shape : List (SourceSample F) → List SlotNote → Prop} :
    SteeredInvariant unitConverter geometry shape
      (fun state (ring : Ring F Unit W) => UnitHolds state ring ∧ RatioSet state.ratio)
      fun state ring => UnitHolds state ring ∧ Bounded state.ratio where
  published accounts moves holds :=
    ⟨holds.1.elsewhere (moves.passed_eq accounts.pcm) moves.streamStart_eq, holds.2⟩
  same queues holds :=
    ⟨holds.1.elsewhere (congrArg Channel.passed queues.pcm_eq) queues.start_eq, holds.2⟩
  capture _ _ _ holds := ⟨holds.1.aside rfl id, holds.2⟩
  receive {state ring interval rest} _ _ holds := by
    have received : UnitHolds (state.receive interval) ring :=
      holds.1.aside rfl fun clean => (Bool.or_eq_false_iff.mp clean).1
    exact ⟨received.elsewhere rfl rfl, holds.2⟩
  flags _ _ holds := ⟨holds.1.aside rfl id, holds.2⟩
  space {state ring} wanted _ _ holds := by
    have fields : (state.makeInputSpace wanted geometry.capacity).muteFault =
        state.muteFault ∧ (state.makeInputSpace wanted geometry.capacity).ratio =
          state.ratio := by
      unfold ConsumerState.makeInputSpace
      split <;> exact ⟨rfl, rfl⟩
    refine ⟨holds.1.still (state.makeInputSpace_count _ _).taken_eq (fields.1 ▸ id)
      (state.makeInputSpace_keeps _ _).resetFailed_eq fun ordered =>
        ordered.makeInputSpace _ _, fields.2 ▸ holds.2⟩
  take {state ring slot rest} accounts _ unpadded fits _ holds :=
    ⟨holds.1.take accounts unpadded (Nat.lt_of_le_of_lt (Nat.le_add_left _ _) fits) reserved,
      (acceptSource_unfaulted geometry.gapCapacity slot).2.symm ▸ holds.2⟩
  pad {state ring} _ _ _ holds := by
    have fields : (state.padInput (min geometry.capacity converterQuantum)).muteFault =
        state.muteFault ∧ (state.padInput (min geometry.capacity converterQuantum)).ratio =
          state.ratio := by
      unfold ConsumerState.padInput
      split <;> exact ⟨rfl, rfl⟩
    refine ⟨⟨fun whole => ?_, fun clean => ?_, ?_⟩, fields.2 ▸ holds.2⟩
    · rw [(state.padInput_count _).taken_eq] at whole
      exact (holds.1.ordered whole).padInput (takenLine_length whole) _
    · rw [(state.padInput_count _).taken_eq]
      exact holds.1.whole (fields.1 ▸ clean)
    · exact (state.padInput_keeps _).resetFailed_eq.trans holds.1.working
  query _ _ holds := ⟨holds.1.still rfl id rfl fun ordered => ordered, holds.2⟩
  steer smoothed _ holds :=
    ⟨holds.1.aside rfl id, steeredRatio_bounded targetLt nominal holds.2 _⟩
  nominal _ holds := ⟨holds.1.aside rfl id, nominal⟩
  keep _ nonzero holds := ⟨holds.1, holds.2.bounded nonzero⟩
  setPublished accounts moves holds :=
    ⟨holds.1.elsewhere (moves.passed_eq accounts.pcm) moves.streamStart_eq, holds.2⟩
  setSame queues holds :=
    ⟨holds.1.elsewhere (congrArg Channel.passed queues.pcm_eq) queues.start_eq, holds.2⟩
  convert {state ring} _ refilling holds := by
    have quantum : 0 < min geometry.capacity converterQuantum :=
      Nat.lt_min.mpr ⟨sized, by decide⟩
    obtain ⟨faultEq, ratioEq⟩ := convert_unit_muteFault (F := F) holds.2.usable sized quantum
    refine ⟨holds.1.still (ConsumerState.convert_count _ _ _ _).taken_eq (faultEq ▸ id) ?_ fun ordered =>
      ordered.convert holds.2.usable refilling.2 sized quantum, .inr (ratioEq ▸ holds.2)⟩
    exact (ConsumerState.convert_cases state unitConverter geometry _).keeps.2.1
  emit {slack result state ring} _ cached _ holds := by
    obtain ⟨plc, plcPositions, plcPosition, muteHistory, emissionEq⟩ :=
      state.emission_state geometry result
    have popped : UnitHolds (state.popped result).2 ring ∧
        RatioSet (state.popped result).2.ratio := by
      have fields : (state.popped result).2.sourceTaken = state.sourceTaken ∧
          (state.popped result).2.muteFault = state.muteFault ∧
          (state.popped result).2.resetFailed = state.resetFailed ∧
          (state.popped result).2.ratio = state.ratio := by
        unfold ConsumerState.popped
        split <;> exact ⟨rfl, rfl, rfl, rfl⟩
      obtain ⟨takenEq, faultEq, resetEq, ratioEq⟩ := fields
      exact ⟨holds.1.still takenEq (faultEq ▸ id) resetEq fun ordered =>
        ordered.popped result cached, ratioEq ▸ holds.2⟩
    rw [emissionEq]
    exact ⟨popped.1.aside rfl id, popped.2⟩
  release {state boundary ring} _ _ _ holds := by
    obtain ⟨plc, releaseEq⟩ := release_cases geometry state boundary
    rw [releaseEq]
    exact ⟨holds.1.aside rfl id, holds.2⟩
  reset {state earlier ring} quiet _ completed := by
    refine ⟨⟨fun _ => ?_, fun _ => completed.start_eq.symm, rfl⟩, .inl ?_⟩
    · exact .fresh _ ⟨rfl, rfl, rfl, rfl, rfl⟩ rfl rfl rfl
    · have zeroEq := value_int (W := W) 0 (by decide)
      exact_mod_cast zeroEq

end Kept

end PcmRing
