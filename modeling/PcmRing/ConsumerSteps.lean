import PcmRing.ConsumerRender

/-!
# What the consumer's local steps do

Each local step of a refill is described once: which fields it leaves alone,
and every way in which it can end.  Invariants of the consumer are derived from
these descriptions and never unfold the steps again.
-/

namespace PcmRing.ConsumerState

variable {F S W : Type}

/-- A conversion is under way: nothing is cached and the converter may be used. -/
def Refilling (state : ConsumerState F S W) : Prop :=
  state.resetFailed = false ∧ state.outputPending = 0

/-- The boundary, the reset flag, the cache and the mute history are as they were. -/
structure Keeps (before after : ConsumerState F S W) : Prop where
  finite_eq : after.finite = before.finite
  resetFailed_eq : after.resetFailed = before.resetFailed
  outputPending_eq : after.outputPending = before.outputPending
  muteHistory_eq : after.muteHistory = before.muteHistory

theorem Keeps.trans {first middle last : ConsumerState F S W} (before : Keeps first middle)
    (after : Keeps middle last) : Keeps first last :=
  ⟨after.finite_eq.trans before.finite_eq, after.resetFailed_eq.trans before.resetFailed_eq,
    after.outputPending_eq.trans before.outputPending_eq,
    after.muteHistory_eq.trans before.muteHistory_eq⟩

theorem Keeps.refilling {before after : ConsumerState F S W} (keeps : Keeps before after)
    (refilling : before.Refilling) : after.Refilling :=
  ⟨keeps.resetFailed_eq.trans refilling.1, keeps.outputPending_eq.trans refilling.2⟩

variable (state : ConsumerState F S W)

theorem makeInputSpace_keeps (additional capacity : Nat) :
    Keeps state (state.makeInputSpace additional capacity) := by
  unfold makeInputSpace
  split <;> exact ⟨rfl, rfl, rfl, rfl⟩

/-- What a refill still wants fits behind the workspace once it is made room for. -/
theorem makeInputSpace_room {wanted capacity : Nat}
    (fits : wanted = 0 ∨ state.inputPending + wanted ≤ capacity) :
    wanted = 0 ∨ (state.makeInputSpace wanted capacity).inputOffset +
      (state.makeInputSpace wanted capacity).inputPending + wanted ≤ capacity := by
  refine fits.imp_right fun fits => ?_
  unfold makeInputSpace
  split
  · rename_i kept
    omega
  · change 0 + state.inputPending + wanted ≤ capacity
    omega

/-- A fence only sets the base of the stream, or latches the fault. -/
theorem fence_cases (stamp : Option Stamp) :
    (stamp = none ∧ state.fence stamp = (true, state)) ∨
    (∃ mark, stamp = some mark ∧ state.Continues mark ∧
      state.fence stamp = (true, { state with sourceBase := some (state.baseOf mark) })) ∨
    (∃ mark, stamp = some mark ∧ ¬state.Continues mark ∧
      state.fence stamp = (false, { state with
        sourceBase := some (state.baseOf mark), muteFault := true })) := by
  cases stamp with
  | none => exact .inl ⟨rfl, rfl⟩
  | some mark =>
      by_cases continues : state.Continues mark
      · exact .inr (.inl ⟨mark, rfl, continues, by simp [fence, continues]⟩)
      · exact .inr (.inr ⟨mark, rfl, continues, by simp [fence, continues]⟩)

/-- A taken slot is accepted, stopped by the fence, or finds the gap queue full. -/
theorem acceptSource_cases (gapCapacity : Nat) (slot : SourceSample F) :
    (∃ gaps, (state.fence slot.stamp).1 = true ∧
      (if slot.missing then extendGaps gapCapacity state.sourceTaken state.gaps = some gaps
        else gaps = state.gaps) ∧
      state.acceptSource gapCapacity slot =
        (true, { (state.fence slot.stamp).2 with gaps := gaps }.appendInput slot.pcm)) ∨
    ((state.fence slot.stamp).1 = false ∧
      state.acceptSource gapCapacity slot = (false, (state.fence slot.stamp).2.refuse)) ∨
    ((state.fence slot.stamp).1 = true ∧ slot.missing = true ∧
      extendGaps gapCapacity state.sourceTaken state.gaps = none ∧
      state.acceptSource gapCapacity slot = (false, (state.fence slot.stamp).2.refuse)) := by
  have kept : (state.fence slot.stamp).2.sourceTaken = state.sourceTaken ∧
      (state.fence slot.stamp).2.gaps = state.gaps := by
    rcases state.fence_cases slot.stamp with
      ⟨_, fenced⟩ | ⟨mark, _, _, fenced⟩ | ⟨mark, _, _, fenced⟩ <;> rw [fenced] <;>
      exact ⟨rfl, rfl⟩
  unfold acceptSource
  rw [← kept.1, ← kept.2]
  cases continues : (state.fence slot.stamp).1 with
  | false => exact .inr (.inl ⟨rfl, by simp [continues]⟩)
  | true =>
      cases missing : slot.missing with
      | false =>
          exact .inl ⟨(state.fence slot.stamp).2.gaps, rfl, by simp [continues]⟩
      | true =>
          cases extended : extendGaps gapCapacity (state.fence slot.stamp).2.sourceTaken
            (state.fence slot.stamp).2.gaps with
          | none => exact .inr (.inr ⟨rfl, rfl, rfl, by simp [continues, extended]⟩)
          | some gaps => exact .inl ⟨gaps, rfl, by simp, by simp [continues, extended]⟩

theorem fence_keeps (stamp : Option Stamp) : Keeps state (state.fence stamp).2 := by
  rcases state.fence_cases stamp with
    ⟨_, fenced⟩ | ⟨mark, _, _, fenced⟩ | ⟨mark, _, _, fenced⟩ <;> rw [fenced] <;>
    exact ⟨rfl, rfl, rfl, rfl⟩

theorem acceptSource_keeps (gapCapacity : Nat) (slot : SourceSample F) :
    Keeps state (state.acceptSource gapCapacity slot).2 := by
  refine (state.fence_keeps slot.stamp).trans ?_
  rcases state.acceptSource_cases gapCapacity slot with
    ⟨gaps, _, _, accepted⟩ | ⟨_, accepted⟩ | ⟨_, _, _, accepted⟩ <;> rw [accepted] <;>
    exact ⟨rfl, rfl, rfl, rfl⟩

theorem acceptSource_inputPending (gapCapacity : Nat) (slot : SourceSample F)
    (taken : (state.acceptSource gapCapacity slot).1 = true) :
    (state.acceptSource gapCapacity slot).2.inputPending = state.inputPending + 1 := by
  rcases state.acceptSource_cases gapCapacity slot with
    ⟨gaps, _, _, accepted⟩ | ⟨_, accepted⟩ | ⟨_, _, _, accepted⟩
  · rw [accepted]
    rcases state.fence_cases slot.stamp with
      ⟨_, fenced⟩ | ⟨mark, _, _, fenced⟩ | ⟨mark, _, _, fenced⟩ <;> rw [fenced] <;> rfl
  · rw [accepted] at taken
    cases taken
  · rw [accepted] at taken
    cases taken

theorem acceptSource_inputOffset (gapCapacity : Nat) (slot : SourceSample F) :
    (state.acceptSource gapCapacity slot).2.inputOffset = state.inputOffset := by
  have fenced : (state.fence slot.stamp).2.inputOffset = state.inputOffset := by
    rcases state.fence_cases slot.stamp with
      ⟨_, fenced⟩ | ⟨mark, _, _, fenced⟩ | ⟨mark, _, _, fenced⟩ <;> rw [fenced]
  rcases state.acceptSource_cases gapCapacity slot with
    ⟨gaps, _, _, accepted⟩ | ⟨_, accepted⟩ | ⟨_, _, _, accepted⟩ <;> rw [accepted] <;>
    exact fenced

theorem acceptSource_muteFault (gapCapacity : Nat) (slot : SourceSample F)
    (taken : (state.acceptSource gapCapacity slot).1 = true) :
    (state.acceptSource gapCapacity slot).2.muteFault = state.muteFault := by
  rcases state.acceptSource_cases gapCapacity slot with
    ⟨gaps, continues, _, accepted⟩ | ⟨_, accepted⟩ | ⟨_, _, _, accepted⟩
  · rw [accepted]
    rcases state.fence_cases slot.stamp with
      ⟨_, fenced⟩ | ⟨mark, _, _, fenced⟩ | ⟨mark, _, _, fenced⟩
    · rw [fenced]
      rfl
    · rw [fenced]
      rfl
    · rw [fenced] at continues
      cases continues
  · rw [accepted] at taken
    cases taken
  · rw [accepted] at taken
    cases taken

theorem padInput_keeps [Zero F] (quantum : Nat) : Keeps state (state.padInput quantum) := by
  unfold padInput
  split <;> exact ⟨rfl, rfl, rfl, rfl⟩

section Conversion

variable [Binary64 W] (adapter : Adapter F W S) (geometry : Geometry)

/-- Everything one conversion can do, whatever the adapter answers. -/
inductive Converts (geometry : Geometry) (quantum : Nat) (state : ConsumerState F S W) :
    RefillResult → ConsumerState F S W → Prop where
  /-- A query or the conversion itself was rejected. -/
  | rejected (gaps : List GapSpan) (missing : Bool) (converter : S) :
      Converts geometry quantum state .adapterError
        { state with gaps := gaps, outputMissing := missing, converter := converter }
  /-- Input was accepted and the batch could not be placed on the source timeline. -/
  | unplaced (gaps : List GapSpan) (missing : Bool) (converter : S) (output : Nat → F)
      (used : Nat) (usedLe : used ≤ state.inputPending) (cacheStart cacheEnd : Int)
      (fault : Bool) (cause : fault = state.muteFault ∨ cacheEnd < cacheStart) :
      Converts geometry quantum state .adapterError
        { ({ state with
            gaps := gaps, outputMissing := missing, output := output }).consumeInput used with
          converter := converter, cacheStart := cacheStart, cacheEnd := cacheEnd
          muteFault := fault }
  /-- Input was accepted and nothing was generated. -/
  | absorbed (result : RefillResult) (stuck : result ≠ .ready) (gaps : List GapSpan)
      (missing : Bool) (converter : S) (output : Nat → F) (used : Nat)
      (usedLe : used ≤ state.inputPending) :
      Converts geometry quantum state result
        { ({ state with
            gaps := gaps, outputMissing := missing, output := output }).consumeInput used with
          converter := converter
          inputOffset := if state.inputPending - used = 0 then 0 else state.inputOffset + used
          outputOffset := 0, outputPending := 0, zeroProgress := decide (used = 0) }
  /-- A batch was generated. -/
  | generated (gaps : List GapSpan) (missing : Bool) (converter : S) (output : Nat → F)
      (used : Nat) (usedLe : used ≤ state.inputPending) (count : Nat) (positive : 0 < count)
      (countLe : count ≤ max quantum 1) (delay delay' : Int) (delayNonneg : 0 ≤ delay)
      (delayNonneg' : 0 ≤ delay')
      (forward : (state.converterAccepted : Int) * frameUnit - delay ≤
        ((state.converterAccepted + used : Nat) : Int) * frameUnit - delay') :
      Converts geometry quantum state .ready
        { ({ state with
            gaps := gaps, outputMissing := missing, output := output }).consumeInput used with
          converter := converter
          cacheStart := (state.converterAccepted : Int) * frameUnit - delay
          cacheEnd := ((state.converterAccepted + used : Nat) : Int) * frameUnit - delay'
          cacheCount := count
          inputOffset := if state.inputPending - used = 0 then 0 else state.inputOffset + used
          outputOffset := 0, outputPending := count, zeroProgress := false }

omit [Binary64 W] in
theorem offered_length : state.offered.length = state.inputPending := by
  simp [offered]

omit [Binary64 W] in
theorem classifyGaps_cases : ∃ ok gaps missing converter,
    state.classifyGaps adapter =
      (ok, { state with gaps := gaps, outputMissing := missing, converter := converter }) := by
  unfold classifyGaps
  dsimp only
  split
  · exact ⟨true, state.gaps, false, state.converter, rfl⟩
  · split
    · rename_i converter _
      exact ⟨false, state.gaps, false, converter, rfl⟩
    · rename_i delay converter _
      split
      · exact ⟨true, state.gaps, false, converter, rfl⟩
      · exact ⟨true, _, _, converter, rfl⟩

omit [Binary64 W] in
@[simp]
theorem converterAccepted_consumeInput (used : Nat) :
    (state.consumeInput used).converterAccepted = state.converterAccepted + used := by
  unfold consumeInput converterAccepted
  split <;> dsimp only <;> omega

theorem runConverter_cases (quantum : Nat) :
    Converts geometry quantum state (state.runConverter adapter geometry quantum).1
      (state.runConverter adapter geometry quantum).2 := by
  unfold runConverter
  dsimp only
  split
  · rename_i converter _
    exact .rejected state.gaps state.outputMissing converter
  rename_i delay converter delayed
  have delayNonneg := adapter.converterInputDelay_nonneg (congrArg Prod.fst delayed)
  split
  · rename_i converter' _
    exact .rejected state.gaps state.outputMissing converter'
  rename_i converted converter' processed
  obtain ⟨usedLe, countLe⟩ := adapter.converterProcess_bounds (congrArg Prod.fst processed)
  rw [offered_length] at usedLe
  generalize outputEq : (fun index => if index < converted.outputGenerated then
    converted.output index else state.output index) = output
  unfold recordCache
  by_cases none : converted.outputGenerated = 0
  · simp only [none, if_true, finishConversion, ne_eq, not_true_eq_false, if_false]
    split
    · exact .absorbed .adapterError (by decide) state.gaps state.outputMissing converter'
        output converted.inputUsed usedLe
    · exact .absorbed .starved (by decide) state.gaps state.outputMissing converter'
        output converted.inputUsed usedLe
  · simp only [none, if_false]
    split
    · rename_i recorded converter'' recordedEq
      split at recordedEq
      · cases recordedEq
        exact .unplaced state.gaps state.outputMissing _ output converted.inputUsed usedLe
          state.cacheStart state.cacheEnd state.muteFault (.inl rfl)
      · split at recordedEq
        · rename_i delay' _ _ backwards
          cases recordedEq
          simp only [converterAccepted_consumeInput] at backwards ⊢
          exact .unplaced state.gaps state.outputMissing _ output converted.inputUsed usedLe
            _ _ true (.inr backwards)
        · cases recordedEq
    · rename_i recorded placed recordedEq
      split at recordedEq
      · cases recordedEq
      · rename_i delay' converter'' delayed'
        have delayNonneg' := adapter.converterInputDelay_nonneg (congrArg Prod.fst delayed')
        split at recordedEq
        · cases recordedEq
        · rename_i forward
          cases recordedEq
          simp only [finishConversion, none, ne_eq, not_false_eq_true, if_true]
          simp only [converterAccepted_consumeInput] at forward ⊢
          exact .generated state.gaps state.outputMissing converter'' output
            converted.inputUsed usedLe converted.outputGenerated (by omega)
            (by split at countLe <;> omega) delay delay' delayNonneg delayNonneg'
            (Int.not_lt.mp forward)

theorem convert_cases (quantum : Nat) :
    Converts geometry quantum state (state.convert adapter geometry quantum).1
      (state.convert adapter geometry quantum).2 := by
  obtain ⟨ok, gaps, missing, converter, classified⟩ :=
    state.classifyGaps_cases adapter
  unfold convert
  rw [classified]
  cases ok with
  | false => exact .rejected gaps missing converter
  | true =>
      have ran := runConverter_cases
        { state with gaps := gaps, outputMissing := missing, converter := converter }
        adapter geometry quantum
      dsimp only
      generalize (runConverter adapter geometry quantum _).1 = result at ran ⊢
      generalize (runConverter adapter geometry quantum _).2 = converted at ran ⊢
      cases ran with
      | rejected gaps' missing' converter' => exact .rejected gaps' missing' converter'
      | unplaced gaps' missing' converter' output used usedLe cacheStart cacheEnd fault cause =>
          refine .unplaced gaps' missing' converter' output used ?_ cacheStart cacheEnd fault ?_
          · exact usedLe
          · exact cause
      | absorbed result stuck gaps' missing' converter' output used usedLe =>
          refine .absorbed _ stuck gaps' missing' converter' output used ?_
          exact usedLe
      | generated gaps' missing' converter' output used usedLe count positive countLe delay delay'
          delayNonneg delayNonneg' forward =>
          refine .generated gaps' missing' converter' output used ?_ count positive countLe
            delay delay' delayNonneg delayNonneg' ?_
          · exact usedLe
          · exact forward

omit [Binary64 W] in
/-- Conversion leaves the boundary, the reset flag and the mute history alone. -/
theorem Converts.keeps {quantum : Nat} {result : RefillResult}
    {converted : ConsumerState F S W} (ran : Converts geometry quantum state result converted) :
    converted.finite = state.finite ∧ converted.resetFailed = state.resetFailed ∧
      converted.muteHistory = state.muteHistory := by
  cases ran <;> exact ⟨rfl, rfl, rfl⟩

omit [Binary64 W] in
/-- Only a failing conversion latches the mute fault. -/
theorem Converts.clean {quantum : Nat} {result : RefillResult} {converted : ConsumerState F S W}
    (ran : Converts geometry quantum state result converted) (works : result ≠ .adapterError) :
    converted.muteFault = state.muteFault := by
  cases ran with
  | rejected | unplaced => exact (works rfl).elim
  | absorbed | generated => rfl

omit [Binary64 W] in
theorem Converts.ready {quantum : Nat} {result : RefillResult} {converted : ConsumerState F S W}
    (ran : Converts geometry quantum state result converted) (ready : result = .ready) :
    converted.outputPending ≠ 0 := by
  cases ran with
  | rejected | unplaced => cases ready
  | absorbed result stuck => exact (stuck ready).elim
  | generated gaps missing converter output used usedLe count positive => exact positive.ne'

end Conversion

end PcmRing.ConsumerState
