import PcmRing.AcceptedSlots
import PcmRing.RefusedSlots

/-!
# What the converter is fed

The callbacks are watched through a wrapper that answers the same and keeps a
list of the input it accepted since it was last reset.  That list, the input
workspace and the unread FIFO are the accepted slots in order, whatever the
converter answers and whoever runs when.
-/

namespace PcmRing

open AtomicProgram TwoLapQueue

variable {F S W : Type}

namespace Adapter

/-- The same callbacks over a handle that also lists the input accepted since
the last reset. -/
def recording (adapter : Adapter F W S) : Adapter F W (S × List F) where
  create inputRate outputRate maxInput maxOutput :=
    let created := adapter.create inputRate outputRate maxInput maxOutput
    (created.1, created.2.map fun handle => (handle, []))
  reset handle :=
    let answered := adapter.reset handle.1
    (answered.1, answered.2, [])
  process handle input outputLength ratio :=
    let reply := adapter.process handle.1 input outputLength ratio
    { status := reply.status
      inputUsed := reply.inputUsed
      outputGenerated := reply.outputGenerated
      output := reply.output
      handle := (reply.handle,
        if reply.status ≠ adapterOk ∨ input.length < reply.inputUsed ∨
            outputLength < reply.outputGenerated then handle.2
        else handle.2 ++ input.take reply.inputUsed) }
  queuedInput handle :=
    let answered := adapter.queuedInput handle.1
    (answered.1, answered.2.1, answered.2.2, handle.2)
  outputDelay handle :=
    let answered := adapter.outputDelay handle.1
    (answered.1, answered.2.1, answered.2.2, handle.2)
  inputDelay handle :=
    let answered := adapter.inputDelay handle.1
    (answered.1, answered.2.1, answered.2.2, handle.2)

variable (adapter : Adapter F W S) (handle : S × List F)

theorem recording_inputDelay : adapter.recording.converterInputDelay handle =
    ((adapter.converterInputDelay handle.1).1, (adapter.converterInputDelay handle.1).2,
      handle.2) := rfl

/-- A conversion answers the same, and what it accepted is listed. -/
theorem recording_process [Binary64 W] (input : List F) (outputLength : Nat) (ratio : W) :
    adapter.recording.converterProcess handle input outputLength ratio =
      ((adapter.converterProcess handle.1 input outputLength ratio).1,
        (adapter.converterProcess handle.1 input outputLength ratio).2,
        handle.2 ++ ((adapter.converterProcess handle.1 input outputLength ratio).1.elim []
          fun converted => input.take converted.inputUsed)) := by
  unfold converterProcess
  split
  · simp
  · dsimp only [recording]
    split
    · simp
    · simp

end Adapter

namespace ConsumerState

variable (state : ConsumerState F S W)

@[simp]
theorem makeInputSpace_offered (additional capacity : Nat) :
    (state.makeInputSpace additional capacity).offered = state.offered := by
  unfold makeInputSpace
  split
  · rfl
  · refine List.map_congr_left fun index member => ?_
    dsimp only
    rw [Nat.zero_add, if_pos (List.mem_range.mp member)]

@[simp]
theorem appendInput_offered (pcm : F) :
    (state.appendInput pcm).offered = state.offered ++ [pcm] := by
  unfold appendInput offered
  dsimp only
  rw [List.range_succ, List.map_append, List.map_singleton, Function.update_self]
  refine congrArg (· ++ [pcm]) (List.map_congr_left fun index member => ?_)
  have inside := List.mem_range.mp member
  exact Function.update_of_ne (by omega) _ _

theorem padInput_offered [Zero F] (quantum : Nat)
    (padded : state.inputPending = 0 ∧ state.finite.isSome) :
    (state.padInput quantum).offered = List.replicate quantum 0 := by
  unfold padInput offered
  rw [if_pos padded]
  refine List.eq_replicate_iff.mpr ⟨by simp, fun sample member => ?_⟩
  obtain ⟨index, inside, rfl⟩ := List.mem_map.mp member
  dsimp only
  rw [Nat.zero_add, if_pos (List.mem_range.mp inside)]

theorem consumeInput_offered {used : Nat} (usedLe : used ≤ state.inputPending) :
    (state.consumeInput used).offered = state.offered.drop used := by
  unfold consumeInput offered
  dsimp only
  obtain ⟨rest, pendingEq⟩ := Nat.exists_eq_add_of_le usedLe
  rw [pendingEq, Nat.add_sub_cancel_left, List.range_add, List.map_append, List.drop_left',
    List.map_map]
  · exact List.map_congr_left fun index _ => by simp [Nat.add_assoc]
  · simp

/-- Zeros offered beyond the real slots so far. -/
def padding (state : ConsumerState F S W) : Nat :=
  state.paddingAccepted + if state.inputPadding then state.inputPending else 0

end ConsumerState

/-- One step took `used` samples from the front of the workspace. -/
structure Feeds (used : Nat) (before after : ConsumerState F (S × List F) W) : Prop where
  used_le : used ≤ before.inputPending
  fed_eq : after.converter.2 = before.converter.2 ++ before.offered.take used
  offered_eq : after.offered = before.offered.drop used
  pending_eq : after.inputPending = before.inputPending - used
  taken_eq : after.sourceTaken = before.sourceTaken
  accepted_eq : after.converterAccepted = before.converterAccepted + used
  flag_eq : after.inputPadding = before.inputPadding
  padding_eq : after.padding = before.padding

section Conversion

variable [Binary64 W] (adapter : Adapter F W S) (geometry : Geometry)
  (state : ConsumerState F (S × List F) W)

omit [Binary64 W] in
theorem classifyGaps_fed : ∃ gaps missing handle,
    (state.classifyGaps adapter.recording).2 = { state with
      gaps := gaps, outputMissing := missing, converter := (handle, state.converter.2) } := by
  unfold ConsumerState.classifyGaps
  dsimp only
  rw [Adapter.recording_inputDelay]
  split
  · exact ⟨state.gaps, false, state.converter.1, rfl⟩
  · cases (adapter.converterInputDelay state.converter.1).1 with
    | none => exact ⟨state.gaps, false, _, rfl⟩
    | some delay =>
        dsimp only
        split
        · exact ⟨state.gaps, false, _, rfl⟩
        · exact ⟨_, _, _, rfl⟩

omit [Binary64 W] in
theorem recordCache_fed (sourceStart : Int) (generated : Nat) :
    ∃ ok handle cacheStart cacheEnd cacheCount fault,
      state.recordCache adapter.recording sourceStart generated = (ok, { state with
        converter := (handle, state.converter.2)
        cacheStart := cacheStart, cacheEnd := cacheEnd, cacheCount := cacheCount
        muteFault := fault }) := by
  unfold ConsumerState.recordCache
  split
  · exact ⟨true, _, _, _, _, _, rfl⟩
  · rw [Adapter.recording_inputDelay]
    cases (adapter.converterInputDelay state.converter.1).1 with
    | none => exact ⟨false, _, _, _, _, _, rfl⟩
    | some delay =>
        dsimp only
        split
        · exact ⟨false, _, _, _, _, _, rfl⟩
        · exact ⟨true, _, _, _, _, _, rfl⟩

omit [Binary64 W] in
theorem feeds_consumeInput {used : Nat} (fed : ConsumerState F (S × List F) W)
    (usedLe : used ≤ state.inputPending)
    (fedEq : fed.converter.2 = state.converter.2 ++ state.offered.take used)
    (inputEq : fed.input = state.input) (offsetEq : fed.inputOffset = state.inputOffset)
    (pendingEq : fed.inputPending = state.inputPending)
    (countsEq : fed.sourceTaken = state.sourceTaken ∧
      fed.sourceAccepted = state.sourceAccepted ∧
      fed.paddingAccepted = state.paddingAccepted ∧ fed.inputPadding = state.inputPadding) :
    Feeds used state (fed.consumeInput used) := by
  have offeredEq : fed.offered = state.offered := by
    unfold ConsumerState.offered
    rw [inputEq, offsetEq, pendingEq]
  obtain ⟨takenEq, acceptedEq, extendedEq, flagEq⟩ := countsEq
  refine
    { used_le := usedLe
      fed_eq := fedEq
      offered_eq := by rw [fed.consumeInput_offered (pendingEq ▸ usedLe), offeredEq]
      pending_eq := congrArg (· - used) pendingEq
      taken_eq := takenEq
      accepted_eq := ?_, flag_eq := flagEq, padding_eq := ?_ }
  · rw [ConsumerState.converterAccepted_consumeInput, ConsumerState.converterAccepted, acceptedEq,
      extendedEq, ConsumerState.converterAccepted]
  · unfold ConsumerState.padding ConsumerState.consumeInput
    dsimp only
    rw [extendedEq, flagEq, pendingEq]
    split <;> omega

omit [Binary64 W] in
theorem Feeds.finish {used generated : Nat} {fed : ConsumerState F (S × List F) W}
    (feeds : Feeds used state fed) :
    Feeds used state (fed.finishConversion geometry used generated).2 := by
  have offeredEq : ∀ offset, (fed.inputPending ≠ 0 → offset = fed.inputOffset) →
      { fed with inputOffset := offset }.offered = fed.offered := by
    intro offset same
    unfold ConsumerState.offered
    dsimp only
    by_cases empty : fed.inputPending = 0
    · rw [empty]
      rfl
    · rw [same empty]
  have settled : ({ fed with
      inputOffset := if fed.inputPending = 0 then 0 else fed.inputOffset }).offered =
        state.offered.drop used :=
    (offeredEq _ fun some => if_neg some).trans feeds.offered_eq
  unfold ConsumerState.finishConversion
  dsimp only
  split
  · exact { feeds with offered_eq := settled }
  · split
    · exact { feeds with offered_eq := settled }
    · exact { feeds with offered_eq := settled }

theorem runConverter_fed (quantum : Nat) : ∃ used,
    Feeds used state (state.runConverter adapter.recording geometry quantum).2 := by
  have nothing : ∀ handle : S, Feeds 0 state
      { state with converter := (handle, state.converter.2) } := fun handle =>
    { used_le := Nat.zero_le _, fed_eq := (List.append_nil _).symm, offered_eq := rfl
      pending_eq := rfl, taken_eq := rfl, accepted_eq := rfl, flag_eq := rfl
      padding_eq := rfl }
  unfold ConsumerState.runConverter
  dsimp only
  rw [Adapter.recording_inputDelay]
  cases (adapter.converterInputDelay state.converter.1).1 with
  | none => exact ⟨0, nothing _⟩
  | some delay =>
      dsimp only
      rw [Adapter.recording_process]
      generalize processedEq : adapter.converterProcess _ _ _ _ = processed
      obtain ⟨answer, handle⟩ := processed
      cases answer with
      | none =>
          refine ⟨0, ?_⟩
          simp only [Option.elim_none, List.append_nil]
          exact nothing handle
      | some converted =>
          have usedLe := (adapter.converterProcess_bounds (congrArg Prod.fst processedEq)).1
          rw [ConsumerState.offered_length] at usedLe
          refine ⟨converted.inputUsed, ?_⟩
          dsimp only [Option.elim_some]
          have feeds := feeds_consumeInput state { state with
            converter := (handle, state.converter.2 ++ state.offered.take converted.inputUsed)
            output := fun index => if index < converted.outputGenerated then
              converted.output index else state.output index }
            usedLe rfl rfl rfl rfl ⟨rfl, rfl, rfl, rfl⟩
          generalize ConsumerState.consumeInput converted.inputUsed _ = fed at feeds ⊢
          obtain ⟨ok, handle', cacheStart, cacheEnd, cacheCount, fault, recordedEq⟩ :=
            recordCache_fed adapter fed
              ((state.converterAccepted : Int) * frameUnit - delay) converted.outputGenerated
          rw [recordedEq]
          cases ok with
          | false => exact { feeds with }
          | true => exact Feeds.finish geometry state { feeds with }

/-- Whatever a conversion answers, what it accepted left the workspace. -/
theorem convert_fed (quantum : Nat) : ∃ used,
    Feeds used state (state.convert adapter.recording geometry quantum).2 := by
  obtain ⟨gaps, missing, handle, classifiedEq⟩ := classifyGaps_fed adapter state
  unfold ConsumerState.convert
  generalize state.classifyGaps adapter.recording = classified at classifiedEq ⊢
  obtain ⟨ok, after⟩ := classified
  dsimp only at classifiedEq
  subst classifiedEq
  cases ok with
  | false => exact ⟨0, { used_le := Nat.zero_le _, fed_eq := (List.append_nil _).symm
                         offered_eq := rfl, pending_eq := rfl, taken_eq := rfl
                         accepted_eq := rfl, flag_eq := rfl, padding_eq := rfl }⟩
  | true =>
      obtain ⟨used, feeds⟩ := runConverter_fed adapter geometry { state with
        gaps := gaps, outputMissing := missing, converter := (handle, state.converter.2) } quantum
      exact ⟨used, { feeds with }⟩

end Conversion

/-- What was fed and what is offered are kept slots in order, then zeros. -/
structure Content [Zero F] (state : ConsumerState F (S × List F) W) (ring : Ring F (S × List F) W) :
    Prop where
  fed_length : state.converter.2.length = state.converterAccepted
  slots : ∃ kept, List.Sublist kept (ring.pcm.passed.drop ring.ledger.streamStart) ∧
    kept.length = state.sourceTaken ∧
    state.converter.2 ++ state.offered =
      kept.map SourceSample.pcm ++ List.replicate state.padding 0

namespace Content

variable [Binary32 F] {geometry : Geometry} {state : ConsumerState F (S × List F) W}
  {ring : Ring F (S × List F) W}

/-- Only the fed input, the workspace and the counts matter. -/
theorem agree {other : ConsumerState F (S × List F) W} (content : Content state ring)
    (fedEq : other.converter.2 = state.converter.2) (offeredEq : other.offered = state.offered)
    (countsEq : other.sourceTaken = state.sourceTaken ∧
      other.converterAccepted = state.converterAccepted ∧ other.padding = state.padding) :
    Content other ring where
  fed_length := by rw [fedEq, countsEq.2.1, content.fed_length]
  slots := by
    rw [fedEq, offeredEq, countsEq.1, countsEq.2.2]
    exact content.slots

theorem same {after : Ring F (S × List F) W} (content : Content state ring)
    (passedEq : after.pcm.passed = ring.pcm.passed)
    (startEq : after.ledger.streamStart = ring.ledger.streamStart) : Content state after where
  fed_length := content.fed_length
  slots := by
    rw [passedEq, startEq]
    exact content.slots

/-- A step that feeds the front of the workspace keeps the content. -/
theorem feeds {used : Nat} {after : ConsumerState F (S × List F) W} (content : Content state ring)
    (feeds : Feeds used state after) : Content after ring where
  fed_length := by
    rw [feeds.fed_eq, List.length_append, List.length_take, ConsumerState.offered_length,
      Nat.min_eq_left feeds.used_le, content.fed_length, feeds.accepted_eq]
  slots := by
    obtain ⟨kept, inside, count, contentEq⟩ := content.slots
    refine ⟨kept, inside, count.trans feeds.taken_eq.symm, ?_⟩
    rw [feeds.fed_eq, feeds.offered_eq, List.append_assoc, List.take_append_drop, contentEq,
      feeds.padding_eq]

/-- A taken slot joins the end of the workspace, or is refused. -/
theorem acceptSource {slot : SourceSample F} (content : Content state ring)
    (accounts : Accounts geometry 0 state ring) (unpadded : state.inputPadding = false) :
    Content (state.acceptSource geometry.gapCapacity slot).2 (takeSlot geometry slot ring) := by
  have startLe : ring.ledger.streamStart ≤ ring.pcm.passed.length := by
    have taken := accounts.taken_le
    omega
  have dropEq : (takeSlot geometry slot ring).pcm.passed.drop
      (takeSlot geometry slot ring).ledger.streamStart =
        ring.pcm.passed.drop ring.ledger.streamStart ++ [slot] := by
    rw [takeSlot_passed]
    exact List.drop_append_of_le_length startLe
  have fenced : Content (state.fence slot.stamp).2 ring := by
    rcases state.fence_cases slot.stamp with
      ⟨-, fenced⟩ | ⟨mark, -, -, fenced⟩ | ⟨mark, -, -, fenced⟩ <;> rw [fenced] <;>
      exact { content with }
  have refused : Content (state.fence slot.stamp).2 (takeSlot geometry slot ring) :=
    { fed_length := fenced.fed_length
      slots := by
        obtain ⟨kept, inside, rest⟩ := fenced.slots
        exact ⟨kept, dropEq ▸ inside.trans (List.sublist_append_left _ _), rest⟩ }
  rcases state.acceptSource_cases geometry.gapCapacity slot with
    ⟨gaps, -, -, accepted⟩ | ⟨-, accepted⟩ | ⟨-, -, -, accepted⟩
  · rw [accepted]
    have unextended : (state.fence slot.stamp).2.inputPadding = false ∧
        (state.fence slot.stamp).2.paddingAccepted = 0 := by
      have none := (accounts.unpadded unpadded).2
      rcases state.fence_cases slot.stamp with
        ⟨-, fenced⟩ | ⟨mark, -, -, fenced⟩ | ⟨mark, -, -, fenced⟩ <;> rw [fenced] <;>
        exact ⟨unpadded, none⟩
    obtain ⟨kept, inside, count, contentEq⟩ := fenced.slots
    have noZeros : (state.fence slot.stamp).2.padding = 0 := by
      simp [ConsumerState.padding, unextended]
    rw [noZeros, List.replicate_zero, List.append_nil] at contentEq
    refine ⟨fenced.fed_length, kept ++ [slot], ?_, ?_, ?_⟩
    · exact dropEq ▸ inside.append (List.Sublist.refl _)
    · rw [List.length_append, count]
      rfl
    · have still : ({ (state.fence slot.stamp).2 with gaps := gaps }.appendInput
          slot.pcm).padding = 0 := by
        simp [ConsumerState.padding, ConsumerState.appendInput, unextended]
      rw [still, ConsumerState.appendInput_offered, List.map_append, ← contentEq,
        List.replicate_zero, List.append_nil, ← List.append_assoc]
      rfl
  · rw [accepted]
    exact { refused with }
  · rw [accepted]
    exact { refused with }

/-- Zero extension only starts behind an empty workspace. -/
theorem padInput (content : Content state ring) (quantum : Nat) :
    Content (state.padInput quantum) ring := by
  by_cases padded : state.inputPending = 0 ∧ state.finite.isSome
  · obtain ⟨kept, inside, count, contentEq⟩ := content.slots
    have nothing : state.offered = [] := by
      rw [← List.length_eq_zero_iff, ConsumerState.offered_length]
      exact padded.1
    have sofar : state.padding = state.paddingAccepted := by
      simp [ConsumerState.padding, padded.1]
    rw [nothing, List.append_nil, sofar] at contentEq
    have offeredEq := state.padInput_offered quantum padded
    unfold ConsumerState.padInput at offeredEq ⊢
    rw [if_pos padded] at offeredEq ⊢
    refine ⟨content.fed_length, kept, inside, count, ?_⟩
    rw [offeredEq, contentEq, List.append_assoc, List.replicate_append_replicate]
    rfl
  · unfold ConsumerState.padInput
    rw [if_neg padded]
    exact content

end Content

theorem contentKept [Binary32 F] [Binary64 W] [Widening F W] {adapter : Adapter F W S}
    {geometry : Geometry} {shape : List (SourceSample F) → List SlotNote → Prop} :
    LocalInvariant adapter.recording geometry shape (Content (F := F) (S := S) (W := W)) where
  published accounts moves content :=
    content.same (moves.passed_eq accounts.pcm) moves.streamStart_eq
  same same content := content.same (by rw [same.pcm_eq]) same.start_eq
  capture _ _ _ content := content.agree rfl rfl ⟨rfl, rfl, rfl⟩
  receive {state ring interval rest} _ _ content := by
    have received : Content (state.receive interval) ring :=
      content.agree rfl rfl ⟨rfl, rfl, rfl⟩
    exact received.same rfl rfl
  flags _ _ content := content.agree rfl rfl ⟨rfl, rfl, rfl⟩
  space {state ring} wanted _ _ content := by
    refine content.agree ?_ (state.makeInputSpace_offered wanted geometry.capacity) ?_
    · unfold ConsumerState.makeInputSpace
      split <;> rfl
    · unfold ConsumerState.makeInputSpace
      split <;> exact ⟨rfl, rfl, rfl⟩
  take accounts _ unpadded _ _ content := content.acceptSource accounts unpadded
  pad _ _ _ content := content.padInput _
  query _ _ content := content.agree rfl rfl ⟨rfl, rfl, rfl⟩
  steer _ _ _ content := content.agree rfl rfl ⟨rfl, rfl, rfl⟩
  convert _ _ content := by
    obtain ⟨used, feeds⟩ := convert_fed adapter geometry _ (min geometry.capacity converterQuantum)
    exact content.feeds feeds
  emit {slack result state ring} _ _ _ content := by
    obtain ⟨plc, plcPositions, plcPosition, muteHistory, emissionEq⟩ :=
      state.emission_state geometry result
    rw [emissionEq]
    unfold ConsumerState.popped
    split
    · exact content.agree rfl rfl ⟨rfl, rfl, rfl⟩
    · exact content.agree rfl rfl ⟨rfl, rfl, rfl⟩
  release {state boundary ring} _ _ _ content := by
    obtain ⟨plc, releaseEq⟩ := release_cases geometry state boundary
    rw [releaseEq]
    exact content.agree rfl rfl ⟨rfl, rfl, rfl⟩
  reset _ _ completed := ⟨rfl, [], List.nil_sublist _, rfl, rfl⟩

/-- The converter, the workspace and the FIFO hold the accepted slots of the
stream, once and in order. -/
structure FedInOrder [Zero F] (geometry : Geometry) (ring : Ring F (S × List F) W) : Prop where
  content : ring.consumer.converter.2 ++ ring.consumer.offered ++
      (ring.pcm.unread geometry.capacity).map SourceSample.pcm =
    (ring.pcm.published.drop ring.ledger.streamStart).map SourceSample.pcm ++
      List.replicate ring.consumer.padding 0
  silent : ∀ slot ∈ ring.pcm.published, slot.missing = true → slot.pcm = 0
  unpadded : ring.consumer.inputPadding = false → ring.consumer.padding = 0 ∧
    ring.consumer.sourceTaken = ring.consumer.sourceAccepted + ring.consumer.inputPending
  /-- Zeros begin after the last real slot was accepted. -/
  padded : ring.consumer.inputPadding = true → ring.pcm.unread geometry.capacity = [] ∧
    ring.consumer.converter.2.take ring.consumer.sourceAccepted =
      (ring.pcm.published.drop ring.ledger.streamStart).map SourceSample.pcm

theorem Content.fedInOrder [Binary32 F] {geometry : Geometry} {ring : Ring F (S × List F) W}
    (content : Content ring.consumer ring) (accounts : Accounts geometry 0 ring.consumer ring)
    (counted : Counted ring.consumer ring) (nothing : ring.consumer.NothingRefused)
    (silent : ∀ slot ∈ ring.pcm.published, slot.missing = true → slot.pcm = 0) :
    FedInOrder geometry ring := by
  obtain ⟨kept, inside, count, contentEq⟩ := content.slots
  have passedEq := counted.passed_eq nothing
  have startLe : ring.ledger.streamStart ≤ ring.pcm.passed.length := by
    rw [passedEq]
    exact Nat.le_add_right _ _
  have keptEq : kept = ring.pcm.passed.drop ring.ledger.streamStart := by
    refine inside.eq_of_length ?_
    rw [List.length_drop, passedEq, count]
    omega
  have publishedEq : (ring.pcm.published.drop ring.ledger.streamStart).map SourceSample.pcm =
      kept.map SourceSample.pcm ++
        (ring.pcm.unread geometry.capacity).map SourceSample.pcm := by
    rw [accounts.pcm.published_eq, List.drop_append_of_le_length startLe, List.map_append, keptEq]
  have unread (padding : ring.consumer.padding ≠ 0) :
      ring.pcm.unread geometry.capacity = [] := by
    cases flag : ring.consumer.inputPadding with
    | false => simp [ConsumerState.padding, flag, (accounts.unpadded flag).2] at padding
    | true => exact (accounts.padded flag).2.2
  refine
    { content := ?_, silent := silent, unpadded := fun flag => ?_, padded := fun flag => ?_ }
  · rw [contentEq, publishedEq]
    by_cases zero : ring.consumer.padding = 0
    · simp [zero]
    · simp [unread zero]
  · obtain ⟨sum, none⟩ := accounts.unpadded flag
    exact ⟨by simp [ConsumerState.padding, flag, none], sum.symm⟩
  · obtain ⟨accepted, -, empty⟩ := accounts.padded flag
    refine ⟨empty, ?_⟩
    rw [publishedEq, empty, List.map_nil, List.append_nil]
    have front := congrArg (List.take ring.consumer.sourceAccepted) contentEq
    have fedLength := content.fed_length
    rw [List.take_append_of_le_length (by
      rw [fedLength, ConsumerState.converterAccepted]
      exact Nat.le_add_right _ _), accepted, ← count, List.take_left' (by simp)] at front
    rw [accepted, ← count]
    exact front

/-- The handle of a created ring is the one that was made, warmed and asked for
its delays. -/
theorem create_handle [Binary32 F] [Binary64 W] {adapter : Adapter F W S} {settings : Settings}
    {geometry : Geometry} {ring : Ring F S W}
    (created : Ring.create adapter settings = .ok (geometry, ring)) {kept : S → Prop}
    (warmed : ∀ inputRate outputRate maxInput maxOutput handle,
      (adapter.create inputRate outputRate maxInput maxOutput).2 = some handle →
        kept (adapter.converterReset handle).2)
    (outputDelay : ∀ handle, kept handle → kept (adapter.outputDelay handle).2.2)
    (inputDelay : ∀ handle, kept handle → kept (adapter.converterInputDelay handle).2) :
    kept ring.consumer.converter := by
  unfold Ring.create at created
  split at created
  · cases created
  · split at created
    · cases created
    · rename_i converter delaySamples createdEq
      split at created
      · cases created
      · rename_i delay converter' delayedEq
        cases created
        have started : kept converter := by
          unfold Adapter.createConverter at createdEq
          dsimp only at createdEq
          split at createdEq
          · cases createdEq
          · split at createdEq
            · cases createdEq
            · rename_i made madeEq
              split at createdEq
              · cases createdEq
              · rename_i handle resetEq
                have ready : kept handle := by
                  have warm := warmed _ _ _ _ made madeEq
                  rw [resetEq] at warm
                  exact warm
                split at createdEq
                · cases createdEq
                · cases createdEq
                  exact outputDelay handle ready
        have asked := inputDelay converter started
        rw [delayedEq] at asked
        exact asked

theorem content_created [Binary32 F] [Binary64 W] {adapter : Adapter F W S}
    {settings : Settings} {geometry : Geometry} {ring : Ring F (S × List F) W}
    (created : Ring.create adapter.recording settings = .ok (geometry, ring)) :
    Content ring.consumer ring := by
  have fed : ring.consumer.converter.2 = [] :=
    by
    refine @create_handle _ _ _ _ _ _ _ _ _ created (fun handle => handle.2 = []) ?_ ?_ ?_
    · exact fun _ _ _ _ _ _ => rfl
    · exact fun _ nothing => nothing
    · exact fun _ nothing => nothing
  obtain ⟨-, outputDelay, delay, converter, -, rfl⟩ := create_cases created
  refine ⟨?_, [], List.nil_sublist _, rfl, ?_⟩
  · rw [fed]
    rfl
  · rw [fed]
    rfl

/-- Whatever the converter answers and whoever runs when, each accepted slot
reaches it once and in order. -/
theorem converter_fed_in_order [Binary32 F] [Binary64 W] [Widening F W] {adapter : Adapter F W S}
    {settings : Settings} {geometry : Geometry} {config : RingConfig F (S × List F) W}
    (reached : RingReachable adapter.recording settings (fun _ _ => True) geometry config)
    (idle : config.thread .consumer = .idle) (nothing : config.memory.consumer.NothingRefused) :
    FedInOrder geometry config.memory := by
  have silent : ∀ slot ∈ config.memory.pcm.published, slot.missing = true → slot.pcm = 0 :=
    fun slot member missing => published_missing reached member missing
  have counted := counted_of_idle reached idle
  obtain ⟨ring, created, steps⟩ := reached
  obtain ⟨drained, content⟩ :=
    invariant_of_idle contentKept.steered created (content_created created) steps idle
  exact content.fedInOrder drained.1 counted nothing silent

/-- Two samples and a gap are published and the first is rendered. -/
theorem converter_fed_in_order_after_a_render :
    ∃ (geometry : Geometry) (config : RingConfig ℚ (Unit × List ℚ) ℚ),
      RingReachable (unitConverter (F := ℚ) (W := ℚ)).recording smallSettings (fun _ _ => True)
        geometry config ∧ config.memory.consumer.NothingRefused ∧ config.memory.consumer.sourceTaken = 3 ∧
      FedInOrder geometry config.memory := by
  let shown (_ : Geometry) (config : RingConfig ℚ (Unit × List ℚ) ℚ) : Bool :=
    config.resting .consumer && decide (config.memory.consumer.NothingRefused ∧
      config.memory.consumer.sourceTaken = 3)
  have played : (playRing (unitConverter (F := ℚ) (W := ℚ)).recording smallSettings
      (uninterrupted .producer (.push [1 / 2, 1 / 4]) ++ uninterrupted .producer (.gap 1) ++
        uninterrupted .consumer .render)).any
      (fun played => shown played.1 played.2) = true := by decide +kernel
  obtain ⟨geometry, config, reached, shows⟩ :=
    reachable_of_plays _ _ _ shown (admitted_any _) played
  obtain ⟨resting, facts⟩ := Bool.and_eq_true_iff.mp shows
  obtain ⟨nothing, taken⟩ := of_decide_eq_true facts
  exact ⟨geometry, config, reached, nothing, taken,
    converter_fed_in_order reached (Config.idle_of_resting resting) nothing⟩

end PcmRing
