import PcmRing.BlankPrograms
import PcmRing.ConverterContent

/-!
# Consumers without their samples

A converter that counts its samples and never looks at them drives the consumer
through the same states with and without the PCM.
-/

namespace PcmRing

open AtomicProgram TwoLapQueue

variable {F S T W : Type}

namespace Adapter

/-- What the converter answers depends on the number of its samples only: without
them it does the same with the part of its state that is no PCM. -/
structure Forgets (adapter : Adapter F W S) (bare : Adapter Blank W T) (erase : S → T) : Prop where
  reset_eq : ∀ handle, bare.reset (erase handle) = (adapter.reset handle).map id erase
  process : ∀ handle input outputLength ratio,
    let reply := adapter.process handle input outputLength ratio
    let image := bare.process (erase handle) (input.map fun _ => ⟨⟩) outputLength ratio
    image.status = reply.status ∧ image.inputUsed = reply.inputUsed ∧
      image.outputGenerated = reply.outputGenerated ∧ image.handle = erase reply.handle
  queuedInput_eq : ∀ handle,
    bare.queuedInput (erase handle) = (adapter.queuedInput handle).map id (Prod.map id erase)
  inputDelay_eq : ∀ handle,
    bare.inputDelay (erase handle) = (adapter.inputDelay handle).map id (Prod.map id erase)

def Converted.blank (converted : Converted F) : Converted Blank :=
  ⟨converted.inputUsed, converted.outputGenerated, fun _ => ⟨⟩⟩

namespace Forgets

variable {adapter : Adapter F W S} {bare : Adapter Blank W T} {erase : S → T}
  (forgets : adapter.Forgets bare erase)

include forgets

theorem inputDelay (handle : S) : bare.converterInputDelay (erase handle) =
    (adapter.converterInputDelay handle).map id erase := by
  unfold converterInputDelay
  rw [forgets.inputDelay_eq]
  rfl

theorem queuedInput (handle : S) : bare.converterQueuedInput (erase handle) =
    (adapter.converterQueuedInput handle).map id erase := by
  unfold converterQueuedInput
  rw [forgets.queuedInput_eq]
  rfl

theorem reset (handle : S) : bare.converterReset (erase handle) =
    (adapter.converterReset handle).map id erase := by
  unfold converterReset
  rw [forgets.reset_eq]
  rfl

/-- The checks of an answer only look at counts. -/
theorem converterProcess [Binary64 W] (handle : S) (input : List F) (outputLength : Nat)
    (ratio : W) :
    bare.converterProcess (erase handle) (input.map fun _ => ⟨⟩) outputLength ratio =
      (adapter.converterProcess handle input outputLength ratio).map (Option.map Converted.blank)
        erase := by
  obtain ⟨statusEq, usedEq, generatedEq, handleEq⟩ :=
    forgets.process handle input outputLength ratio
  unfold Adapter.converterProcess
  rw [apply_ite (Prod.map (Option.map Converted.blank) erase)]
  refine if_congr Iff.rfl rfl ?_
  dsimp only
  rw [statusEq, usedEq, generatedEq, handleEq, List.length_map]
  refine Prod.ext ?_ rfl
  dsimp only [Prod.map]
  rw [apply_ite (Option.map Converted.blank)]
  rfl

end Forgets

theorem unitConverter_forgets [Binary32 F] [Binary64 W] :
    (unitConverter (F := F) (W := W)).Forgets unitConverter id where
  reset_eq _ := rfl
  process handle input outputLength ratio := by
    unfold unitConverter
    dsimp only
    split
    · exact ⟨rfl, rfl, rfl, rfl⟩
    · rw [List.length_map]
      exact ⟨rfl, rfl, rfl, rfl⟩
  queuedInput_eq _ := rfl
  inputDelay_eq _ := rfl

/-- A converter of unit rate that remembers every sample it accepted copies them unseen. -/
theorem recording_forgets [Binary32 F] [Binary64 W] :
    (unitConverter (F := F) (W := W)).recording.Forgets unitConverter Prod.fst where
  reset_eq _ := rfl
  process handle input outputLength ratio := by
    unfold recording unitConverter
    dsimp only
    split
    · exact ⟨rfl, rfl, rfl, rfl⟩
    · rw [List.length_map]
      exact ⟨rfl, rfl, rfl, rfl⟩
  queuedInput_eq _ := rfl
  inputDelay_eq _ := rfl

end Adapter

namespace ConsumerState

variable (state : ConsumerState F S W) (erase : S → T)

theorem makeInputSpace_blank (additional capacity : Nat) :
    (state.blank erase).makeInputSpace additional capacity =
      (state.makeInputSpace additional capacity).blank erase := by
  unfold makeInputSpace
  rw [apply_ite (ConsumerState.blank erase)]
  rfl

theorem fence_blank (stamp : Option Stamp) :
    (state.blank erase).fence stamp = (state.fence stamp).map id (ConsumerState.blank erase) := by
  cases stamp with
  | none => rfl
  | some stamp =>
      unfold fence
      rw [apply_ite (Prod.map id (ConsumerState.blank erase))]
      rfl

theorem acceptSource_blank (gapCapacity : Nat) (sample : SourceSample F) :
    (state.blank erase).acceptSource gapCapacity sample.blank =
      (state.acceptSource gapCapacity sample).map id (ConsumerState.blank erase) := by
  have fenced : (state.blank erase).fence sample.blank.stamp = _ :=
    state.fence_blank erase sample.stamp
  unfold acceptSource
  rw [fenced]
  generalize state.fence sample.stamp = fencing
  obtain ⟨passed, after⟩ := fencing
  obtain ⟨pcm, missing, stamp⟩ := sample
  cases passed with
  | false => rfl
  | true =>
      cases missing with
      | false => rfl
      | true =>
          have extended : extendGaps gapCapacity (after.blank erase).sourceTaken
              (after.blank erase).gaps = extendGaps gapCapacity after.sourceTaken after.gaps := rfl
          dsimp only [Prod.map, id, SourceSample.blank]
          rw [extended]
          cases extendGaps gapCapacity after.sourceTaken after.gaps <;> rfl

theorem padInput_blank [Zero F] (quantum : Nat) :
    (state.blank erase).padInput quantum = (state.padInput quantum).blank erase := by
  unfold padInput
  rw [apply_ite (ConsumerState.blank erase)]
  rfl

theorem offered_blank : (state.blank erase).offered = state.offered.map fun _ => (⟨⟩ : Blank) := by
  unfold offered
  rw [List.map_map]
  rfl

theorem finishConversion_blank (geometry : Geometry) (used generated : Nat) :
    (state.blank erase).finishConversion geometry used generated =
      (state.finishConversion geometry used generated).map id (ConsumerState.blank erase) := by
  unfold finishConversion
  dsimp only
  rw [apply_ite (Prod.map id (ConsumerState.blank erase))]
  refine if_congr Iff.rfl rfl ?_
  rw [apply_ite (Prod.map id (ConsumerState.blank erase))]
  rfl

theorem popped_blank [Binary32 F] (result : RefillResult) :
    (state.blank erase).popped result =
      (state.popped result).map blankInput (ConsumerState.blank erase) := by
  unfold popped
  rw [apply_ite (Prod.map blankInput (ConsumerState.blank erase))]
  refine if_congr Iff.rfl ?_ rfl
  unfold nextCached
  refine Prod.ext ?_ rfl
  dsimp only [Prod.map]
  rw [apply_ite blankInput]
  rfl

theorem delayPosition_blank (lookahead : Nat) (position : Option Position) :
    (state.blank erase).delayPosition lookahead position =
      (state.delayPosition lookahead position).map id (ConsumerState.blank erase) := by
  unfold delayPosition
  rw [apply_ite (Prod.map id (ConsumerState.blank erase))]
  rfl

theorem drainLookahead_blank [Binary32 F] (lookahead : Nat) (boundary : Finite) :
    ((state.blank erase).drainLookahead lookahead boundary).2 =
      (state.drainLookahead lookahead boundary).2.blank erase := by
  unfold drainLookahead
  dsimp only
  cases state.plc <;> rfl

theorem concealed_blank [Binary32 F] [Binary64 W] [Widening F W] (input : Option F) :
    ((state.blank erase).concealed (blankInput input)).2 =
      (state.concealed input).2.blank erase := by
  unfold concealed
  cases state.plc <;> rfl

theorem draining_blank : (state.blank erase).Draining ↔ state.Draining :=
  Iff.rfl

theorem pastBoundary_blank : (state.blank erase).PastBoundary ↔ state.PastBoundary :=
  Iff.rfl

variable {erase} {adapter : Adapter F W S} {bare : Adapter Blank W T}
  (forgets : adapter.Forgets bare erase)

include forgets

theorem reset_blank [Binary32 F] [Binary64 W] :
    (state.blank erase).reset bare = (state.reset adapter).map id (ConsumerState.blank erase) := by
  have asked : bare.converterReset (state.blank erase).converter = _ :=
    forgets.reset state.converter
  unfold reset
  rw [asked]
  rfl

theorem classifyGaps_blank :
    (state.blank erase).classifyGaps bare =
      (state.classifyGaps adapter).map id (ConsumerState.blank erase) := by
  have asked : bare.converterInputDelay (state.blank erase).converter = _ :=
    forgets.inputDelay state.converter
  unfold classifyGaps
  rw [apply_ite (Prod.map id (ConsumerState.blank erase))]
  refine if_congr Iff.rfl rfl ?_
  dsimp only
  rw [asked]
  generalize adapter.converterInputDelay state.converter = answer
  obtain ⟨delay, converter⟩ := answer
  cases delay with
  | none => rfl
  | some delay =>
      rw [apply_ite (Prod.map id (ConsumerState.blank erase))]
      rfl

theorem recordCache_blank (sourceStart : Int) (generated : Nat) :
    (state.blank erase).recordCache bare sourceStart generated =
      (state.recordCache adapter sourceStart generated).map id (ConsumerState.blank erase) := by
  have asked : bare.converterInputDelay (state.blank erase).converter = _ :=
    forgets.inputDelay state.converter
  unfold recordCache
  rw [apply_ite (Prod.map id (ConsumerState.blank erase))]
  refine if_congr Iff.rfl rfl ?_
  rw [asked]
  generalize adapter.converterInputDelay state.converter = answer
  obtain ⟨delay, converter⟩ := answer
  cases delay with
  | none => rfl
  | some delay =>
      dsimp only
      rw [apply_ite (Prod.map id (ConsumerState.blank erase))]
      rfl

variable [Binary64 W] (geometry : Geometry)

theorem runConverter_blank (quantum : Nat) :
    (state.blank erase).runConverter bare geometry quantum =
      (state.runConverter adapter geometry quantum).map id (ConsumerState.blank erase) := by
  have asked : bare.converterInputDelay (state.blank erase).converter = _ :=
    forgets.inputDelay state.converter
  unfold runConverter
  dsimp only
  rw [asked]
  generalize adapter.converterInputDelay state.converter = answer
  obtain ⟨delay, converter⟩ := answer
  cases delay with
  | none => rfl
  | some delay =>
      have processed : bare.converterProcess (erase converter) (state.blank erase).offered
          (if (state.blank erase).gaps = [] then quantum else 1) (state.blank erase).ratio = _ :=
        (congrArg (fun input => bare.converterProcess (erase converter) input
          (if state.gaps = [] then quantum else 1) state.ratio) (state.offered_blank erase)).trans
            (forgets.converterProcess converter state.offered _ state.ratio)
      rw [Prod.map_apply]
      dsimp only [id]
      rw [processed]
      generalize adapter.converterProcess converter state.offered
        (if state.gaps = [] then quantum else 1) state.ratio = reply
      obtain ⟨converted, handle⟩ := reply
      cases converted with
      | none => rfl
      | some converted =>
          dsimp only [Prod.map, Option.map, id]
          have recorded : recordCache bare
              (((state.blank erase).converterAccepted : Int) * frameUnit - delay)
              converted.blank.outputGenerated (consumeInput converted.blank.inputUsed
                { state.blank erase with
                  converter := erase handle
                  output := fun index => if index < converted.blank.outputGenerated then
                    converted.blank.output index else (state.blank erase).output index }) = _ :=
            recordCache_blank (consumeInput converted.inputUsed { state with
              converter := handle
              output := fun index => if index < converted.outputGenerated then
                converted.output index else state.output index }) forgets
              ((state.converterAccepted : Int) * frameUnit - delay) converted.outputGenerated
          rw [recorded]
          generalize recordCache adapter _ _ _ = recording
          obtain ⟨placed, after⟩ := recording
          cases placed with
          | false => rfl
          | true => exact after.finishConversion_blank erase geometry _ _

theorem convert_blank (quantum : Nat) :
    (state.blank erase).convert bare geometry quantum =
      (state.convert adapter geometry quantum).map id (ConsumerState.blank erase) := by
  unfold convert
  rw [classifyGaps_blank state forgets]
  generalize state.classifyGaps adapter = classified
  obtain ⟨passed, after⟩ := classified
  cases passed with
  | false => rfl
  | true => exact after.runConverter_blank forgets geometry quantum

end ConsumerState

end PcmRing
