import PcmRing.ReachedStreams

/-!
# A stream in flight

At unit rate, in every schedule of the two threads, the published slots of the
stream are spread over what was played, the output cache, the workspace and the
queue: each in one place and all in order.
-/

namespace PcmRing

open AtomicProgram TwoLapQueue

variable {F S W : Type}

/-- The converted outputs that were not rendered yet. -/
def ConsumerState.waiting (state : ConsumerState F S W) : List F :=
  (List.range state.outputPending).map fun index => state.output (state.outputOffset + index)

/-- Samples of a stream, with silence behind its end. -/
def samplesFrom [Zero F] (line : List (SourceSample F)) (start count : Nat) : List F :=
  (List.range count).map fun index => pcmAt line (start + index)

section Samples

variable [Zero F] {line : List (SourceSample F)}

theorem samplesFrom_append (start first second : Nat) :
    samplesFrom line start (first + second) =
      samplesFrom line start first ++ samplesFrom line (start + first) second := by
  unfold samplesFrom
  rw [List.range_add, List.map_append, List.map_map]
  apply congrArg
  apply List.map_congr_left
  intro index _
  exact congrArg (pcmAt line) (Nat.add_assoc start first index).symm

theorem samplesFrom_take {count : Nat} (le : count ≤ line.length) :
    samplesFrom line 0 count = (line.take count).map SourceSample.pcm := by
  apply List.ext_getElem
  · simp only [samplesFrom, List.length_map, List.length_range, List.length_take]
    omega
  · intro index below _
    have inside : index < line.length := by
      simp only [samplesFrom, List.length_map, List.length_range] at below
      omega
    simp only [samplesFrom, pcmAt, List.getElem_map, List.getElem_range, List.getElem_take,
      Nat.zero_add, List.getElem?_eq_getElem inside, Option.elim]

end Samples

/-- The stream of a ring, place by place. -/
structure Sequenced [Zero F] (geometry : Geometry) (ring : Ring F Unit W) : Prop where
  /-- The cache holds what follows the last output. -/
  waiting : ring.consumer.waiting =
    samplesFrom ring.streamLine ring.consumer.nextIndex ring.consumer.outputPending
  /-- The workspace follows the cache. -/
  offered : ring.consumer.offered = samplesFrom ring.streamLine
    (ring.consumer.nextIndex + ring.consumer.outputPending) ring.consumer.inputPending
  /-- The queue follows what was taken. -/
  unread : ring.pcm.unread geometry.capacity = ring.streamLine.drop ring.consumer.sourceTaken
  /-- Without padding every taken slot was played, or is in one of the two places. -/
  whole : ring.consumer.inputPadding = false → ring.consumer.sourceTaken =
    ring.consumer.nextIndex + ring.consumer.outputPending + ring.consumer.inputPending
  /-- Padding only stands behind the last slot, at a boundary. -/
  padded : ring.consumer.inputPadding = true →
    ring.consumer.finite.isSome = true ∧ ring.streamLine.length = ring.consumer.sourceTaken
  /-- Every stamp that was taken names the same origin. -/
  based : ∀ index < ring.consumer.sourceTaken, ∀ slot mark,
    (ring.streamLine)[index]? = some slot → slot.stamp = some mark →
      ring.consumer.sourceBase = some (mark.generation, (mark.source : Int) - index)

namespace Sequenced

variable [Zero F] {geometry : Geometry} {ring : Ring F Unit W}

theorem partition (sequenced : Sequenced geometry ring)
    (unpadded : ring.consumer.inputPadding = false)
    (takenLe : ring.consumer.sourceTaken ≤ ring.streamLine.length) :
    ring.streamLine.map SourceSample.pcm =
      (ring.streamLine.take ring.consumer.nextIndex).map SourceSample.pcm ++
        ring.consumer.waiting ++ ring.consumer.offered ++
          (ring.pcm.unread geometry.capacity).map SourceSample.pcm := by
  have sum := sequenced.whole unpadded
  have played : samplesFrom ring.streamLine 0 _ = _ := samplesFrom_append 0
    (ring.consumer.nextIndex + ring.consumer.outputPending) ring.consumer.inputPending
  rw [← sum, samplesFrom_append, samplesFrom_take takenLe, samplesFrom_take (by omega),
    Nat.zero_add, Nat.zero_add, ← sequenced.waiting, ← sequenced.offered] at played
  rw [sequenced.unread, ← played, ← List.map_append, List.take_append_drop]

end Sequenced

section Schedules

variable [Binary32 F] [Binary64 W] [OrderedBinary64 W] [Widening F W] {geometry : Geometry}

omit [Binary64 W] [OrderedBinary64 W] [Widening F W] in
/-- What the caches hold of the taken slots they hold of the stream. -/
theorem InOrder.sequenced {ring : Ring F Unit W} {slack : Nat}
    (accounts : Accounts geometry slack ring.consumer ring)
    (whole : ring.pcm.passed.length = ring.ledger.streamStart + ring.consumer.sourceTaken)
    (ordered : InOrder ring.takenLine ring.consumer) : Sequenced geometry ring := by
  have lineEq := streamLine_eq accounts
  have takenLength : ring.takenLine.length = ring.consumer.sourceTaken := takenLine_length whole
  have ordered : InOrder ring.streamLine ring.consumer := by
    cases padding : ring.consumer.inputPadding with
    | false =>
        rw [lineEq]
        exact ordered.extend padding _
    | true =>
        rw [lineEq, (accounts.padded padding).2.2, List.append_nil]
        exact ordered
  have pending := ordered.pending_le
  have next : ring.consumer.nextIndex + ring.consumer.outputPending =
      ring.consumer.converterAccepted := by
    unfold ConsumerState.nextIndex
    omega
  constructor
  · apply List.map_congr_left
    intro index member
    exact ordered.cached index (List.mem_range.mp member)
  · rw [next]
    apply List.map_congr_left
    intro index member
    exact ordered.offered index (List.mem_range.mp member)
  · rw [lineEq, ← takenLength, List.drop_left]
  · intro unpadded
    rw [next, ordered.sum unpadded]
  · intro padding
    obtain ⟨-, captured, empty⟩ := accounts.padded padding
    refine ⟨captured, ?_⟩
    rw [lineEq, empty, List.append_nil, takenLength]
  · exact ordered.base

/-- At unit rate, in every schedule and behind any resets and boundaries, no
published slot of the stream is lost, repeated or reordered on its way through
the ring, unless a mute fault is latched. -/
theorem stream_in_flight {settings : Settings} {config : RingConfig F Unit W}
    (reached : RingReachable unitConverter settings (fun _ _ => True) geometry config)
    (idle : config.thread .consumer = .idle)
    (clean : config.memory.consumer.muteFault = false) :
    Sequenced geometry config.memory ∧
      (config.memory.consumer.inputPadding = false →
        config.memory.streamLine.map SourceSample.pcm =
          (config.memory.streamLine.take config.memory.consumer.nextIndex).map SourceSample.pcm ++
            config.memory.consumer.waiting ++ config.memory.consumer.offered ++
              (config.memory.pcm.unread geometry.capacity).map SourceSample.pcm) := by
  obtain ⟨ring, created, steps⟩ := reached
  have unit : geometry.AtUnitRate W := atUnitRate_created created
  obtain ⟨⟨accounts, -⟩, holds, -⟩ :=
    invariant_of_idle (unitKept unit.sized unit.reserved unit.targetLt unit.nominal) created
      (unitHolds_created created) steps idle
  have whole := holds.whole clean
  have sequenced := InOrder.sequenced accounts whole (holds.ordered whole)
  refine ⟨sequenced, fun unpadded => sequenced.partition unpadded ?_⟩
  rw [streamLine_eq accounts, List.length_append, takenLine_length whole]
  exact Nat.le_add_right _ _

end Schedules

/-- Three samples are published, and the first one is rendered. -/
theorem stream_in_flight_after_a_render :
    ∃ (geometry : Geometry) (config : RingConfig ℚ Unit ℚ),
      RingReachable (unitConverter (F := ℚ) (W := ℚ)) smallSettings (fun _ _ => True) geometry
        config ∧ config.memory.consumer.nextIndex = 1 ∧ config.memory.streamLine.length = 3 ∧
      Sequenced geometry config.memory ∧
      config.memory.streamLine.map SourceSample.pcm =
        (config.memory.streamLine.take 1).map SourceSample.pcm ++
          config.memory.consumer.waiting ++ config.memory.consumer.offered ++
            (config.memory.pcm.unread geometry.capacity).map SourceSample.pcm := by
  let shown (_ : Geometry) (config : RingConfig ℚ Unit ℚ) : Bool :=
    config.resting .consumer && (!config.memory.consumer.muteFault &&
      (!config.memory.consumer.inputPadding &&
        (decide (config.memory.consumer.nextIndex = 1) &&
          decide (config.memory.streamLine.length = 3))))
  have played : (playRing (unitConverter (F := ℚ) (W := ℚ)) smallSettings
      (uninterrupted .producer (.push [1, 1 / 2, 1 / 4]) ++ uninterrupted .consumer .render)).any
      (fun played => shown played.1 played.2) = true := by decide +kernel
  obtain ⟨geometry, config, reached, shows⟩ :=
    reachable_of_plays _ _ _ shown (admitted_any _) played
  simp only [shown, Bool.and_eq_true, Bool.not_eq_true', decide_eq_true_eq] at shows
  obtain ⟨resting, clean, unpadded, next, published⟩ := shows
  obtain ⟨sequenced, partition⟩ :=
    stream_in_flight reached (Config.idle_of_resting resting) clean
  exact ⟨geometry, config, reached, next, published, sequenced, next ▸ partition unpadded⟩

end PcmRing
