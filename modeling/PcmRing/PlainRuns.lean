import PcmRing.PlainQueue
import PcmRing.ResetErasure

/-!
# Runs of the plain queue

Every call of either endpoint does to the ring at unit rate what it does to the
plain queue, as long as one base explains the stamps of each stream and the mute
history has room.
-/

namespace PcmRing

open TwoLapQueue

variable {F S W : Type}

/-- What the producer publishes while a boundary is pending: nothing, and it is
not counted as discarded. -/
def Uncredited : ProducerCall F → ProducerResult → Prop
  | .pushSample _, result => result = .published false
  | .push _, result | .gap _, result => result = .count 0
  | .pushTagged .., result => result = .credit (some 0)
  | .finish, result => result = .token none
  | .mute .., _ | .status _, _ => True

section Calls

variable [Binary32 F] {geometry : Geometry} {view : RingView F S W}

variable (geometry) in
theorem produce_pending (pending : FinishPending view.finish) (call : ProducerCall F) :
    Uncredited call (view.produce geometry call).1 ∧
      (view.produce geometry call).2.finish = view.finish ∧
      (view.produce geometry call).2.slots = view.slots ∧
      (view.produce geometry call).2.account.published = view.account.published ∧
      (view.produce geometry call).2.account.discarded = view.account.discarded ∧
      (view.produce geometry call).2.account.stamp = view.account.stamp := by
  unfold RingView.produce
  cases call with
  | pushSample sample =>
      dsimp only
      rw [if_pos pending]
      exact ⟨rfl, rfl, rfl, rfl, rfl, rfl⟩
  | push input =>
      unfold RingView.publishBlock
      dsimp only
      rw [if_pos pending]
      exact ⟨rfl, rfl, rfl, rfl, rfl, rfl⟩
  | gap samples =>
      unfold RingView.publishBlock
      dsimp only
      rw [if_pos pending]
      exact ⟨rfl, rfl, rfl, rfl, rfl, rfl⟩
  | pushTagged input generation sourceStart spans =>
      dsimp only
      rw [if_pos pending]
      exact ⟨rfl, rfl, rfl, rfl, rfl, rfl⟩
  | mute generation spans =>
      dsimp only
      split
      · exact ⟨trivial, rfl, rfl, rfl, rfl, rfl⟩
      split
      · exact ⟨trivial, rfl, rfl, rfl, rfl, rfl⟩
      · refine ⟨trivial, rfl, ?_, rfl, rfl, rfl⟩
        simp [RingView.produced]
  | finish =>
      dsimp only
      rw [if_pos pending]
      exact ⟨rfl, rfl, rfl, rfl, rfl, rfl⟩
  | status token => exact ⟨trivial, rfl, rfl, rfl, rfl, rfl⟩

variable (geometry view) in
theorem produce_still (call : ProducerCall F) :
    (view.produce geometry call).2.missing = view.missing ∧
      (view.produce geometry call).2.fed = view.fed ∧
      (call ≠ .finish → (view.produce geometry call).2.finish = view.finish) ∧
      (FinishPending view.finish → FinishPending (view.produce geometry call).2.finish) := by
  refine ⟨?_, ?_, ?_, fun pending => (produce_pending geometry pending call).2.1.symm ▸ pending⟩
  all_goals
    unfold RingView.produce RingView.publishBlock RingView.produced
    cases call
  all_goals try intro other
  all_goals dsimp only
  all_goals repeat' split
  all_goals first
    | rfl
    | exact (other rfl).elim

end Calls

section Running

variable [Binary32 F] [Binary64 W] [OrderedBinary64 W] [Widening F W] {geometry : Geometry}
  {queue : PlainQueue F} {view : RingView F Unit W}

theorem Plays.produce (positive : 0 < geometry.capacity) (plays : Plays geometry queue view)
    (call : ProducerCall F)
    (contiguous : Contiguous (queue.line ++ (view.produce geometry call).2.account.published.drop
      view.account.published.length)) :
    Plays geometry
      (queue.accept
        ((view.produce geometry call).2.account.published.drop view.account.published.length)
        ((view.produce geometry call).2.account.records.drop view.account.records.length))
      (view.produce geometry call).2 := by
  have advances : Adapter.Advances _ _ := unitConverter_advances (F := F) (W := W)
  have hears := plays.hears.perform advances positive ⟨.producer, call⟩
  have heeds : Heeds _ (view.perform unitConverter geometry ⟨.producer, call⟩).2 :=
    plays.heeds.perform positive ⟨.producer, call⟩
  obtain ⟨consumer, fresh, slots, published⟩ : view.Grows (view.produce geometry call).2 :=
    RingView.grows_produce call
  obtain ⟨missing, fed, -, stillPending⟩ := produce_still geometry view call
  rw [published, List.drop_left] at contiguous ⊢
  have standing := plays.standing
  -- A captured boundary admits nothing more.
  have closed (boundary : Finite) (member : boundary ∈ view.consumer.finite) : fresh = [] := by
    have captured : view.consumer.finite.isSome = true := by
      rw [Option.mem_def.mp member]
      rfl
    have unpublished := (produce_pending geometry (plays.captured captured).1
      call).2.2.2.1
    rw [published] at unpublished
    exact List.append_right_eq_self.mp unpublished
  have ordered : InOrder (queue.line ++ fresh) view.consumer := by
    cases finiteEq : view.consumer.finite with
    | none =>
        apply standing.ordered.extend
        refine Bool.eq_false_iff.mpr fun padded => ?_
        have captured := standing.padded padded
        rw [finiteEq] at captured
        cases captured
    | some boundary =>
        rw [closed boundary finiteEq, List.append_nil]
        exact standing.ordered
  constructor
  · rw [consumer, slots]
    constructor
    · exact ordered
    · have split := standing.split
      have fits := standing.ordered.classified.taken_le
      constructor
      · change (queue.line ++ fresh).length = _
        rw [List.length_append, List.length_append, split.whole, Nat.add_assoc]
      · change (queue.line ++ fresh).drop _ = _
        rw [List.drop_append_of_le_length fits, split.rest]
    · exact contiguous
    · exact standing.working
    · exact standing.ratio
    · exact standing.clean
    · exact standing.padded
    · intro boundary member
      change boundary.stop = (queue.line ++ fresh).length
      rw [closed boundary member, List.append_nil]
      exact standing.boundary boundary member
  · exact hears
  · exact heeds
  · exact consumer ▸ plays.next_eq
  · change queue.emitted ≤ (queue.line ++ fresh).length
    have reached := plays.reached
    rw [List.length_append]
    omega
  · exact consumer ▸ plays.primed_eq
  · exact consumer ▸ plays.quiet_eq
  · exact consumer ▸ plays.plc_eq
  · exact fed.trans plays.fed_eq
  · exact missing.trans plays.missing_eq
  · exact consumer ▸ plays.waiting
  · exact plays.unprimed
  · rw [consumer]
    exact fun captured => (plays.captured captured).imp_left stillPending
  · exact consumer ▸ plays.streaming
  · rw [consumer]
    intro boundary member
    refine (plays.draining boundary member).imp_right fun expired retained => ?_
    change (queue.line ++ fresh).length ≤ queue.emitted
    rw [closed boundary member, List.append_nil]
    exact expired retained

theorem Plays.reset (positive : 0 < geometry.capacity) (plays : Plays geometry queue view) :
    Plays geometry (queue.restart queue.quiet) (view.reset unitConverter).2 := by
  have advances : Adapter.Advances _ _ := unitConverter_advances (F := F) (W := W)
  have hears := plays.hears.perform advances positive ⟨.consumer, .reset⟩
  have heeds : Heeds _ (view.perform unitConverter geometry ⟨.consumer, .reset⟩).2 :=
    plays.heeds.perform positive ⟨.consumer, .reset⟩
  refine plays_restart plays.plc_eq queue.quiet ?_ rfl plays.fed_eq plays.missing_eq hears heeds
  rw [← plays.quiet_eq]
  rfl

omit [Widening F W] in
theorem atUnitRate_created {settings : Settings} {ring : Ring F S W} {adapter : Adapter F W S}
    (created : Ring.create adapter settings = .ok (geometry, ring)) : geometry.AtUnitRate W := by
  obtain ⟨valid, outputDelay, queued, converter, rfl, -⟩ := create_cases created
  have nominal : Bounded (nominalRatio W settings.outputRateHz settings.inputRateHz) :=
    nominalRatio_bounded valid
  have targetLt : settings.target < 2 ^ 32 := by
    unfold Settings.validate at valid
    dsimp only at valid
    split at valid
    · cases valid
    · rename_i admitted
      simp only [not_or, not_not, not_lt] at admitted
      obtain ⟨⟨-, high⟩, -, -, -, -, target, -⟩ := admitted
      unfold maximumCapacity at high
      omega
  constructor
  · exact Nat.lt_of_lt_of_le (by decide) (create_capacity created)
  · change settings.capacity < settings.capacity * 2 + ceilDiv queued frameUnit + 2
    omega
  · exact targetLt
  · exact nominal

omit [Widening F W] in
theorem plays_created {settings : Settings} {ring : Ring F Unit W}
    (created : Ring.create unitConverter settings = .ok (geometry, ring)) :
    Plays geometry (.fresh ring.consumer.plc) (ring.view geometry) := by
  have hears : Hears geometry (fun _ => 0) ⟨[], []⟩ (ring.view geometry) := hears_created created
  have heeds : Heeds ⟨[], []⟩ (ring.view geometry) := heeds_created created
  have zeroEq := value_int (W := W) 0 (by decide)
  obtain ⟨-, outputDelay, queued, converter, rfl, rfl⟩ := create_cases created
  constructor
  · constructor
    · exact .fresh _ ⟨rfl, rfl, rfl, rfl, rfl⟩ rfl rfl rfl
    · have none (consumer : ConsumerState F Unit W) : ((Ring.initial consumer).view
          (settings.geometry outputDelay queued)).slots = [] := by
        dsimp only [Ring.view, Ring.initial]
        exact unread_empty _
      rw [none]
      exact ⟨rfl, rfl⟩
    · exact ⟨(0, 0), fun index slot mark slotAt => by cases slotAt⟩
    · rfl
    · exact .inl (by exact_mod_cast zeroEq)
    · rfl
    · exact fun padded => by cases padded
    · exact fun boundary member => by cases member
  · exact hears
  · exact heeds
  · rfl
  · exact Nat.le_refl 0
  · rfl
  · rfl
  · rfl
  · rfl
  · rfl
  · exact fun _ => rfl
  · exact fun _ => rfl
  · exact fun captured => by cases captured
  · exact fun _ => rfl
  · exact fun boundary member => by cases member

end Running

/-- What one call accepts into the stream. -/
def RingView.accepted [Binary32 F] (geometry : Geometry) (call : ProducerCall F)
    (view : RingView F S W) : List (SourceSample F) :=
  (view.produce geometry call).2.account.published.drop view.account.published.length

section Refining

variable [Binary32 F] [Binary64 W] [OrderedBinary64 W] [Widening F W] {geometry : Geometry}
  {queue : PlainQueue F} {view : RingView F Unit W}

omit [Widening F W] in
/-- Everything that was accepted and not emitted is in the queue, the workspace or
the cache. -/
theorem Plays.held (plays : Plays geometry queue view) (streaming : view.consumer.finite = none) :
    queue.line.length = queue.emitted +
      (view.slots.length + view.consumer.inputPending + view.consumer.outputPending) := by
  have standing := plays.standing
  have unpadded : view.consumer.inputPadding = false := by
    refine Bool.eq_false_iff.mpr fun padded => ?_
    have captured := standing.padded padded
    rw [streaming] at captured
    cases captured
  have whole := standing.split.whole
  have sum := standing.ordered.sum unpadded
  have cached := standing.ordered.pending_le
  have next := plays.next_eq
  unfold ConsumerState.nextIndex at next
  omega

end Refining

end PcmRing
