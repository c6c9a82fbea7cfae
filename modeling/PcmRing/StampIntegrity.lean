import PcmRing.DrainedBoundary

/-!
# Stamps belong to their stream

A tagged block is stamped with its own positions, and a stamp is not used
beyond the boundary that ended its stream.  A publication reads the reset serial
before the finish word, so a boundary that completes in between lets it pass
the gate with the stamp of the stream before.
-/

namespace PcmRing

open AtomicProgram TwoLapQueue

/-- No stream reset. -/
def rendersOnly {F : Type} : (party : Party) → party.Call F → Prop
  | .producer, _ => True
  | .consumer, call => call = .render

variable {F S W : Type}

/-- What the stamps of a run say. -/
structure StampIntegrity (config : RingConfig F S W) : Prop where
  /-- The accepted slots of a tagged block carry its positions. -/
  tagged : ∀ record ∈ config.returned .producer, ∀ input generation sourceStart spans accepted,
    record.call = .pushTagged input generation sourceStart spans →
    record.result = .credit (some accepted) → ∃ slots,
      record.exit.pcm.published = record.entry.pcm.published ++ slots ∧
      slots.length = accepted ∧ StampedFrom slots generation sourceStart
  /-- A stamp was set in the stream its slot was accepted in. -/
  fresh : ∀ (index : Nat) slot note, config.memory.pcm.published[index]? = some slot →
    config.memory.ledger.slots[index]? = some note → slot.stamp.isSome →
    note.born = note.serial

variable [Binary32 F] [Binary64 W] [Widening F W] {adapter : Adapter F W S}
  {geometry : Geometry}

/-- What a producer call established when it returned, and whether all gates had been
current by then. -/
theorem producerPost_of_returned {settings : Settings} {config : RingConfig F S W}
    (reached : RingReachable adapter settings rendersOnly geometry config)
    {record : Returned (Ring F S W) (ProducerCall F) ProducerResult}
    (member : record ∈ config.returned .producer) :
    ProducerPost False record.call record.entry record.result record.exit ∧
      (config.memory.ledger.gatesCurrent = true → record.exit.ledger.gatesCurrent = true) := by
  obtain ⟨ring, created, steps⟩ := reached
  have positive : 0 < geometry.capacity :=
    Nat.lt_of_lt_of_le (by decide) (create_capacity created)
  obtain ⟨-, outputDelay, delay, converter, -, initial⟩ := create_cases created
  let spec := drainSpec adapter geometry False rendersOnly fun reset => by cases reset
  have uniform (call : ProducerCall F) (_ : rendersOnly .producer call) : call.Uniform none :=
    uniform_none call
  have start : spec.inv ring := initial ▸ drainInv_initial positive
  refine ⟨Outline.post_of_returned _ (spec.holds uniform positive initial start steps .producer)
    member, ?_⟩
  exact related_of_returned (fun before after : Ring F S W =>
    after.ledger.gatesCurrent = true → before.ledger.gatesCurrent = true)
    ⟨fun _ => id, fun first second later => first (second later)⟩
    (fun _ _ => gatesCurrent_of_effect) steps member

/-- In every run whose gates all found a pending boundary or a current epoch,
tagged blocks are stamped as they were tagged and no stamp is inherited. -/
theorem stamp_integrity {settings : Settings} {config : RingConfig F S W}
    (reached : RingReachable adapter settings rendersOnly geometry config)
    (current : config.memory.ledger.gatesCurrent = true) : StampIntegrity config := by
  constructor
  · intro record member input generation sourceStart spans accepted callEq resultEq
    obtain ⟨post, passed⟩ := producerPost_of_returned reached member
    rw [callEq, resultEq] at post
    obtain ⟨slots, intervals, appends, lengthEq, -, stamped, -⟩ := post
    exact ⟨slots, appends.published_eq, lengthEq.symm, stamped id (passed current)⟩
  · obtain ⟨ring, created, steps⟩ := reached
    have positive : 0 < geometry.capacity :=
      Nat.lt_of_lt_of_le (by decide) (create_capacity created)
    obtain ⟨-, outputDelay, delay, converter, -, initial⟩ := create_cases created
    let spec := drainSpec adapter geometry False rendersOnly fun reset => by cases reset
    have uniform (call : ProducerCall F) (_ : rendersOnly .producer call) : call.Uniform none :=
      uniform_none call
    have start : spec.inv ring := initial ▸ drainInv_initial positive
    refine Outline.memory_of_reachable _ (spec.initially uniform positive initial start)
      (fun ring => ring.producerView.FreshStamps) ?_ ?_ steps current
    · subst initial
      intro _ index slot note slotAt
      cases slotAt
    · intro party op memory promised fresh
      cases party with
      | producer => exact promised.fresh id fresh
      | consumer =>
          change (effect geometry op memory).producerView.FreshStamps
          rw [(ConsumerMoves.of_permits (spec.permits promised)).producerView_eq]
          exact fresh

/-- A tagged sample is finished and rendered, and its boundary is pending. -/
def burstSchedule : List (Choice (Party.Call ℚ)) :=
  uninterrupted .producer (.pushTagged [1 / 2] 1 0 []) ++ uninterrupted .producer .finish ++
    uninterrupted .consumer .render

/-- The boundary completes after `call` has read the reset serial and the epoch. -/
def overtakenSchedule (call : ProducerCall ℚ) : List (Choice (Party.Call ℚ)) :=
  burstSchedule ++ [.invoke .producer call, .advance .producer 2] ++
    uninterrupted .consumer .render ++ [.complete .producer 100]

theorem admitted_overtaken (call : ProducerCall ℚ) :
    ∀ choice ∈ overtakenSchedule call, choice.Admitted rendersOnly := by
  simp [overtakenSchedule, burstSchedule, uninterrupted, Choice.Admitted, rendersOnly]

/-- The boundary has completed, and two blocks follow it. -/
def laterBurstSchedule : List (Choice (Party.Call ℚ)) :=
  burstSchedule ++ uninterrupted .consumer .render ++ uninterrupted .producer (.status 1) ++
    uninterrupted .producer (.push [1 / 4]) ++
    uninterrupted .producer (.pushTagged [1 / 8] 2 5 [])

/-- Behind the boundary the plain sample carries no stamp, and the tagged one its own. -/
theorem stamp_integrity_behind_a_boundary :
    ∃ (geometry : Geometry) (config : RingConfig ℚ Unit ℚ),
      RingReachable unitConverter smallSettings rendersOnly geometry config ∧
      (config.returned .producer).map (fun record => (record.call, record.result)) =
        [(.pushTagged [1 / 2] 1 0 [], .credit (some 1)), (.finish, .token (some 1)),
          (.status 1, .status (some .drained)), (.push [1 / 4], .count 1),
          (.pushTagged [1 / 8] 2 5 [], .credit (some 1))] ∧
      config.memory.pcm.published.map SourceSample.stamp = [some ⟨1, 0⟩, none, some ⟨2, 5⟩] ∧
      config.memory.ledger.slots.map SlotNote.serial = [0, 1, 1] ∧ StampIntegrity config := by
  let shown (_ : Geometry) (config : RingConfig ℚ Unit ℚ) : Bool :=
    config.memory.ledger.gatesCurrent &&
      (decide ((config.returned .producer).map (fun record => (record.call, record.result)) =
        [(.pushTagged [1 / 2] 1 0 [], .credit (some 1)), (.finish, .token (some 1)),
          (.status 1, .status (some .drained)), (.push [1 / 4], .count 1),
          (.pushTagged [1 / 8] 2 5 [], .credit (some 1))]) &&
        (decide (config.memory.pcm.published.map SourceSample.stamp =
          [some ⟨1, 0⟩, none, some ⟨2, 5⟩]) &&
        decide (config.memory.ledger.slots.map SlotNote.serial = [0, 1, 1])))
  have played : (playRing unitConverter smallSettings laterBurstSchedule).any
      (fun played => shown played.1 played.2) = true := by decide +kernel
  have admitted : ∀ choice ∈ laterBurstSchedule, choice.Admitted rendersOnly := by
    simp [laterBurstSchedule, burstSchedule, uninterrupted, Choice.Admitted, rendersOnly]
  obtain ⟨geometry, config, reached, shows⟩ := reachable_of_plays _ _ _ shown admitted played
  simp only [Bool.and_eq_true, decide_eq_true_eq, shown] at shows
  obtain ⟨current, returnedEq, stamps, serials⟩ := shows
  exact ⟨geometry, config, reached, returnedEq, stamps, serials, stamp_integrity reached current⟩

/-- A tagged sample loses its stamp, and a sample without a tag inherits one. -/
theorem stamps_overtaken :
    (∃ (geometry : Geometry) (config : RingConfig ℚ Unit ℚ),
      RingReachable unitConverter smallSettings rendersOnly geometry config ∧
      ∃ record ∈ config.returned .producer,
        record.call = .pushTagged [1 / 4] 1 1 [] ∧ record.result = .credit (some 1) ∧
        record.exit.pcm.published.map SourceSample.stamp = [some ⟨1, 0⟩, none] ∧
        ¬StampIntegrity config) ∧
    ∃ (geometry : Geometry) (config : RingConfig ℚ Unit ℚ),
      RingReachable unitConverter smallSettings rendersOnly geometry config ∧
      config.memory.pcm.published.map SourceSample.stamp = [some ⟨1, 0⟩, some ⟨1, 1⟩] ∧
      ¬StampIntegrity config := by
  constructor
  · have played : ((playRing unitConverter smallSettings
        (overtakenSchedule (.pushTagged [1 / 4] 1 1 []))).bind
        fun played : Geometry × RingConfig ℚ Unit ℚ =>
          (played.2.returned .producer)[2]?.map fun record => (record.call, record.result,
            record.entry.pcm.published.length,
            record.exit.pcm.published.map SourceSample.stamp)) =
        some (.pushTagged [1 / 4] 1 1 [], .credit (some 1), 1, [some ⟨1, 0⟩, none]) := by
      decide +kernel
    obtain ⟨⟨geometry, config⟩, played, facts⟩ := Option.bind_eq_some_iff.mp played
    obtain ⟨record, recordAt, facts⟩ := Option.map_eq_some_iff.mp facts
    simp only [Prod.mk.injEq] at facts
    obtain ⟨callEq, resultEq, lengthEq, stampsEq⟩ := facts
    have member := List.mem_of_getElem? recordAt
    refine ⟨geometry, config, ringReachable_of_playRing (admitted_overtaken _) played, record,
      member, callEq, resultEq, stampsEq, fun integrity => ?_⟩
    obtain ⟨slots, publishedEq, slotsLength, stamped⟩ :=
      integrity.tagged record member _ _ _ _ _ callEq resultEq
    obtain ⟨slot, rfl⟩ := List.length_eq_one_iff.mp slotsLength
    rw [publishedEq, List.map_append, List.map_singleton] at stampsEq
    have last := congrArg List.getLast? stampsEq
    rw [stamped 0 slot rfl, List.getLast?_concat] at last
    cases last
  · have played : ((playRing unitConverter smallSettings
        (overtakenSchedule (.pushSample (1 / 4)))).map
        fun played : Geometry × RingConfig ℚ Unit ℚ =>
          (played.2.memory.pcm.published.map SourceSample.stamp,
            played.2.memory.ledger.slots)) =
        some ([some ⟨1, 0⟩, some ⟨1, 1⟩], [⟨0, 0, 0⟩, ⟨1, 0, 0⟩]) := by decide +kernel
    obtain ⟨⟨geometry, config⟩, played, facts⟩ := Option.map_eq_some_iff.mp played
    obtain ⟨stampsEq, slotsEq⟩ := Prod.mk.inj facts
    refine ⟨geometry, config, ringReachable_of_playRing (admitted_overtaken _) played, stampsEq,
      fun integrity => ?_⟩
    have stampAt := congrArg (fun stamps => stamps[1]?) stampsEq
    rw [List.getElem?_map] at stampAt
    obtain ⟨slot, slotAt, stampEq⟩ := Option.map_eq_some_iff.mp stampAt
    have inherited := integrity.fresh 1 slot ⟨1, 0, 0⟩ slotAt (by rw [slotsEq]; rfl)
      (by rw [stampEq]; rfl)
    exact absurd inherited (by decide)

end PcmRing
