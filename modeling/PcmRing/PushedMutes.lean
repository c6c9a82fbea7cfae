import PcmRing.AcceptedSlots
import PcmRing.HeardMutes
import PcmRing.PlainPlayout
import PcmRing.SilencedOutputs
import PcmRing.UnitSchedules

/-!
# Mutes that are pushed with their samples

A tagged push publishes its spans before its samples, and a render drains the
mailbox before it takes slots.  At unit rate and without concealment a sample that
its own push muted is silent whenever the render that plays it has received such a
record in its stream.  A render that drained the mailbox before the spans were
published takes the sample all the same, and plays it as it was pushed.
-/

namespace PcmRing

open AtomicProgram TwoLapQueue

variable {F S W : Type}

/-- The mute records that the consumer has popped in the current stream. -/
def Ring.received (ring : Ring F S W) : List Interval :=
  ring.mutes.passed.drop ring.ledger.recordsStart

/-- The accepted slot of `index` lies at `position`, and one of the spans that were
pushed with it covers the position. -/
def PushesMuted (push : Returned (Ring F S W) (ProducerCall F) ProducerResult)
    (index generation position : Nat) : Prop :=
  ∃ input sourceStart spans accepted offset,
    push.call = .pushTagged input generation sourceStart spans ∧
    push.result = .credit (some accepted) ∧ offset < accepted ∧
    index = push.entry.pcm.published.length + offset ∧ position = sourceStart + offset ∧
    ∃ span ∈ spans, span.start ≤ position ∧ position < span.stop

/-- The render plays the slot of `index`: it was taken, and the stream had played
every slot before it and has played it too. -/
def PlaysSlot (render : Returned (Ring F Unit W) ConsumerCall (ConsumerResult F))
    (index : Nat) : Prop :=
  render.exit.ledger.streamStart = render.entry.ledger.streamStart ∧
    index = render.entry.ledger.streamStart + render.entry.consumer.nextIndex ∧
    render.exit.consumer.nextIndex = render.entry.consumer.nextIndex + 1 ∧
    index < render.exit.pcm.passed.length

instance (render : Returned (Ring F Unit W) ConsumerCall (ConsumerResult F)) (index : Nat) :
    Decidable (PlaysSlot render index) :=
  inferInstanceAs (Decidable (_ ∧ _ ∧ _ ∧ _))

/-- Every sample that its own push muted is played as silence. -/
def PushedMutesWin [Binary32 F] (config : RingConfig F Unit W) : Prop :=
  ∀ push ∈ config.returned .producer, ∀ render ∈ config.returned .consumer,
    ∀ index generation position, PushesMuted push index generation position →
      PlaysSlot render index → render.result.Silent

/-- Every render that plays a sample that its own push muted has received a record
over its position. -/
def PushedMutesReceived (config : RingConfig F Unit W) : Prop :=
  ∀ push ∈ config.returned .producer, ∀ render ∈ config.returned .consumer,
    ∀ index generation position, PushesMuted push index generation position →
      PlaysSlot render index →
      ∃ interval ∈ render.exit.received, interval.Covers generation position

/-- The mark does not lie behind the last slot that was played. -/
def ConsumerState.Awaits (state : ConsumerState F Unit W) (mark : Stamp) : Prop :=
  ∀ base ∈ state.sourceBase, mark.generation = base.1 ∧
    base.2 + (state.nextIndex : Int) ≤ mark.source + 1

/-- A step that plays nothing and clears neither the history nor a fault. -/
structure Onward (before after : ConsumerState F Unit W) : Prop where
  plc_eq : after.plc = before.plc
  history_eq : after.muteHistory = before.muteHistory
  clean : after.muteFault = false → before.muteFault = false
  base : ∀ base ∈ before.sourceBase, base ∈ after.sourceBase
  next_eq : after.nextIndex = before.nextIndex

/-- Without concealment the history meets what a received record meets, from the last
slot that was played on. -/
structure Recalls (state : ConsumerState F Unit W) (ring : Ring F Unit W) : Prop where
  unconcealed : state.plc = none
  ordered : state.muteHistory.Ordered
  recalled : state.muteFault = false → ∀ interval ∈ ring.received, ∀ mark,
    state.Awaits mark → interval.Meets mark.support → state.muteHistory.Meets mark.support

section Steps

variable {state other : ConsumerState F Unit W} {ring : Ring F Unit W} {geometry : Geometry}

theorem Onward.awaits {mark : Stamp} (onward : Onward state other)
    (waits : other.Awaits mark) : state.Awaits mark := by
  intro base baseEq
  rw [← onward.next_eq]
  exact waits base (onward.base base baseEq)

theorem Recalls.onward (recalls : Recalls state ring) (onward : Onward state other) :
    Recalls other ring where
  unconcealed := onward.plc_eq.trans recalls.unconcealed
  ordered := onward.history_eq ▸ recalls.ordered
  recalled clean interval member mark waits meets := by
    rw [onward.history_eq]
    exact recalls.recalled (onward.clean clean) interval member mark (onward.awaits waits) meets

theorem Recalls.elsewhere (recalls : Recalls state ring) {after : Ring F Unit W}
    (receivedEq : after.received = ring.received) : Recalls state after :=
  { recalls with recalled := receivedEq ▸ recalls.recalled }

theorem ProducerMoves.received_eq {shape : List (SourceSample F) → List SlotNote → Prop}
    {after : Ring F Unit W} (moves : ProducerMoves geometry shape ring after)
    (mutes : ring.mutes.Sound mailboxQueue) : after.received = ring.received := by
  unfold Ring.received
  rw [moves.popped_eq mutes, moves.recordsStart_eq]

theorem SameQueues.received_eq {after : Ring F Unit W} (same : SameQueues ring after) :
    after.received = ring.received := by
  unfold Ring.received
  rw [same.mutes_eq, same.recordsStart_eq]

/-- A popped record is met by the history, or a fault is latched. -/
theorem Recalls.receive (recalls : Recalls state ring) (interval : Interval) :
    Recalls (state.receive interval) (popRecord geometry interval ring) where
  unconcealed := recalls.unconcealed
  ordered := recalls.ordered.insert interval
  recalled clean heard member mark waits meets := by
    simp only [ConsumerState.receive, Bool.or_eq_false_iff, Bool.not_eq_false'] at clean
    obtain ⟨cleanBefore, inserted⟩ := clean
    refine (History.meets_insert inserted).mpr ?_
    unfold Ring.received at member
    rw [popRecord_passed, List.drop_append] at member
    rcases List.mem_append.mp member with earlier | last
    · exact .inr (recalls.recalled cleanBefore heard earlier mark waits meets)
    · obtain rfl := List.mem_singleton.mp (List.mem_of_mem_drop last)
      exact .inl meets

theorem onward_makeInputSpace (wanted capacity : Nat) :
    Onward state (state.makeInputSpace wanted capacity) := by
  unfold ConsumerState.makeInputSpace
  split <;> exact ⟨rfl, rfl, id, fun _ => id, rfl⟩

theorem onward_padInput [Zero F] (quantum : Nat) : Onward state (state.padInput quantum) := by
  unfold ConsumerState.padInput
  split <;> exact ⟨rfl, rfl, id, fun _ => id, rfl⟩

theorem onward_fence (stamp : Option Stamp) : Onward state (state.fence stamp).2 := by
  have persists (mark : Stamp) : ∀ base ∈ state.sourceBase, base ∈ some (state.baseOf mark) := by
    intro base baseEq
    unfold ConsumerState.baseOf
    rw [Option.mem_def.mp baseEq]
    rfl
  rcases state.fence_cases stamp with
    ⟨-, fenced⟩ | ⟨mark, -, -, fenced⟩ | ⟨mark, -, -, fenced⟩ <;> rw [fenced]
  · exact ⟨rfl, rfl, id, fun _ => id, rfl⟩
  · exact ⟨rfl, rfl, id, persists mark, rfl⟩
  · exact ⟨rfl, rfl, fun latched => Bool.noConfusion latched, persists mark, rfl⟩

theorem onward_acceptSource (gapCapacity : Nat) (slot : SourceSample F) :
    Onward state (state.acceptSource gapCapacity slot).2 := by
  have fenced : Onward state (state.fence slot.stamp).2 := onward_fence slot.stamp
  rcases state.acceptSource_cases gapCapacity slot with
    ⟨gaps, -, -, resultEq⟩ | ⟨-, resultEq⟩ | ⟨-, -, -, resultEq⟩ <;> rw [resultEq] <;>
    exact { fenced with }

section Conversion

variable [Binary32 F] [Binary64 W]

theorem onward_convert (usable : Binary64.isFinite state.ratio = true ∧
      Binary64.le state.ratio (Binary64.ofRat 0) = false) (sized : 0 < geometry.capacity)
    (empty : state.outputPending = 0) {quantum : Nat} (positive : 0 < quantum) :
    Onward state (state.convert (unitConverter (F := F)) geometry quantum).2 := by
  have next : state.nextIndex = state.converterAccepted := by
    unfold ConsumerState.nextIndex
    rw [empty, Nat.sub_zero]
  rcases Nat.eq_zero_or_pos state.inputPending with none | some
  · rw [ConsumerState.convert_unit_empty usable positive none sized]
    exact ⟨rfl, rfl, id, fun _ => id, next.symm⟩
  · rw [ConsumerState.convert_unit usable positive some]
    refine ⟨rfl, rfl, id, fun _ => id, ?_⟩
    have accepted : (state.unitConverted quantum).converterAccepted =
        state.converterAccepted + state.unitCount quantum :=
      ConsumerState.converterAccepted_consumeInput _ _
    change (state.unitConverted quantum).converterAccepted - state.unitCount quantum = _
    omega

end Conversion

end Steps

section Emission

variable [Binary32 F] {line : List (SourceSample F)} {state : ConsumerState F Unit W}

/-- The next output lies where the base puts its slot. -/
theorem InOrder.emittedSupport_eq (ordered : InOrder line state)
    (pending : state.outputPending ≠ 0) {mark : Stamp} (small : mark.source < 2 ^ 64)
    (baseEq : state.sourceBase = some (mark.generation, (mark.source : Int) - state.nextIndex)) :
    state.emittedSupport .ready = some mark.support := by
  unfold ConsumerState.emittedSupport ConsumerState.cachePosition
  rw [if_pos rfl, baseEq]
  change Position.around mark.generation
    (state.cacheSourcePosition + ((mark.source : Int) - state.nextIndex) * frameUnit) = _
  rw [ordered.position pending, ← Int.add_mul, add_sub_cancel]
  exact around_whole mark small

/-- What an emission retires does not lie behind the slot that it plays. -/
theorem InOrder.emittedSupport_low (ordered : InOrder line state)
    (pending : state.outputPending ≠ 0) {position : Position}
    (emitted : state.emittedSupport .ready = some position) :
    ∃ base, state.sourceBase = some (position.generation, base) ∧
      (position.low : Int) = base + state.nextIndex := by
  unfold ConsumerState.emittedSupport ConsumerState.cachePosition at emitted
  rw [if_pos rfl] at emitted
  cases baseEq : state.sourceBase with
  | none =>
      rw [baseEq] at emitted
      cases emitted
  | some base =>
      rw [baseEq] at emitted
      have aroundEq : Position.around base.1
        (state.cacheSourcePosition + base.2 * frameUnit) = some position := emitted
      obtain ⟨generationEq, lowEq, -⟩ := around_eq aroundEq
      refine ⟨base.2, generationEq ▸ rfl, ?_⟩
      rw [ordered.position pending, ← Int.add_mul,
        Int.mul_ediv_cancel _ (by decide : (frameUnit : Int) ≠ 0)] at lowEq
      unfold toU64? at lowEq
      split at lowEq
      · rename_i inside
        have low := Option.some.inj lowEq
        omega
      · cases lowEq

variable [Binary64 W] [Widening F W] {geometry : Geometry} {ring : Ring F Unit W}

/-- Without concealment an emission plays its own support and retires it. -/
theorem emission_plain (plain : geometry.lookahead = 0) (unconcealed : state.plc = none)
    (result : RefillResult) :
    (state.emission geometry result).state =
        (state.popped result).2.retirePosition (state.emittedSupport result) ∧
      ((state.emission geometry result).rendered.1 ≠ 0 →
        result = .ready ∧ state.muteHistory.muted (state.emittedSupport result) = false) := by
  have same : (state.popped result).2.plc = none := by
    unfold ConsumerState.popped
    split <;> exact unconcealed
  have concealed (input : Option F) : (if (state.popped result).2.resetFailed = true then
      (((0 : F), false), (state.popped result).2) else (state.popped result).2.concealed input) =
        (if (state.popped result).2.resetFailed = true then ((0 : F), false)
          else (input.getD 0, input.isSome), (state.popped result).2) := by
    unfold ConsumerState.concealed
    rw [same]
    split <;> rfl
  have delayed : (state.popped result).2.delayPosition geometry.lookahead
      (state.emittedSupport result) = (state.emittedSupport result, (state.popped result).2) := by
    unfold ConsumerState.delayPosition
    exact if_pos plain
  unfold ConsumerState.emission
  dsimp only
  rw [concealed]
  dsimp only
  rw [show (if result = .ready then state.cachePosition else none) =
    state.emittedSupport result from rfl, delayed]
  refine ⟨rfl, fun sounds => ?_⟩
  have unmuted : state.muteHistory.muted (state.emittedSupport result) = false :=
    Bool.eq_false_iff.mpr fun muted => sounds (if_pos muted)
  refine ⟨?_, unmuted⟩
  by_contra stalled
  have nothing : (state.popped result).1 = none := by
    unfold ConsumerState.popped
    rw [if_neg stalled]
  refine sounds ?_
  dsimp only
  rw [unmuted, nothing]
  split
  · rfl
  · split <;> rfl

/-- Playing a slot keeps what later ones need. -/
theorem Recalls.emission (recalls : Recalls state ring) (plain : geometry.lookahead = 0)
    (ordered : state.muteFault = false → InOrder ring.takenLine state) {result : RefillResult}
    (cached : result = .ready → state.outputPending ≠ 0) :
    Recalls (state.emission geometry result).state ring := by
  obtain ⟨stateEq, -⟩ := emission_plain plain recalls.unconcealed result
  rw [stateEq]
  by_cases ready : result = .ready
  · subst ready
    have pending := cached rfl
    refine ⟨recalls.unconcealed, recalls.ordered.retire _, ?_⟩
    intro clean interval member mark waits meets
    have ordered := ordered clean
    have next : (state.popped .ready).2.nextIndex = state.nextIndex + 1 :=
      ordered.nextIndex_nextCached pending
    have waits : ∀ base ∈ state.sourceBase, mark.generation = base.1 ∧
        base.2 + ((state.nextIndex + 1 : Nat) : Int) ≤ mark.source + 1 := next ▸ waits
    have met : state.muteHistory.Meets mark.support := by
      refine recalls.recalled clean interval member mark (fun base baseEq => ?_) meets
      obtain ⟨generationEq, behind⟩ := waits base baseEq
      exact ⟨generationEq, by omega⟩
    change (state.muteHistory.retire (state.emittedSupport .ready)).Meets mark.support
    cases supportEq : state.emittedSupport .ready with
    | none => exact met
    | some position =>
        obtain ⟨base, baseEq, lowEq⟩ := ordered.emittedSupport_low pending supportEq
        obtain ⟨generationEq, behind⟩ := waits _ baseEq
        refine met.retire generationEq.symm ?_
        change position.low ≤ mark.source
        dsimp only at behind
        omega
  · have stalled : (state.popped result).2 = state ∧ state.emittedSupport result = none := by
      unfold ConsumerState.popped ConsumerState.emittedSupport
      rw [if_neg ready, if_neg ready]
      exact ⟨rfl, rfl⟩
    rw [stalled.1, stalled.2]
    exact recalls

/-- What a render that is not silent says of the slot that it plays. -/
def PlaysUnmuted (after : ConsumerState F Unit W) (rendered : Rendered F) : Prop :=
  rendered.1 ≠ 0 → after.muteFault = false ∧ ∀ mark : Stamp, mark.source < 2 ^ 64 →
    ∀ index, after.nextIndex = index + 1 →
      after.sourceBase = some (mark.generation, (mark.source : Int) - index) →
      ¬after.muteHistory.Meets mark.support

theorem Recalls.playsUnmuted (recalls : Recalls state ring) (plain : geometry.lookahead = 0)
    (clean : state.muteFault = false) (ordered : InOrder ring.takenLine state)
    {result : RefillResult} (cached : result = .ready → state.outputPending ≠ 0) :
    PlaysUnmuted (state.emission geometry result).state
      (state.emission geometry result).rendered := by
  obtain ⟨stateEq, answers⟩ := emission_plain plain recalls.unconcealed result
  intro sounds
  obtain ⟨rfl, unmuted⟩ := answers sounds
  have pending := cached rfl
  rw [stateEq]
  refine ⟨clean, fun mark small index next baseEq met => ?_⟩
  have played : (state.popped .ready).2.nextIndex = state.nextIndex + 1 :=
    ordered.nextIndex_nextCached pending
  obtain rfl : state.nextIndex = index := Nat.succ.inj (played.symm.trans next)
  rw [ordered.emittedSupport_eq pending small baseEq] at unmuted
  refine Bool.eq_false_iff.mp unmuted ((History.muted_iff recalls.ordered).mpr ?_)
  exact meets_of_retire met

end Emission

section Kept

variable [Binary32 F] [Binary64 W] [OrderedBinary64 W] [Widening F W] {geometry : Geometry}

omit [Binary32 F] [Binary64 W] [OrderedBinary64 W] [Widening F W] in
/-- Without a lookahead a boundary releases nothing. -/
theorem Accounts.nothing_remaining {slack : Nat} {state : ConsumerState F S W} {ring : Ring F S W}
    {boundary : Finite} (accounts : Accounts geometry slack state ring)
    (plain : geometry.lookahead = 0) (finiteEq : state.finite = some boundary) :
    ConsumerState.remainingLookahead geometry.lookahead boundary = 0 := by
  have released := accounts.released
  rw [finiteEq, Option.bind_some, plain] at released
  rw [plain]
  exact (Nat.add_eq_zero_iff.mp released).2

/-- At unit rate every local step of the consumer keeps the caches in order and what
the history recalls. -/
theorem recallsKept (plain : geometry.lookahead = 0) (sized : 0 < geometry.capacity)
    (reserved : geometry.capacity < geometry.gapCapacity) (targetLt : geometry.target < 2 ^ 32)
    (nominal : Bounded (nominalRatio W geometry.outputRateHz geometry.inputRateHz))
    {shape : List (SourceSample F) → List SlotNote → Prop} :
    SteeredInvariant unitConverter geometry shape
      (fun state (ring : Ring F Unit W) =>
        (UnitHolds state ring ∧ RatioSet state.ratio) ∧ Recalls state ring)
      fun state ring => (UnitHolds state ring ∧ Bounded state.ratio) ∧ Recalls state ring := by
  have unit : SteeredInvariant unitConverter geometry shape
      (fun state (ring : Ring F Unit W) => UnitHolds state ring ∧ RatioSet state.ratio)
      fun state ring => UnitHolds state ring ∧ Bounded state.ratio :=
    unitKept sized reserved targetLt nominal
  exact
    { published := fun accounts moves holds =>
        ⟨unit.published accounts moves holds.1,
          holds.2.elsewhere (moves.received_eq accounts.mutes)⟩
      same := fun queues holds =>
        ⟨unit.same queues holds.1, holds.2.elsewhere queues.received_eq⟩
      capture := fun accounts pending streaming holds =>
        ⟨unit.capture accounts pending streaming holds.1, { holds.2 with }⟩
      receive := fun accounts unreadEq holds =>
        ⟨unit.receive accounts unreadEq holds.1, holds.2.receive _⟩
      flags := fun quiet primed holds =>
        ⟨unit.flags quiet primed holds.1, { holds.2 with }⟩
      space := fun wanted accounts refilling holds =>
        ⟨unit.space wanted accounts refilling holds.1,
          holds.2.onward (onward_makeInputSpace _ _)⟩
      take := fun accounts refilling unpadded fits unreadEq holds =>
        ⟨unit.take accounts refilling unpadded fits unreadEq holds.1,
          (holds.2.onward (onward_acceptSource _ _)).elsewhere rfl⟩
      pad := fun accounts refilling exhausted holds =>
        ⟨unit.pad accounts refilling exhausted holds.1, holds.2.onward (onward_padInput _)⟩
      query := fun accounts refilling holds =>
        ⟨unit.query accounts refilling holds.1, { holds.2 with }⟩
      steer := fun smoothed refilling holds =>
        ⟨unit.steer smoothed refilling holds.1, { holds.2 with }⟩
      nominal := fun refilling holds =>
        ⟨unit.nominal refilling holds.1, { holds.2 with }⟩
      keep := fun refilling nonzero holds =>
        ⟨unit.keep refilling nonzero holds.1, holds.2⟩
      setPublished := fun accounts moves holds =>
        ⟨unit.setPublished accounts moves holds.1,
          holds.2.elsewhere (moves.received_eq accounts.mutes)⟩
      setSame := fun queues holds =>
        ⟨unit.setSame queues holds.1, holds.2.elsewhere queues.received_eq⟩
      convert := fun accounts refilling holds =>
        ⟨unit.convert accounts refilling holds.1, holds.2.onward (onward_convert
          holds.1.2.usable sized refilling.2 (Nat.lt_min.mpr ⟨sized, by decide⟩))⟩
      emit := fun accounts cached emits holds =>
        ⟨unit.emit accounts cached emits holds.1, holds.2.emission plain
          (fun clean => holds.1.1.ordered (holds.1.1.whole clean)) cached⟩
      release := fun accounts finiteEq remaining _ =>
        (remaining (accounts.nothing_remaining plain finiteEq)).elim
      reset := fun quiet holds completed => by
        refine ⟨unit.reset quiet holds.1 completed,
          congrArg (Option.map Plc.reset) holds.2.unconcealed, History.ordered_clear,
          fun _ interval member => ?_⟩
        unfold Ring.received at member
        rw [completed.records_eq, List.drop_length] at member
        cases member }

theorem recallsAnswers (plain : geometry.lookahead = 0) :
    SteeredInvariant.Answers unitConverter geometry
      (fun state (ring : Ring F Unit W) =>
        (UnitHolds state ring ∧ RatioSet state.ratio) ∧ Recalls state ring)
      PlaysUnmuted fun _ _ => True where
  silent _ _ sounds := (sounds rfl).elim
  emit _ cached emits holds := holds.2.playsUnmuted plain emits.1
    (holds.1.1.ordered (holds.1.1.whole emits.1)) cached
  release accounts finiteEq remaining _ :=
    (remaining (accounts.nothing_remaining plain finiteEq)).elim
  retire _ _ _ := trivial

end Kept

section Runs

variable [Binary32 F] [Binary64 W] [Widening F W] {geometry : Geometry} {settings : Settings}
  {index generation position : Nat}

/-- In a run whose gates all met a current epoch a slot of a tagged push carries the
position that it was pushed for. -/
theorem stamp_of_pushesMuted {adapter : Adapter F W S} {config : RingConfig F S W}
    (reached : RingReachable adapter settings rendersOnly geometry config)
    (current : config.memory.ledger.gatesCurrent = true)
    {push : Returned (Ring F S W) (ProducerCall F) ProducerResult}
    (member : push ∈ config.returned .producer)
    (pushes : PushesMuted push index generation position) :
    position < 2 ^ 64 ∧ ∃ slot, config.memory.pcm.published[index]? = some slot ∧
      slot.stamp = some ⟨generation, position⟩ := by
  obtain ⟨input, sourceStart, spans, accepted, offset, callEq, resultEq, inside, rfl, rfl, -⟩ :=
    pushes
  obtain ⟨post, passed⟩ := producerPost_of_returned reached member
  rw [callEq, resultEq] at post
  obtain ⟨slots, intervals, appends, rfl, -, stamped, -, fits⟩ := post
  refine ⟨Nat.lt_of_le_of_lt (Nat.add_le_add_left inside.le _)
    (fits (Nat.lt_of_le_of_lt (Nat.zero_le _) inside)), slots[offset], ?_,
    stamped id (passed current) offset _ (List.getElem?_eq_getElem inside)⟩
  refine getElem?_of_extends (published_of_returned reached member) ?_
  rw [appends.published_eq, List.getElem?_append_right (Nat.le_add_right _ _),
    Nat.add_sub_cancel_left]
  exact List.getElem?_eq_getElem inside

/-- A slot is published behind a record over each position that its push muted. -/
theorem record_ahead_of_pushesMuted {adapter : Adapter F W S} {config : RingConfig F S W}
    (reached : RingReachable adapter settings rendersOnly geometry config)
    {push : Returned (Ring F S W) (ProducerCall F) ProducerResult}
    (member : push ∈ config.returned .producer)
    (pushes : PushesMuted push index generation position) {note : SlotNote}
    (noteAt : push.exit.ledger.slots[index]? = some note) :
    ∃ record < note.lead, ∃ interval, push.exit.mutes.published[record]? = some interval ∧
      interval.Covers generation position := by
  obtain ⟨input, sourceStart, spans, accepted, offset, callEq, resultEq, inside, rfl, rfl, span,
    spanMember, low, high⟩ := pushes
  obtain ⟨post, -⟩ := producerPost_of_returned reached member
  rw [callEq, resultEq] at post
  obtain ⟨slots, intervals, -, -, -, -, ahead, -⟩ := post
  exact ahead _ note (Nat.le_add_right _ _) noteAt span spanMember _ low high
    (Nat.add_lt_add_left inside _)

variable [OrderedBinary64 W]

end Runs

/-- A render is about to drain the mailbox when the first push begins, and a second
burst reuses the generation and the positions of the first one. -/
def overlappedSchedule : List (Choice (Party.Call ℚ)) :=
  [.invoke .consumer .render, .advance .consumer 3] ++
    uninterrupted .producer (.pushTagged [1 / 2, 1 / 4] 1 0 [⟨0, 1⟩]) ++
    [.complete .consumer 2000] ++ uninterrupted .producer .finish ++
    uninterrupted .consumer .render ++ uninterrupted .consumer .render ++
    uninterrupted .producer (.pushTagged [1 / 8] 1 0 [⟨0, 1⟩]) ++
    uninterrupted .consumer .render

/-- The record of either push. -/
def firstRecord : Interval :=
  ⟨1, ⟨0, 1⟩, Nat.zero_lt_one⟩

/-- A render has drained the mailbox when the push begins, and takes its sample. -/
def lateRecordSchedule : List (Choice (Party.Call ℚ)) :=
  [.invoke .consumer .render, .advance .consumer 4] ++
    uninterrupted .producer (.pushTagged [1 / 2] 1 0 [⟨0, 1⟩]) ++ [.complete .consumer 2000]

end PcmRing
