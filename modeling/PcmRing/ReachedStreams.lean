import PcmRing.PlainRuns

/-!
# Streams of reached rings

Calls that nothing interrupts are one schedule of the two threads.  What holds
along every schedule therefore holds behind them, and any ring that they reach
without a latched fault and without a boundary at hand plays a plain queue, as
long as one base explains the stamps of its stream.
-/

namespace PcmRing

open AtomicProgram TwoLapQueue

variable {F S W : Type}

/-- A refill neither begins nor ends a stream. -/
structure SameFlags (before after : ConsumerState F S W) : Prop where
  primed_eq : after.primed = before.primed
  quiet_eq : after.quiet = before.quiet

namespace SameFlags

theorem refl (state : ConsumerState F S W) : SameFlags state state :=
  ⟨rfl, rfl⟩

theorem trans {first middle last : ConsumerState F S W} (before : SameFlags first middle)
    (after : SameFlags middle last) : SameFlags first last :=
  ⟨after.primed_eq.trans before.primed_eq, after.quiet_eq.trans before.quiet_eq⟩

end SameFlags

namespace ConsumerState

variable (state : ConsumerState F S W)

theorem acceptSource_flags (gapCapacity : Nat) (slot : SourceSample F) :
    SameFlags state (state.acceptSource gapCapacity slot).2 := by
  have fenced : SameFlags state (state.fence slot.stamp).2 := by
    rcases state.fence_cases slot.stamp with
      ⟨-, fenced⟩ | ⟨mark, -, -, fenced⟩ | ⟨mark, -, -, fenced⟩ <;> rw [fenced] <;>
      exact ⟨rfl, rfl⟩
  apply fenced.trans
  rcases state.acceptSource_cases gapCapacity slot with
    ⟨gaps, -, -, accepted⟩ | ⟨-, accepted⟩ | ⟨-, -, -, accepted⟩ <;> rw [accepted] <;>
    exact ⟨rfl, rfl⟩

theorem takeAll_flags (gapCapacity wanted : Nat) (slots : List (SourceSample F)) :
    SameFlags state (state.takeAll gapCapacity wanted slots).1.2 := by
  induction wanted generalizing state slots with
  | zero => exact .refl state
  | succ wanted ih =>
      cases slots with
      | nil => exact .refl state
      | cons slot rest =>
          unfold takeAll
          have one := acceptSource_flags state gapCapacity slot
          split
          · exact .refl state
          · dsimp only
            split
            · exact one.trans (ih _ rest)
            · exact one

variable [Binary32 F] [Binary64 W] (adapter : Adapter F W S) (geometry : Geometry)

omit [Binary32 F] in
theorem converted_flags (quantum readable : Nat) :
    SameFlags state (state.converted adapter geometry quantum readable).2 := by
  unfold converted
  split
  · exact ⟨rfl, rfl⟩
  · rename_i queued converter _
    generalize occupancyOf readable state.inputPending queued = occupancy
    have steered : SameFlags state
        (({ state with converter := converter } : ConsumerState F S W).steered geometry
          occupancy) := by
      unfold ConsumerState.steered
      split
      · exact ⟨rfl, rfl⟩
      · split <;> exact ⟨rfl, rfl⟩
    apply steered.trans
    have ran := convert_cases (({ state with converter := converter } :
      ConsumerState F S W).steered geometry occupancy) adapter geometry quantum
    generalize (({ state with converter := converter } : ConsumerState F S W).steered geometry
      occupancy).convert adapter geometry quantum = converting at ran ⊢
    obtain ⟨result, converted⟩ := converting
    cases ran <;> exact ⟨rfl, rfl⟩

theorem refilled_flags (slots : List (SourceSample F)) :
    SameFlags state (state.refilled adapter geometry slots).1.2 := by
  unfold refilled
  split
  · exact .refl state
  split
  · exact .refl state
  dsimp only
  generalize desiredInput geometry (min geometry.capacity converterQuantum) state -
    state.inputPending = wanted
  have spaced : SameFlags state (state.makeInputSpace wanted geometry.capacity) := by
    unfold makeInputSpace
    split <;> exact ⟨rfl, rfl⟩
  have taken := spaced.trans (takeAll_flags (state.makeInputSpace wanted geometry.capacity)
    geometry.gapCapacity wanted slots)
  generalize (state.makeInputSpace wanted geometry.capacity).takeAll geometry.gapCapacity wanted
    slots = taking at taken ⊢
  split
  · have padded : SameFlags taking.1.2
        (taking.1.2.padInput (min geometry.capacity converterQuantum)) := by
      unfold padInput
      split <;> exact ⟨rfl, rfl⟩
    have kept := taken.trans padded
    split
    · exact kept
    · exact kept.trans (converted_flags _ adapter geometry _ _)
  · exact taken

theorem refilledTail_flags (limit : Nat) (result : RefillResult) (slots : List (SourceSample F)) :
    SameFlags state (state.refilledTail adapter geometry limit result slots).1.2 := by
  induction limit generalizing state result slots with
  | zero => exact .refl state
  | succ limit ih =>
      unfold refilledTail
      split
      · exact (refilled_flags _ adapter geometry slots).trans (ih _ _ _)
      · exact .refl state

end ConsumerState

/-- Nothing was taken before the stream was primed, and none is primed while the
consumer is silent behind a completed one. -/
structure ConsumerState.Settled (state : ConsumerState F S W) : Prop where
  working : state.resetFailed = false
  waiting : state.primed = false → state.sourceTaken = 0
  unprimed : state.quiet = true → state.primed = false

/-- How a render leaves the flags. -/
def RenderExit.Settles : RenderExit F S W → Prop
  | .silent _ state _ => state.Settled
  | .completed .. => True
  | .released _ state _ | .emitted _ state _ =>
      state.resetFailed = false ∧ state.primed = true ∧ state.quiet = false

namespace ConsumerState

section Settling

variable [Binary32 F] [Binary64 W] {adapter : Adapter F W S} {geometry : Geometry}
  {state : ConsumerState F S W} {slots : List (SourceSample F)}

omit [Binary32 F] [Binary64 W] in
theorem settled_of_primed (working : state.resetFailed = false) (primed : state.primed = true)
    (awake : state.quiet = false) : state.Settled where
  working := working
  waiting unprimed := Bool.noConfusion (primed.symm.trans unprimed)
  unprimed quiet := Bool.noConfusion (awake.symm.trans quiet)

omit [Binary32 F] [Binary64 W] in
theorem drainExit_settles {boundary : Finite} (working : state.resetFailed = false)
    (primed : state.primed = true) (awake : state.quiet = false) :
    (state.drainExit geometry boundary slots).Settles := by
  unfold drainExit
  split
  · exact ⟨working, primed, awake⟩
  · trivial

theorem outputExit_settles (positive : 0 < geometry.capacity) (working : state.resetFailed = false)
    (primed : state.primed = true) (awake : state.quiet = false) :
    (state.outputExit adapter geometry slots).Settles := by
  have keeps : RefillKeeps adapter geometry fun (_ : ConsumerState F S W) _ => True := by
    constructor <;> intros <;> trivial
  have refilled := @refilled_refilled _ _ _ _ _ adapter geometry _ state slots keeps positive
    trivial
  have flags := refilled_flags state adapter geometry slots
  unfold outputExit
  dsimp only
  generalize state.refilled adapter geometry slots = refill at refilled flags ⊢
  split
  · rename_i boundary _
    have tailed := refilledTail_refilled keeps positive geometry.finiteRefillLimit refilled
    have tailFlags := flags.trans (refilledTail_flags refill.1.2 adapter geometry
      geometry.finiteRefillLimit refill.1.1 refill.2)
    generalize refill.1.2.refilledTail adapter geometry geometry.finiteRefillLimit refill.1.1
      refill.2 = tail at tailed tailFlags ⊢
    have working := tailed.resetFailed_eq.trans working
    have primed := tailFlags.primed_eq.trans primed
    have awake := tailFlags.quiet_eq.trans awake
    unfold tailExit
    split
    · trivial
    split
    · exact drainExit_settles working primed awake
    split
    · exact settled_of_primed working primed awake
    · exact ⟨working, primed, awake⟩
  · have working := refilled.resetFailed_eq.trans working
    have primed := flags.primed_eq.trans primed
    have awake := flags.quiet_eq.trans awake
    split
    · exact settled_of_primed working primed awake
    · exact ⟨working, primed, awake⟩

theorem primedExit_settles (positive : 0 < geometry.capacity) (working : state.resetFailed = false)
    (primed : state.primed = true) (awake : state.quiet = false) :
    (state.primedExit adapter geometry slots).Settles := by
  unfold primedExit
  split
  · split
    · exact drainExit_settles working primed awake
    · exact outputExit_settles positive working primed awake
  · exact outputExit_settles positive working primed awake

theorem awakeExit_settles (positive : 0 < geometry.capacity) (settled : state.Settled)
    (awake : state.quiet = false) : (state.awakeExit adapter geometry slots).Settles := by
  unfold awakeExit
  split
  · rename_i primed
    rcases primed with primed | failed
    · exact primedExit_settles positive settled.working primed awake
    · exact Bool.noConfusion (settled.working.symm.trans failed)
  split
  · exact settled
  · exact primedExit_settles positive settled.working rfl awake

theorem readyExit_settles (positive : 0 < geometry.capacity) (settled : state.Settled) :
    (state.readyExit adapter geometry slots).Settles := by
  unfold readyExit
  split
  · exact settled
  split
  · split
    · exact settled
    · exact awakeExit_settles positive
        ⟨settled.working, settled.waiting, fun quiet => Bool.noConfusion quiet⟩ rfl
  · rename_i awake
    exact awakeExit_settles positive settled (Bool.eq_false_iff.mpr awake)

end Settling

end ConsumerState

namespace RingView

variable [Binary32 F] [Binary64 W] [Widening F W] {geometry : Geometry} {view : RingView F Unit W}

omit [Binary32 F] [Binary64 W] [Widening F W] in
theorem started_settled (settled : view.consumer.Settled) : view.started.Settled := by
  obtain ⟨history, fault, receivedEq⟩ := receiveAll_cases view.records
    (if FinishPending view.finish ∧ view.consumer.finite.isNone = true then
      view.consumer.capture view.finish view.slots.length else view.consumer)
  unfold RingView.started
  dsimp only
  rw [receivedEq]
  split
  · exact ⟨settled.working, settled.waiting, fun quiet => Bool.noConfusion quiet⟩
  · exact ⟨settled.working, settled.waiting, settled.unprimed⟩

theorem settled_perform (positive : 0 < geometry.capacity) (settled : view.consumer.Settled)
    (call : RingCall F) : (view.perform unitConverter geometry call).2.consumer.Settled := by
  obtain ⟨party, call⟩ := call
  cases party with
  | producer =>
      obtain ⟨consumer, -⟩ : view.Grows (view.produce geometry call).2 :=
        RingView.grows_produce call
      change (view.produce geometry call).2.consumer.Settled
      exact consumer ▸ settled
  | consumer =>
      cases call with
      | reset => exact ⟨rfl, fun _ => rfl, fun _ => rfl⟩
      | render =>
          have settles : (view.exit unitConverter geometry).Settles :=
            ConsumerState.readyExit_settles positive (started_settled settled)
          change (view.render unitConverter geometry).2.consumer.Settled
          rw [RingView.render_eq_close]
          generalize view.exit unitConverter geometry = exit at settles ⊢
          cases exit with
          | silent slots state errored => exact settles
          | completed slots state boundary failed => exact ⟨rfl, fun _ => rfl, fun _ => rfl⟩
          | released slots state boundary =>
              obtain ⟨working, primed, awake⟩ := settles
              obtain ⟨plc, releaseEq⟩ := release_cases geometry state boundary
              change (state.release geometry boundary).2.Settled
              rw [releaseEq]
              exact ConsumerState.settled_of_primed working primed awake
          | emitted slots state result =>
              obtain ⟨working, primed, awake⟩ := settles
              obtain ⟨plc, positions, position, history, emissionEq⟩ :=
                state.emission_state geometry result
              change (state.emission geometry result).state.Settled
              rw [emissionEq]
              have popped : (state.popped result).2.resetFailed = state.resetFailed ∧
                  (state.popped result).2.primed = state.primed ∧
                  (state.popped result).2.quiet = state.quiet := by
                unfold ConsumerState.popped
                split <;> exact ⟨rfl, rfl, rfl⟩
              exact ConsumerState.settled_of_primed (popped.1.trans working)
                (popped.2.1.trans primed) (popped.2.2.trans awake)

theorem settled_performAll (positive : 0 < geometry.capacity) (settled : view.consumer.Settled)
    (calls : List (RingCall F)) :
    (view.performAll unitConverter geometry calls).2.consumer.Settled := by
  apply @performAll_keeps _ _ _ _ _ _ _ _ _ (fun view => view.consumer.Settled) _ calls settled
  exact fun _ call settled => settled_perform positive settled call

end RingView

section Schedules

variable [Binary32 F] [Binary64 W] [Widening F W] {adapter : Adapter F W S} {geometry : Geometry}
  {allowed : (party : Party) → party.Call F → Prop} {ring : Ring F S W}

/-- Both threads are between two calls again behind every run of calls. -/
theorem reachable_of_performAll {config : RingConfig F S W}
    (reached : Reachable (body adapter geometry) (exec geometry) allowed ring config)
    (idle : ∀ party, config.thread party = .idle) (calls : List (RingCall F))
    (admitted : ∀ call ∈ calls, allowed call.1 call.2) :
    ∃ last, Reachable (body adapter geometry) (exec geometry) allowed ring last ∧
      last.memory = (config.memory.performAll adapter geometry calls).2 ∧
      ∀ party, last.thread party = .idle := by
  induction calls generalizing config with
  | nil => exact ⟨config, reached, rfl, idle⟩
  | cons call rest ih =>
      obtain ⟨next, reachedNext, memoryEq, idleNext, others⟩ :=
        reachable_of_call (admitted call List.mem_cons_self) reached (idle call.1)
      have resting : ∀ party, next.thread party = .idle := by
        intro party
        by_cases same : party = call.1
        · exact same ▸ idleNext
        · exact (others party same).trans (idle party)
      obtain ⟨last, reachedLast, lastEq, idleLast⟩ := ih reachedNext resting fun later member =>
        admitted later (List.mem_cons_of_mem _ member)
      refine ⟨last, reachedLast, ?_, idleLast⟩
      rw [lastEq, memoryEq]
      rfl

/-- Calls that nothing interrupts answer on a created ring as they do on two bounded
queues without cursors, and they are one of the schedules of the two threads. -/
theorem uninterrupted_calls_refine {settings : Settings}
    (created : Ring.create adapter settings = .ok (geometry, ring)) (calls : List (RingCall F)) :
    (ring.view geometry).slots = [] ∧ (ring.view geometry).records = [] ∧
      ∃ config, RingReachable adapter settings (fun _ _ => True) geometry config ∧
        (∀ party, config.thread party = .idle) ∧
        config.memory = (ring.performAll adapter geometry calls).2 ∧
        ((ring.performAll adapter geometry calls).1, config.memory.view geometry) =
          (ring.view geometry).performAll adapter geometry calls := by
  obtain ⟨config, reached, memoryEq, idle⟩ := @reachable_of_performAll _ _ _ _ _ _ adapter geometry
    (fun _ _ => True) ring _ .refl (fun _ => rfl) calls fun _ _ => trivial
  have viewed := (performAll_view adapter (producerHolds_created created) calls).2
  obtain ⟨-, outputDelay, queued, converter, -, initial⟩ := create_cases created
  have empty : (ring.view geometry).slots = [] ∧ (ring.view geometry).records = [] := by
    subst initial
    dsimp only [Ring.view, Ring.initial]
    exact ⟨unread_empty _, unread_empty _⟩
  refine ⟨empty.1, empty.2, config, ⟨ring, created, reached⟩, idle, memoryEq, ?_⟩
  rw [memoryEq]
  exact viewed

end Schedules

/-- A sample and a gap, and one render more than that. -/
def shortCalls : List (RingCall ℚ) :=
  [⟨.producer, .pushTagged [1 / 2, 1 / 4] 0 0 [⟨0, 1⟩]⟩, ⟨.producer, .gap 1⟩,
    ⟨.consumer, .render⟩, ⟨.consumer, .render⟩, ⟨.consumer, .render⟩, ⟨.consumer, .render⟩]

/-- The two queues play a muted sample, a sample, a gap and a shortfall. -/
theorem uninterrupted_calls_refine_shortCalls : ∃ (geometry : Geometry) (ring : Ring ℚ Unit ℚ)
    (config : RingConfig ℚ Unit ℚ),
    Ring.create unitConverter smallSettings = .ok (geometry, ring) ∧
      RingReachable unitConverter smallSettings (fun _ _ => True) geometry config ∧
      config.memory = (ring.performAll unitConverter geometry shortCalls).2 ∧
      ((ring.performAll unitConverter geometry shortCalls).1, config.memory.view geometry) =
        (ring.view geometry).performAll unitConverter geometry shortCalls ∧
      ((ring.view geometry).performAll unitConverter geometry shortCalls).1.filterMap
          RingReply.output =
        [(0, true, false), (1 / 4, true, false), (0, false, false), (0, false, false)] := by
  obtain ⟨geometry, ring, created, outputs⟩ := exists_created (unitConverter (F := ℚ) (W := ℚ))
    smallSettings (fun geometry ring => decide
      (((ring.view geometry).performAll unitConverter geometry shortCalls).1.filterMap
          RingReply.output =
        [(0, true, false), (1 / 4, true, false), (0, false, false), (0, false, false)]))
    (by decide +kernel)
  obtain ⟨-, -, config, reached, -, memoryEq, refined⟩ :=
    uninterrupted_calls_refine created shortCalls
  exact ⟨geometry, ring, config, created, reached, memoryEq, refined, of_decide_eq_true outputs⟩

/-- What a ring between two calls holds, as a queue. -/
def Ring.queue [Binary32 F] (log : StreamLog) (ring : Ring F Unit W) : PlainQueue F where
  line := ring.streamLine
  log := log
  emitted := ring.consumer.nextIndex
  primed := ring.consumer.primed
  quiet := ring.consumer.quiet
  released := 0
  plc := ring.consumer.plc
  fed := ring.ledger.fed
  missing := ring.counters .missing

section Reached

variable [Binary32 F] [Binary64 W] [OrderedBinary64 W] [Widening F W] {geometry : Geometry}

omit [Widening F W] in
theorem unitHolds_created {settings : Settings} {ring : Ring F Unit W} {adapter : Adapter F W Unit}
    (created : Ring.create adapter settings = .ok (geometry, ring)) :
    UnitHolds ring.consumer ring ∧ RatioSet ring.consumer.ratio := by
  have zeroEq := value_int (W := W) 0 (by decide)
  obtain ⟨-, outputDelay, queued, converter, rfl, rfl⟩ := create_cases created
  refine ⟨⟨fun _ => ?_, fun _ => rfl, rfl⟩, .inl (by exact_mod_cast zeroEq)⟩
  exact .fresh _ ⟨rfl, rfl, rfl, rfl, rfl⟩ rfl rfl rfl

/-- Behind every run of calls at unit rate the caches hold the stream in order,
unless a mute fault is latched. -/
theorem unitHolds_performAll {settings : Settings} {ring : Ring F Unit W}
    (created : Ring.create unitConverter settings = .ok (geometry, ring))
    (calls : List (RingCall F)) :
    let reached := (ring.performAll unitConverter geometry calls).2
    DrainInv geometry reached ∧ UnitHolds reached.consumer reached ∧
      RatioSet reached.consumer.ratio := by
  intro reached
  have unit : geometry.AtUnitRate W := atUnitRate_created created
  obtain ⟨config, schedule, memoryEq, idle⟩ := @reachable_of_performAll _ _ _ _ _ _
    unitConverter geometry (fun _ _ => True) ring _ .refl (fun _ => rfl) calls fun _ _ => trivial
  have holds := invariant_of_idle (unitKept unit.sized unit.reserved unit.targetLt unit.nominal)
    created (unitHolds_created created) schedule (idle .consumer)
  rw [memoryEq] at holds
  exact holds

/-- A reached ring without a fault and without a boundary at hand plays the queue
of its stream. -/
theorem plays_reached {settings : Settings} {ring : Ring F Unit W}
    (created : Ring.create unitConverter settings = .ok (geometry, ring))
    (calls : List (RingCall F)) :
    let reached := (ring.performAll unitConverter geometry calls).2
    let log := StreamLog.performAll unitConverter geometry calls (ring.view geometry) ⟨[], []⟩
    reached.consumer.muteFault = false → reached.consumer.finite = none →
      Contiguous reached.streamLine →
        Plays geometry (reached.queue log) (reached.view geometry) := by
  intro reached log clean streaming contiguous
  have advances : Adapter.Advances _ _ := unitConverter_advances (F := F) (W := W)
  have positive : 0 < geometry.capacity := (atUnitRate_created created).sized
  obtain ⟨⟨accounts, -⟩, holds, ratio⟩ := unitHolds_performAll created calls
  obtain ⟨-, viewed⟩ := performAll_view unitConverter (producerHolds_created created) calls
  have viewEq : ((ring.view geometry).performAll unitConverter geometry calls).2 =
      reached.view geometry := (congrArg Prod.snd viewed).symm
  have hears : Hears geometry (fun _ => 0) ⟨[], []⟩ (ring.view geometry) := hears_created created
  have hears := hears.performAll advances positive calls
  have heeds : Heeds ⟨[], []⟩ (ring.view geometry) := heeds_created created
  have heeds : Heeds log ((ring.view geometry).performAll unitConverter geometry calls).2 :=
    heeds.performAll positive calls
  have settled : (ring.view geometry).consumer.Settled := by
    obtain ⟨-, outputDelay, queued, converter, rfl, rfl⟩ := create_cases created
    exact ⟨rfl, fun _ => rfl, fun quiet => Bool.noConfusion quiet⟩
  have settled := RingView.settled_performAll positive settled calls
  rw [viewEq] at hears heeds settled
  have unpadded : reached.consumer.inputPadding = false := by
    refine Bool.eq_false_iff.mpr fun padded => ?_
    have captured := (accounts.padded padded).2.1
    rw [streaming] at captured
    cases captured
  have whole : reached.pcm.passed.length =
      reached.ledger.streamStart + reached.consumer.sourceTaken :=
    holds.whole clean
  have takenLength : reached.takenLine.length = reached.consumer.sourceTaken :=
    takenLine_length whole
  have lineEq := streamLine_eq accounts
  have ordered : InOrder reached.streamLine reached.consumer := by
    rw [lineEq]
    exact (holds.ordered whole).extend unpadded _
  have sum := ordered.sum unpadded
  have pending := ordered.pending_le
  constructor
  · constructor
    · exact ordered
    · constructor
      · change reached.streamLine.length = _
        rw [lineEq, List.length_append, takenLength]
        rfl
      · change reached.streamLine.drop reached.consumer.sourceTaken = _
        rw [lineEq, ← takenLength, List.drop_left]
        rfl
    · exact contiguous
    · exact holds.working
    · exact ratio
    · exact clean
    · exact fun padded => Bool.noConfusion (unpadded.symm.trans padded)
    · intro boundary member
      have member : boundary ∈ reached.consumer.finite := member
      rw [streaming] at member
      cases member
  · exact hears
  · exact heeds
  · rfl
  · change reached.consumer.nextIndex ≤ reached.streamLine.length
    have fits := ordered.classified.taken_le
    unfold ConsumerState.nextIndex
    omega
  · rfl
  · rfl
  · rfl
  · rfl
  · rfl
  · exact settled.waiting
  · exact settled.unprimed
  · intro captured
    have captured : reached.consumer.finite.isSome = true := captured
    rw [streaming] at captured
    cases captured
  · exact fun _ => rfl
  · intro boundary member
    have member : boundary ∈ reached.consumer.finite := member
    rw [streaming] at member
    cases member

end Reached

end PcmRing
