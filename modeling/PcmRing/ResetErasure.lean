import PcmRing.AtomicExits
import PcmRing.ConsumerInvariants
import PcmRing.MatchedRings
import PcmRing.MuteHistory

/-!
# A stream reset erases history

Two rings of the same settings that each completed a stream reset answer every
common sequence of calls alike, whatever went through them before.
-/

namespace PcmRing

open AtomicProgram TwoLapQueue

variable {F S W : Type}

namespace ConsumerState

/-- What is reserved once: the concealment buffers and the mute history. -/
def sizes (state : ConsumerState F S W) : Option (List Nat) × Nat :=
  (state.plc.map Plc.scale, state.muteHistory.capacity)

variable {state : ConsumerState F S W}

theorem sizes_receive (interval : Interval) : (state.receive interval).sizes = state.sizes := by
  unfold receive sizes History.insert
  dsimp only
  split <;> rfl

theorem sizes_acceptSource (gapCapacity : Nat) (slot : SourceSample F) :
    (state.acceptSource gapCapacity slot).2.sizes = state.sizes := by
  have fenced : (state.fence slot.stamp).2.sizes = state.sizes := by
    rcases state.fence_cases slot.stamp with
      ⟨_, fenced⟩ | ⟨mark, _, _, fenced⟩ | ⟨mark, _, _, fenced⟩ <;> rw [fenced] <;> rfl
  rcases state.acceptSource_cases gapCapacity slot with
    ⟨gaps, _, _, accepted⟩ | ⟨_, accepted⟩ | ⟨_, _, _, accepted⟩ <;> rw [accepted] <;>
    exact fenced

theorem Converts.sizes {geometry : Geometry} {quantum : Nat} {result : RefillResult}
    {converted : ConsumerState F S W} (ran : Converts geometry quantum state result converted) :
    converted.sizes = state.sizes := by
  cases ran <;> rfl

variable [Binary32 F]

theorem sizes_popped (result : RefillResult) :
    (state.popped result).2.sizes = state.sizes := by
  unfold popped
  split <;> rfl

theorem sizes_release (geometry : Geometry) (boundary : Finite) :
    (state.release geometry boundary).2.sizes = state.sizes := by
  unfold release drainLookahead sizes retirePosition History.retire
  dsimp only
  split
  · rename_i plc plcEq
    split <;> rw [plcEq] <;> rfl
  · rename_i plcEq
    split <;> rw [plcEq]

theorem sizes_reset [Binary64 W] (adapter : Adapter F W S) (quiet : Bool) :
    ({ (state.reset adapter).2 with quiet := quiet } : ConsumerState F S W).sizes =
      state.sizes := by
  unfold reset sizes History.clear
  cases state.plc <;> rfl

variable [Binary64 W] [Widening F W]

theorem sizes_concealed (input : Option F) :
    (state.concealed input).2.sizes = state.sizes := by
  unfold concealed
  split
  · rename_i plc plcEq
    simp only [sizes, plcEq, Option.map_some, Plc.process_scale]
  · rfl

theorem sizes_emission (geometry : Geometry) (result : RefillResult) :
    (state.emission geometry result).state.sizes = state.sizes := by
  have delayed (position : Option Position) (state : ConsumerState F S W) :
      (state.delayPosition geometry.lookahead position).2.sizes = state.sizes := by
    unfold delayPosition
    split <;> rfl
  have retired (position : Option Position) (state : ConsumerState F S W) :
      (state.retirePosition position).sizes = state.sizes := by
    unfold retirePosition History.retire
    split <;> rfl
  unfold emission
  dsimp only
  rw [retired, delayed]
  split
  · exact sizes_popped result
  · rw [sizes_concealed, sizes_popped]

end ConsumerState

section Rings

variable [Binary32 F] [Binary64 W] {adapter : Adapter F W S} {geometry : Geometry}

/-- A successful reset restores the fixed state of the converter. -/
theorem converter_reset {fresh : S} {state : ConsumerState F S W}
    (restores : ∀ handle after, adapter.converterReset handle = (some (), after) → after = fresh)
    (succeeds : (state.reset adapter).1 = true) :
    (state.reset adapter).2.converter = fresh := by
  obtain ⟨answer, answered⟩ := Option.isSome_iff_exists.mp succeeds
  exact restores state.converter _ (Prod.ext answered rfl)

theorem ConsumerState.resets_alike {state other : ConsumerState F S W}
    (sizes : other.sizes = state.sizes)
    (converter : (other.reset adapter).2.converter = (state.reset adapter).2.converter)
    (succeeds : (other.reset adapter).1 = (state.reset adapter).1) (quiet : Bool) :
    Alike { (state.reset adapter).2 with quiet := quiet }
      { (other.reset adapter).2 with quiet := quiet } := by
  have failed : (other.reset adapter).2.resetFailed = (state.reset adapter).2.resetFailed := by
    have flag (state : ConsumerState F S W) :
        (state.reset adapter).2.resetFailed = !(state.reset adapter).1 := by
      simp [ConsumerState.reset]
    rw [flag, flag, succeeds]
  have cleared : other.muteHistory.clear = state.muteHistory.clear :=
    congrArg (History.mk []) (congrArg Prod.snd sizes)
  let left : ConsumerState.Leftover F :=
    { input := other.input
      output := other.output
      cacheStart := other.cacheStart
      cacheEnd := other.cacheEnd
      token := 0
      plc := other.plc.map Plc.reset }
  have same : ({ (other.reset adapter).2 with quiet := quiet } : ConsumerState F S W) =
      ConsumerState.withLeftover left { (state.reset adapter).2 with quiet := quiet } := by
    unfold ConsumerState.reset at converter failed ⊢
    dsimp only at converter failed
    unfold ConsumerState.withLeftover
    dsimp only
    rw [converter, failed, cleared]
    rfl
  rw [same]
  refine .mk left ⟨fun index inside => (Nat.not_lt_zero _ inside).elim,
    fun index inside => (Nat.not_lt_zero _ inside).elim, fun some => (some rfl).elim, ?_⟩
  have scales : other.plc.map Plc.scale = state.plc.map Plc.scale := congrArg Prod.fst sizes
  change Option.Rel Plc.Alike (state.plc.map Plc.reset) (other.plc.map Plc.reset)
  cases plcEq : state.plc with
  | none =>
      cases plcEq' : other.plc with
      | none => exact .none
      | some plc' => simp [plcEq, plcEq'] at scales
  | some plc =>
      cases plcEq' : other.plc with
      | none => simp [plcEq, plcEq'] at scales
      | some plc' =>
          rw [plcEq, plcEq'] at scales
          exact .some (Plc.alike_reset (Option.some.inj scales))

namespace RingView

/-- A ring whose stream was just reset. -/
structure Fresh (adapter : Adapter F W S) (fresh : S) (sizes : Option (List Nat) × Nat)
    (view : RingView F S W) : Prop where
  slots_eq : view.slots = []
  records_eq : view.records = []
  stamp_eq : view.account.stamp = none
  idle : ¬FinishPending view.finish
  consumer : ∃ (state : ConsumerState F S W) (quiet : Bool), state.sizes = sizes ∧
    (state.reset adapter).1 = true ∧ (state.reset adapter).2.converter = fresh ∧
    view.consumer = { (state.reset adapter).2 with quiet := quiet }

/-- Consumers that behave alike once they sleep alike. -/
def AlikeAwake (state other : ConsumerState F S W) : Prop :=
  ∃ quiet, state.Alike { other with quiet := quiet }

theorem Fresh.matches {fresh : S} {sizes : Option (List Nat) × Nat}
    {view other : RingView F S W} (one : view.Fresh adapter fresh sizes)
    (two : other.Fresh adapter fresh sizes) : view.Matches AlikeAwake other := by
  obtain ⟨state, quiet, sizesEq, succeeds, converter, consumerEq⟩ := one.consumer
  obtain ⟨state', quiet', sizesEq', succeeds', converter', consumerEq'⟩ := two.consumer
  refine ⟨two.slots_eq.trans one.slots_eq.symm, two.records_eq.trans one.records_eq.symm,
    two.stamp_eq.trans one.stamp_eq.symm, iff_of_false two.idle one.idle, quiet, ?_⟩
  rw [consumerEq, consumerEq']
  exact ConsumerState.resets_alike (sizesEq'.trans sizesEq.symm)
    (converter'.trans converter.symm) (succeeds'.trans succeeds.symm) quiet

/-- A render leaves the finish word alone or completes the boundary. -/
def Completes (adapter : Adapter F W S) (view : RingView F S W)
    (rendered : Rendered F × RingView F S W) : Prop :=
  rendered.2.finish = view.finish ∨ ∃ ending : RingView F S W, ending.records = view.records ∧
    ∃ boundary failed state, rendered = ending.complete adapter boundary failed state

variable [Widening F W] {view : RingView F S W}

theorem completes_render :
    Completes adapter { view with records := [] } (view.render adapter geometry) := by
  rw [RingView.render_eq_close]
  cases view.exit adapter geometry with
  | silent | released | emitted => exact .inl rfl
  | completed slots state boundary failed =>
      exact .inr ⟨{ view with slots := slots, records := [] }, rfl, boundary, failed, state, rfl⟩

end RingView

variable [Widening F W]

theorem sizesKept {shape : List (SourceSample F) → List SlotNote → Prop}
    (sizes : Option (List Nat) × Nat) :
    LocalInvariant adapter geometry shape
      fun (state : ConsumerState F S W) (_ : Ring F S W) => state.sizes = sizes where
  published _ _ same := same
  same _ same := same
  capture _ _ _ same := same
  receive _ _ same := (ConsumerState.sizes_receive _).trans same
  flags _ _ same := same
  space wanted _ _ same := by
    rw [← same]
    unfold ConsumerState.makeInputSpace
    split <;> rfl
  take _ _ _ _ _ same := (ConsumerState.sizes_acceptSource _ _).trans same
  pad _ _ _ same := by
    rw [← same]
    unfold ConsumerState.padInput
    split <;> rfl
  query _ _ same := same
  steer _ _ _ same := same
  convert {state ring} _ _ same :=
    (state.convert_cases adapter geometry (min geometry.capacity converterQuantum)).sizes.trans same
  emit _ _ _ same := (ConsumerState.sizes_emission _ _).trans same
  release _ _ _ same := (ConsumerState.sizes_release _ _).trans same
  reset quiet same _ := (ConsumerState.sizes_reset adapter quiet).trans same

/-- A drained word is kept apart from readable slots. -/
def DrainedEmpty (geometry : Geometry) (ring : Ring F S W) : Prop :=
  ring.pcm.Sound geometry.capacity ∧
    (ring.finish % 4 = 1 → ring.pcm.unread geometry.capacity = [])

omit [Widening F W] in
theorem drainedEmpty_effect {resets : Prop} (op : Access F S W) (ring : Ring F S W)
    (promised : DrainGuar adapter geometry resets op ring) (holds : DrainedEmpty geometry ring) :
    DrainedEmpty geometry (effect geometry op ring) := by
  have moves := ConsumerMoves.of_permits promised.1
  obtain ⟨sound, reads⟩ := moves.pcm holds.1
  refine ⟨sound, fun drained => ?_⟩
  have stays (empty : ring.pcm.unread geometry.capacity = []) :
      (effect geometry op ring).pcm.unread geometry.capacity = [] := by
    have fewer := reads.distance_le
    rw [← Channel.unread_length, ← Channel.unread_length, empty] at fewer
    exact List.length_eq_zero_iff.mp (Nat.le_zero.mp fewer)
  cases op with
  | storeFinish word => exact stays (promised.2 word rfl drained).empty
  | _ => exact stays (holds.2 drained)

/-- A render that ends with a drained boundary leaves nothing readable behind. -/
theorem drained_render {ring : Ring F S W} (holds : DrainInv geometry ring)
    (pending : FinishPending ring.finish) :
    DrainedEmpty geometry ((consumerRenderSample adapter geometry).run (exec geometry) ring).2 := by
  have safe : (consumerRenderSample adapter geometry).Safe (exec geometry)
      (ProducerMoves geometry (SingleLine none)) (DrainGuar adapter geometry True)
      (DrainPost geometry) ring :=
    safe_consumerRenderSample drainSide drainStart drainRender holds
  have alone : (consumerRenderSample adapter geometry).Safe (exec geometry) Eq
      (DrainGuar adapter geometry True) (DrainPost geometry) ring :=
    safe.weaken fun same => same ▸ ProducerMoves.refl _
  refine (alone.keeping (fun same => same ▸ id)
    (fun op memory promised => drainedEmpty_effect op memory promised)
    ⟨holds.1.pcm, fun drained => ?_⟩).run.2
  have low := pending.2
  omega

/-- A consumer call that resets the stream: a reset that succeeds, or a render
that completes the pending boundary as drained, or as failed while the adapter
itself was reset. -/
def Ring.StreamReset (adapter : Adapter F W S) (geometry : Geometry) (call : ConsumerCall)
    (ring : Ring F S W) : Prop :=
  let performed := ring.perform adapter geometry ⟨.consumer, call⟩
  match call with
  | .reset => performed.1 = ⟨.consumer, .reset true⟩
  | .render => FinishPending ring.finish ∧ (performed.2.finish % 4 = 1 ∨
      performed.2.finish % 4 = 3 ∧ performed.2.consumer.resetFailed = false)

namespace RingView

variable {view : RingView F S W} {fresh : S} {sizes : Option (List Nat) × Nat}

omit [Widening F W] in
theorem fresh_reset
    (restores : ∀ handle after, adapter.converterReset handle = (some (), after) → after = fresh)
    (sized : view.consumer.sizes = sizes) (succeeds : (view.reset adapter).1 = true) :
    (view.reset adapter).2.Fresh adapter fresh sizes where
  slots_eq := rfl
  records_eq := rfl
  stamp_eq := rfl
  idle := by
    unfold RingView.reset
    dsimp only
    split
    · rename_i pending
      have low := pending.2
      simp only [FinishPending, FinishStatus.bits]
      omega
    · assumption
  consumer := ⟨view.consumer, view.consumer.quiet, sized, succeeds,
    converter_reset restores succeeds, rfl⟩

theorem fresh_render
    (restores : ∀ handle after, adapter.converterReset handle = (some (), after) → after = fresh)
    (pending : FinishPending view.finish)
    (completed : (view.render adapter geometry).2.finish % 4 = 1 ∨
      (view.render adapter geometry).2.finish % 4 = 3 ∧
        (view.render adapter geometry).2.consumer.resetFailed = false)
    (drained : (view.render adapter geometry).2.finish % 4 = 1 →
      (view.render adapter geometry).2.slots = [])
    (sized : (view.render adapter geometry).2.consumer.sizes = sizes) :
    (view.render adapter geometry).2.Fresh adapter fresh sizes := by
  have completes : Completes adapter { view with records := [] } (view.render adapter geometry) :=
    completes_render
  generalize view.render adapter geometry = rendered at completed drained sized completes ⊢
  rcases completes with same | ⟨ending, recordsEq, boundary, failed, state, rfl⟩
  · have low := pending.2
    rw [same] at completed
    dsimp only at completed
    omega
  have succeeds : (state.reset adapter).1 = true := by
    by_contra fails
    have errored : (!(state.reset adapter).1 || failed) = true := by
      rw [Bool.eq_false_iff.mpr fails]
      rfl
    have unset : (state.reset adapter).2.resetFailed = true := by
      simpa [ConsumerState.reset] using fails
    have word : (ending.complete adapter boundary failed state).2.finish =
        boundary.token * 4 + 3 := by
      unfold RingView.complete
      dsimp only
      rw [errored]
      rfl
    rcases completed with drained | ⟨-, set⟩
    · omega
    · exact Bool.noConfusion (unset.symm.trans set)
  refine
    { slots_eq := ?_, records_eq := ?_, stamp_eq := rfl
      idle := not_pending_of_bits boundary.token _
      consumer := ⟨state, true, (ConsumerState.sizes_reset adapter true).symm.trans sized, succeeds,
        converter_reset restores succeeds, rfl⟩ }
  · cases failed with
    | true => exact if_pos (Bool.or_true _)
    | false =>
        refine drained ?_
        unfold RingView.complete
        simp only [succeeds, Bool.not_true, Bool.or_self, Bool.false_eq_true, if_false,
          FinishStatus.bits]
        omega
  · unfold RingView.complete
    dsimp only
    rw [recordsEq, ite_self]

end RingView

/-- Whatever a ring went through before, its stream reset leaves it fresh. -/
theorem fresh_streamReset {settings : Settings} {fresh : S}
    (restores : ∀ handle after, adapter.converterReset handle = (some (), after) → after = fresh)
    {ring : Ring F S W} (created : Ring.create adapter settings = .ok (geometry, ring))
    {config : RingConfig F S W}
    (reached : Reachable (body adapter geometry) (exec geometry) (fun _ _ => True) ring config)
    (idle : ∀ party, config.thread party = .idle) {call : ConsumerCall}
    (resets : config.memory.StreamReset adapter geometry call) :
    ((config.memory.perform adapter geometry ⟨.consumer, call⟩).2.view geometry).Fresh adapter
      fresh ring.consumer.sizes := by
  have admitted : RingReachable adapter settings (fun _ _ => True) geometry config :=
    ⟨ring, created, reached⟩
  obtain ⟨-, viewed⟩ := perform_view adapter (producerHolds_of_idle admitted (idle .producer))
    ⟨.consumer, call⟩
  obtain ⟨awake, sized⟩ := invariant_of_idle (sizesKept ring.consumer.sizes).steered created rfl reached
    (idle .consumer)
  obtain ⟨last, reachedLast, memoryEq, idleLast, -⟩ :=
    reachable_of_call (trivial : (fun _ _ => True) Party.consumer call) reached (idle .consumer)
  have sizedLast := (invariant_of_idle (sizesKept ring.consumer.sizes).steered created rfl reachedLast
    idleLast).2
  rw [memoryEq] at sizedLast
  have view := congrArg Prod.snd viewed
  have reply := congrArg Prod.fst viewed
  dsimp only at view reply
  cases call with
  | reset =>
      rw [view]
      have succeeds : (config.memory.perform adapter geometry ⟨.consumer, .reset⟩).1 =
        ⟨.consumer, .reset true⟩ := resets
      rw [succeeds] at reply
      refine RingView.fresh_reset restores sized ?_
      have same : (ConsumerResult.reset true : ConsumerResult F) =
          .reset ((config.memory.view geometry).reset adapter).1 :=
        eq_of_heq (Sigma.mk.inj reply).2
      exact (ConsumerResult.reset.inj same).symm
  | render =>
      obtain ⟨pending, completed⟩ := resets
      have drained : DrainedEmpty geometry
          ((consumerRenderSample adapter geometry).run (exec geometry) config.memory).2 :=
        drained_render awake pending
      have rendered :
          (config.memory.perform adapter geometry ⟨.consumer, .render⟩).2.view geometry =
            ((config.memory.view geometry).render adapter geometry).2 := view
      rw [rendered]
      refine RingView.fresh_render restores pending ?_ ?_ ?_
      · rw [← rendered]
        exact completed
      · rw [← rendered]
        have ran : (config.memory.perform adapter geometry ⟨.consumer, .render⟩).2 =
            ((consumerRenderSample adapter geometry).run (exec geometry) config.memory).2 :=
          congrArg Prod.snd (Program.run_bind (exec geometry)
            (consumerRenderSample adapter geometry)
            (fun output => pure (ConsumerResult.rendered output)) config.memory)
        rw [ran]
        exact drained.2
      · rw [← rendered]
        exact sizedLast

omit [Binary32 F] [Binary64 W] [Widening F W] in
theorem receiveAll_fault (records : List Interval) {state : ConsumerState F S W}
    (room : state.muteHistory.entries.length + records.length ≤ state.muteHistory.capacity) :
    (state.receiveAll records).muteFault = state.muteFault := by
  unfold ConsumerState.receiveAll
  induction records generalizing state with
  | nil => rfl
  | cons interval records ih =>
      rw [List.length_cons] at room
      obtain ⟨inserted, grown, kept⟩ :=
        History.insert_room state.muteHistory interval (by omega)
      rw [List.foldl_cons, ih]
      · simp [ConsumerState.receive, inserted]
      · simp only [ConsumerState.receive]
        omega

namespace RingView

variable {view other : RingView F S W}

/-- A producer only appends to what can be read. -/
def Grows (view after : RingView F S W) : Prop :=
  after.consumer = view.consumer ∧ ∃ fresh, after.slots = view.slots ++ fresh ∧
    after.account.published = view.account.published ++ fresh

omit [Binary32 F] [Binary64 W] [Widening F W] in
theorem grows_self {after : RingView F S W} (consumer : after.consumer = view.consumer)
    (slots : after.slots = view.slots) (account : after.account = view.account) :
    view.Grows after :=
  ⟨consumer, [], by rw [slots, List.append_nil], by rw [account, List.append_nil]⟩

omit [Binary32 F] [Binary64 W] [Widening F W] in
theorem grows_produced {account : ProducerAccount F}
    (tracks : ProducerAccount.Tracks view.account view.account account account) :
    view.Grows (view.produced account) := by
  obtain ⟨fresh, grown, -⟩ := tracks.published
  refine ⟨rfl, fresh, ?_, grown⟩
  simp only [RingView.produced, grown, List.drop_left]

omit [Binary64 W] [Widening F W] in
theorem grows_produce (call : ProducerCall F) : view.Grows (view.produce geometry call).2 := by
  have block (samples : List (SourceSample F)) :
      view.Grows (view.publishBlock geometry samples).2 := by
    unfold RingView.publishBlock
    split
    · exact grows_self rfl rfl rfl
    · exact grows_produced (ProducerAccount.publishAll_tracks rfl samples _).2
  unfold RingView.produce
  cases call with
  | pushSample sample =>
      dsimp only
      split
      · exact grows_self rfl rfl rfl
      · exact grows_produced (ProducerAccount.publishOne_tracks rfl _ _).2
  | push input => exact block _
  | gap samples => exact block _
  | pushTagged input generation sourceStart spans =>
      dsimp only
      split
      · exact grows_self rfl rfl rfl
      split
      · exact grows_self rfl rfl rfl
      split
      · exact grows_self rfl rfl rfl
      · exact grows_produced (ProducerAccount.taggedAccount_tracks rfl _ _ _ _ _)
  | mute generation spans =>
      dsimp only
      split
      · exact grows_self rfl rfl rfl
      split
      · exact grows_self rfl rfl rfl
      · exact grows_produced ⟨rfl, ⟨[], (List.append_nil _).symm, (List.append_nil _).symm⟩,
          _, rfl, rfl⟩
  | finish =>
      dsimp only
      split
      · exact grows_self rfl rfl rfl
      split
      · exact grows_self rfl rfl rfl
      · exact grows_self rfl rfl rfl
  | status token => exact grows_self rfl rfl rfl

theorem grows_performAll (calls : List (RingCall F))
    (producing : ∀ call ∈ calls, call.1 = .producer) :
    view.Grows (view.performAll adapter geometry calls).2 := by
  induction calls generalizing view with
  | nil => exact grows_self rfl rfl rfl
  | cons call rest ih =>
      obtain ⟨party, call⟩ := call
      obtain rfl : party = .producer := producing _ (.head _)
      have first : view.Grows (view.produce geometry call).2 := grows_produce call
      have others : (view.produce geometry call).2.Grows
          ((view.produce geometry call).2.performAll adapter geometry rest).2 :=
        ih fun call member => producing call (.tail _ member)
      obtain ⟨consumer, fresh, slots, published⟩ := first
      obtain ⟨consumer', more, slots', published'⟩ := others
      rw [performAll_cons]
      refine ⟨consumer'.trans consumer, fresh ++ more, ?_, ?_⟩
      · rw [← List.append_assoc, ← slots]
        exact slots'
      · rw [← List.append_assoc, ← published]
        exact published'

omit [Binary32 F] [Binary64 W] [Widening F W] in
/-- Taking in a boundary and records does not depend on whether the consumer slept. -/
theorem started_quiet (view : RingView F S W) (quiet : Bool) :
    ({ ({ view with consumer := { view.consumer with quiet := quiet } } :
      RingView F S W).started with quiet := false } : ConsumerState F S W) =
      { view.started with quiet := false } := by
  have received (records : List Interval) (state : ConsumerState F S W) :
      ConsumerState.receiveAll records { state with quiet := quiet } =
        { state.receiveAll records with quiet := quiet } := by
    unfold ConsumerState.receiveAll
    induction records generalizing state with
    | nil => rfl
    | cons interval records ih => exact ih (state.receive interval)
  unfold RingView.started
  dsimp only
  by_cases captures : FinishPending view.finish ∧ view.consumer.finite.isNone
  · rw [if_pos captures, if_pos captures]
    rfl
  · rw [if_neg captures, if_neg captures, received]

theorem render_waiting (waiting : view.slots ≠ []) (clear : view.started.muteFault = false) :
    view.render adapter geometry =
      { view with records := [] }.renderAwake adapter geometry
        { view.started with quiet := false } := by
  have readable : ¬view.slots.length = 0 := fun none =>
    waiting (List.length_eq_zero_iff.mp none)
  unfold RingView.render RingView.renderReady
  rw [if_neg (by rw [clear]; exact Bool.false_ne_true)]
  by_cases quiet : view.started.quiet = true
  · rw [if_pos quiet, if_neg readable]
  · have awake : ({ view.started with quiet := false } : ConsumerState F S W) = view.started := by
      rw [← Bool.eq_false_iff.mpr quiet]
    rw [if_neg quiet, awake]

/-- Rings that differ in whether their consumers sleep agree from the first
render on that finds something to read. -/
theorem Matches.renderWaiting (same : view.Matches AlikeAwake other) (waiting : view.slots ≠ [])
    (clear : view.started.muteFault = false) :
    Agree (view.render adapter geometry) (other.render adapter geometry) := by
  obtain ⟨quiet, alike⟩ := same.consumer
  let woken : RingView F S W := { other with consumer := { other.consumer with quiet := quiet } }
  have sameWoken : view.Matches ConsumerState.Alike woken :=
    ⟨same.slots_eq, same.records_eq, same.stamp_eq, same.pending, alike⟩
  have started := sameWoken.started
  have wokenEq : ({ woken.started with quiet := false } : ConsumerState F S W) =
    { other.started with quiet := false } := started_quiet other quiet
  have clear' : other.started.muteFault = false :=
    (congrArg ConsumerState.muteFault wokenEq).symm.trans (started.muteFault_eq.trans clear)
  rw [render_waiting waiting clear, render_waiting (same.slots_eq ▸ waiting) clear', ← wokenEq]
  have drained : RingView.Matches AlikeAwake { view with records := [] }
      { other with records := [] } :=
    ⟨same.slots_eq, rfl, same.stamp_eq, same.pending, same.consumer⟩
  exact drained.renderAwake started.woken

omit [Widening F W] in
theorem Fresh.clear {fresh : S} {sizes : Option (List Nat) × Nat} {started : RingView F S W}
    (reset : view.Fresh adapter fresh sizes) (reserved : mailboxQueue ≤ sizes.2)
    (consumer : started.consumer = view.consumer)
    (bounded : started.records.length ≤ mailboxQueue) :
    started.started.muteFault = false := by
  obtain ⟨state, quiet, sizesEq, -, -, consumerEq⟩ := reset.consumer
  have cleared : started.consumer.muteFault = false ∧
      started.consumer.muteHistory.entries.length = 0 ∧
      started.consumer.muteHistory.capacity = sizes.2 := by
    rw [consumer, consumerEq, ← sizesEq]
    exact ⟨rfl, rfl, rfl⟩
  unfold RingView.started
  dsimp only
  split
  · rw [receiveAll_fault]
    · exact cleared.1
    · change started.consumer.muteHistory.entries.length + started.records.length ≤
        started.consumer.muteHistory.capacity
      omega
  · rw [receiveAll_fault]
    · exact cleared.1
    · omega

omit [Binary32 F] [Binary64 W] [Widening F W] in
/-- A run up to its first consumer call. -/
theorem exists_first_consume (calls : List (RingCall F)) : ∃ early rest, calls = early ++ rest ∧
    (∀ call ∈ early, call.1 = .producer) ∧
      (rest = [] ∨ ∃ call later, rest = ⟨.consumer, call⟩ :: later) := by
  induction calls with
  | nil => exact ⟨[], [], rfl, fun _ member => (by cases member), .inl rfl⟩
  | cons first calls ih =>
      obtain ⟨party, call⟩ := first
      cases party with
      | consumer =>
          exact ⟨[], _, rfl, fun _ member => (by cases member), .inr ⟨call, calls, rfl⟩⟩
      | producer =>
          obtain ⟨early, rest, rfl, producing, ends⟩ := ih
          refine ⟨⟨.producer, call⟩ :: early, rest, rfl, fun other member => ?_, ends⟩
          cases member with
          | head => rfl
          | tail _ member => exact producing other member

theorem Fresh.performAll {fresh : S} {sizes : Option (List Nat) × Nat}
    (one : view.Fresh adapter fresh sizes) (two : other.Fresh adapter fresh sizes)
    (reserved : mailboxQueue ≤ sizes.2) {calls : List (RingCall F)}
    (resumes : ∀ early call later, calls = early ++ ⟨.consumer, call⟩ :: later →
      (∀ producing ∈ early, producing.1 = .producer) → call = .render ∧
        view.account.published.length <
          (view.performAll adapter geometry early).2.account.published.length)
    (bounded : ∀ early later, calls = early ++ later →
      (view.performAll adapter geometry early).2.records.length ≤ mailboxQueue)
    (tokens : TokensLast adapter geometry calls view)
    (tokens' : TokensLast adapter geometry calls other) :
    (other.performAll adapter geometry calls).1.map RingReply.plain =
      (view.performAll adapter geometry calls).1.map RingReply.plain := by
  obtain ⟨early, rest, rfl, producing, ends⟩ := exists_first_consume calls
  obtain ⟨replies, between⟩ := Matches.performAll early
    (fun call member => Party.noConfusion (producing _ member)) (one.matches two)
    tokens.append.1 tokens'.append.1
  simp only [performAll_append, List.map_append, replies]
  rcases ends with rfl | ⟨call, later, rfl⟩
  · rfl
  obtain ⟨rfl, grown⟩ := resumes early call later rfl producing
  have grows : view.Grows (view.performAll adapter geometry early).2 :=
    grows_performAll early producing
  obtain ⟨consumer, fresh, slots, published⟩ := grows
  have waiting : (view.performAll adapter geometry early).2.slots ≠ [] := by
    rw [published, List.length_append] at grown
    rw [slots]
    intro none
    rw [(List.append_eq_nil_iff.mp none).2, List.length_nil] at grown
    exact Nat.lt_irrefl _ grown
  have clear := one.clear reserved consumer (bounded early _ rfl)
  have agree : Agree ((view.performAll adapter geometry early).2.render adapter geometry)
      ((other.performAll adapter geometry early).2.render adapter geometry) :=
    between.renderWaiting waiting clear
  obtain ⟨rendered, after⟩ := agree
  have consumes : ∀ call, (⟨.consumer, call⟩ : RingCall F) ∈ later →
      ∀ view other : RingView F S W, view.Matches ConsumerState.Alike other →
      (other.consume adapter geometry call).1 = (view.consume adapter geometry call).1 ∧
        (view.consume adapter geometry call).2.Matches ConsumerState.Alike
          (other.consume adapter geometry call).2 :=
    fun call _ _ _ same => same.consume call
  obtain ⟨others, -⟩ := Matches.performAll later consumes after tokens.append.2.rest
    tokens'.append.2.rest
  simp only [performAll_cons, List.map_cons]
  refine congrArg₂ (fun first rest => _ ++ first :: rest) ?_ others
  simp only [perform, consume, rendered]

end RingView

/-- The first consumer call of a run, if there is one, is a render, and a
publication was accepted before it. -/
def Ring.Resumes (adapter : Adapter F W S) (geometry : Geometry) (calls : List (RingCall F))
    (ring : Ring F S W) : Prop :=
  ∀ early call later, calls = early ++ ⟨.consumer, call⟩ :: later →
    (∀ producing ∈ early, producing.1 = .producer) → call = .render ∧
      ring.pcm.published.length <
        (ring.performAll adapter geometry early).2.pcm.published.length

/-- Tokens are left for every boundary that a run requests. -/
def Ring.TokensLast (adapter : Adapter F W S) (geometry : Geometry) (calls : List (RingCall F))
    (ring : Ring F S W) : Prop :=
  ∀ earlier later, calls = earlier ++ ⟨.producer, .finish⟩ :: later →
    (ring.performAll adapter geometry earlier).2.finish / 4 + 1 < 2 ^ 62

/-- Two rings of the same settings that each completed a stream reset answer
every common run alike, whatever went through them before. -/
theorem reset_erases_history {settings : Settings} {fresh : S}
    (restores : ∀ handle after, adapter.converterReset handle = (some (), after) → after = fresh)
    {config config' : RingConfig F S W}
    (reached : RingReachable adapter settings (fun _ _ => True) geometry config)
    (reached' : RingReachable adapter settings (fun _ _ => True) geometry config')
    (idle : ∀ party, config.thread party = .idle) (idle' : ∀ party, config'.thread party = .idle)
    {call call' : ConsumerCall} (resets : config.memory.StreamReset adapter geometry call)
    (resets' : config'.memory.StreamReset adapter geometry call') {calls : List (RingCall F)}
    (resumes : (config.memory.perform adapter geometry ⟨.consumer, call⟩).2.Resumes adapter
      geometry calls)
    (tokens : (config.memory.perform adapter geometry ⟨.consumer, call⟩).2.TokensLast adapter
      geometry calls)
    (tokens' : (config'.memory.perform adapter geometry ⟨.consumer, call'⟩).2.TokensLast adapter
      geometry calls) :
    ((config'.memory.perform adapter geometry ⟨.consumer, call'⟩).2.performAll adapter geometry
        calls).1.map RingReply.plain =
      ((config.memory.perform adapter geometry ⟨.consumer, call⟩).2.performAll adapter geometry
        calls).1.map RingReply.plain := by
  obtain ⟨holds, -⟩ := perform_view adapter (producerHolds_of_idle reached (idle .producer))
    ⟨.consumer, call⟩
  obtain ⟨holds', -⟩ := perform_view adapter (producerHolds_of_idle reached' (idle' .producer))
    ⟨.consumer, call'⟩
  obtain ⟨ring, created, steps⟩ := reached
  obtain ⟨ring', created', steps'⟩ := reached'
  obtain ⟨-, rfl⟩ := Prod.mk.inj (Except.ok.inj (created.symm.trans created'))
  have one := fresh_streamReset restores created steps idle resets
  have two := fresh_streamReset restores created steps' idle' resets'
  have reserved : mailboxQueue ≤ ring.consumer.sizes.2 := by
    obtain ⟨valid, outputDelay, delay, converter, rfl, rfl⟩ := create_cases created
    have enough : minimumCapacity ≤ settings.capacity := validate_capacity valid
    change mailboxQueue ≤ settings.capacity * 2 + ceilDiv delay frameUnit + 2
    simp only [minimumCapacity, converterQuantum, mailboxQueue, maxSpans] at enough ⊢
    omega
  generalize (config.memory.perform adapter geometry ⟨.consumer, call⟩).2 = after at *
  generalize (config'.memory.perform adapter geometry ⟨.consumer, call'⟩).2 = after' at *
  have viewed (calls : List (RingCall F)) := (performAll_view adapter holds calls).2
  have viewed' (calls : List (RingCall F)) := (performAll_view adapter holds' calls).2
  have ended (calls : List (RingCall F)) :
      ((after.view geometry).performAll adapter geometry calls).2 =
        (after.performAll adapter geometry calls).2.view geometry :=
    (congrArg Prod.snd (viewed calls)).symm
  have ended' (calls : List (RingCall F)) :
      ((after'.view geometry).performAll adapter geometry calls).2 =
        (after'.performAll adapter geometry calls).2.view geometry :=
    (congrArg Prod.snd (viewed' calls)).symm
  have replies : (after.performAll adapter geometry calls).1 =
      ((after.view geometry).performAll adapter geometry calls).1 :=
    congrArg Prod.fst (viewed calls)
  have replies' : (after'.performAll adapter geometry calls).1 =
      ((after'.view geometry).performAll adapter geometry calls).1 :=
    congrArg Prod.fst (viewed' calls)
  rw [replies, replies']
  refine one.performAll two reserved ?_ ?_ ?_ ?_
  · intro early call later split producing
    obtain ⟨renders, grown⟩ := resumes early call later split producing
    refine ⟨renders, ?_⟩
    rw [ended]
    exact grown
  · intro early later split
    rw [ended]
    have bounded := (performAll_view adapter holds early).1.mutes.valid.distance_le
    rw [← Channel.unread_length] at bounded
    exact bounded
  · intro earlier later split
    rw [ended]
    exact tokens earlier later split
  · intro earlier later split
    rw [ended']
    exact tokens' earlier later split

theorem Ring.resumes_publication {ring : Ring F S W} {call : ProducerCall F}
    (grown : ring.pcm.published.length <
      (ring.performAll adapter geometry [⟨.producer, call⟩]).2.pcm.published.length) :
    ring.Resumes adapter geometry [⟨.producer, call⟩, ⟨.consumer, .render⟩] := by
  intro early consuming later split _
  match early, split with
  | [], split => cases split
  | [first], split =>
      cases split
      exact ⟨rfl, grown⟩
  | first :: second :: more, split =>
      have lengths := congrArg List.length split
      simp only [List.cons_append, List.length_cons, List.length_nil, List.length_append] at lengths
      omega

theorem Ring.tokensLast_of_not_mem {ring : Ring F S W} {calls : List (RingCall F)}
    (none : ⟨.producer, .finish⟩ ∉ calls) : ring.TokensLast adapter geometry calls := by
  rintro earlier later rfl
  exact (none (by simp)).elim

end Rings

/-- An empty burst and a burst of one sample, before the same second burst. -/
theorem reset_erases_history_of_one_sample :
    ∃ (geometry : Geometry) (config config' : RingConfig ℚ Unit ℚ),
      RingReachable unitConverter smallSettings (fun _ _ => True) geometry config ∧
      RingReachable unitConverter smallSettings (fun _ _ => True) geometry config' ∧
      config.memory.pcm.published = [] ∧ config'.memory.pcm.published ≠ [] ∧
      ((config'.memory.perform unitConverter geometry ⟨.consumer, .render⟩).2.performAll
          unitConverter geometry [⟨.producer, .push [1 / 4]⟩, ⟨.consumer, .render⟩]).1.map
            RingReply.plain =
        ((config.memory.perform unitConverter geometry ⟨.consumer, .render⟩).2.performAll
          unitConverter geometry [⟨.producer, .push [1 / 4]⟩, ⟨.consumer, .render⟩]).1.map
            RingReply.plain := by
  let ends (geometry : Geometry) (config : RingConfig ℚ Unit ℚ) : Bool :=
    let after := (config.memory.perform unitConverter geometry ⟨.consumer, .render⟩).2
    let pushed := (after.performAll unitConverter geometry [⟨.producer, .push [1 / 4]⟩]).2
    config.resting .producer && config.resting .consumer && decide
      (FinishPending config.memory.finish ∧ (after.finish % 4 = 1 ∨
        after.finish % 4 = 3 ∧ after.consumer.resetFailed = false) ∧
      after.pcm.published.length < pushed.pcm.published.length)
  have played : (playRing (unitConverter (F := ℚ) (W := ℚ)) smallSettings
      (uninterrupted .producer .finish)).any (fun played =>
        ends played.1 played.2 && played.2.memory.pcm.published.isEmpty) = true := by
    decide +kernel
  have played' : (playRing (unitConverter (F := ℚ) (W := ℚ)) smallSettings
      (uninterrupted .producer (.push [1 / 2]) ++ uninterrupted .producer .finish ++
        uninterrupted .consumer .render)).any (fun played =>
          ends played.1 played.2 && !played.2.memory.pcm.published.isEmpty) = true := by
    decide +kernel
  have ended {geometry : Geometry} {config : RingConfig ℚ Unit ℚ}
      (shows : ends geometry config = true) : (∀ party, config.thread party = .idle) ∧
      config.memory.StreamReset unitConverter geometry .render ∧
      (config.memory.perform unitConverter geometry ⟨.consumer, .render⟩).2.Resumes unitConverter
        geometry [⟨.producer, .push [1 / 4]⟩, ⟨.consumer, .render⟩] := by
    simp only [ends, Bool.and_eq_true, decide_eq_true_eq] at shows
    obtain ⟨⟨producer, consumer⟩, pending, completed, grown⟩ := shows
    refine ⟨fun party => ?_, ⟨pending, completed⟩, Ring.resumes_publication grown⟩
    cases party with
    | producer => exact Config.idle_of_resting producer
    | consumer => exact Config.idle_of_resting consumer
  obtain ⟨geometry, config, reached, shows⟩ := reachable_of_plays _ _ _
    (fun geometry config => ends geometry config && config.memory.pcm.published.isEmpty)
    (admitted_any _) played
  obtain ⟨geometry', config', reached', shows'⟩ := reachable_of_plays _ _ _
    (fun geometry config => ends geometry config && !config.memory.pcm.published.isEmpty)
    (admitted_any _) played'
  obtain rfl : geometry = geometry' := by
    obtain ⟨ring, created, -⟩ := reached
    obtain ⟨ring', created', -⟩ := reached'
    exact (Prod.mk.inj (Except.ok.inj (created.symm.trans created'))).1
  obtain ⟨shown, empty⟩ := Bool.and_eq_true_iff.mp shows
  obtain ⟨shown', some⟩ := Bool.and_eq_true_iff.mp shows'
  obtain ⟨idle, resets, resumes⟩ := ended shown
  obtain ⟨idle', resets', -⟩ := ended shown'
  have noToken : (⟨.producer, .finish⟩ : RingCall ℚ) ∉
      ([⟨.producer, .push [1 / 4]⟩, ⟨.consumer, .render⟩] : List (RingCall ℚ)) := by
    simp
  have erased := reset_erases_history (fun _ _ _ => Subsingleton.elim _ ()) reached reached' idle
    idle' resets resets' resumes (Ring.tokensLast_of_not_mem noToken)
    (Ring.tokensLast_of_not_mem noToken)
  refine ⟨geometry, config, config', reached, reached', List.isEmpty_iff.mp empty, ?_, erased⟩
  simpa using some

end PcmRing
