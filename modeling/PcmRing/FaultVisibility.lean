import PcmRing.DrainedBoundary

/-!
# Faults that a render reports

A render that reports an error while a boundary is pending settles the boundary,
unless the error is a latched mute fault; and after a failed converter reset
every render is silent and reports the failure, unless it releases the lookahead
of a boundary.  Both are decided by the state a render finds.
-/

namespace PcmRing

open AtomicProgram TwoLapQueue

variable {F S W : Type}

/-- Inserting the records in turn uses up the reserved entries. -/
def History.overflows : List Interval → History → Bool
  | [], _ => false
  | interval :: rest, history =>
      !(history.insert interval).1 || overflows rest (history.insert interval).2

/-- A mute fault is latched, or receiving the waiting records latches it. -/
def Ring.muteFaults (ring : Ring F S W) : Bool :=
  ring.consumer.muteFault ||
    ring.consumer.muteHistory.overflows (ring.mutes.unread mailboxQueue)

/-- The boundary that a render works on. -/
def Ring.boundary (geometry : Geometry) (ring : Ring F S W) : Option Finite :=
  if FinishPending ring.finish ∧ ring.consumer.finite.isNone then
    some ⟨ring.finish / 4,
      ring.consumer.sourceTaken + (ring.pcm.unread geometry.capacity).length, none⟩
  else ring.consumer.finite

/-- The boundary has nothing to convert and lookahead to release. -/
def Ring.ReleasesLookahead (geometry : Geometry) (ring : Ring F S W) : Prop :=
  ∃ boundary ∈ ring.boundary geometry,
    (boundary.stop = 0 ∨ boundary.plcRemaining.isSome) ∧
    ConsumerState.remainingLookahead geometry.lookahead boundary ≠ 0

section Renders

variable [Binary32 F] [Binary64 W] [Widening F W] (adapter : Adapter F W S)
  (geometry : Geometry)

/-- One render that nothing interrupts. -/
def renderAlone (ring : Ring F S W) : Rendered F × Ring F S W :=
  (consumerRenderSample adapter geometry).run (exec geometry) ring

/-- If the next render reports an error, the pending boundary ends in
`AdapterError`. -/
def SettlesFailure (ring : Ring F S W) : Prop :=
  let rendered := renderAlone adapter geometry ring
  rendered.1.2.2 = true →
    FinishStatus.ofToken rendered.2.finish (ring.finish / 4) = some .adapterError

/-- The next render is silent, and reports an error unless it resets the
converter. -/
def SilentAndVisible (ring : Ring F S W) : Prop :=
  let rendered := renderAlone adapter geometry ring
  rendered.1.1 = 0 ∧ rendered.1.2.1 = false ∧
    (rendered.1.2.2 = true ∨ rendered.2.consumer.resetFailed = false)

end Renders

variable {geometry : Geometry} {resets : Prop} {ring : Ring F S W}
  {state : ConsumerState F S W}

theorem aloneSide : ConsumerSide (F := F) (S := S) (W := W) geometry True (SingleLine none) Eq
    fun _ _ => True where
  order := Program.preordered_eq
  moves same := same ▸ .refl _
  permits _ _ _ _ := trivial

/-- The queues are sound and the finish word is as it was. -/
structure Undisturbed (geometry : Geometry) (word : Nat) (ring : Ring F S W) : Prop where
  pcm : ring.pcm.Sound geometry.capacity
  mutes : ring.mutes.Sound mailboxQueue
  finish_eq : ring.finish = word

theorem Undisturbed.steady (geometry : Geometry) (word : Nat) (fact : Prop) : Steady geometry Eq
    fun ring : Ring F S W => Undisturbed geometry word ring ∧ fact where
  stable same holds := same ▸ holds
  pcm _ holds := holds.1.pcm
  mutes _ holds := holds.1.mutes
  counter _ _ _ holds _ := ⟨{ holds.1 with }, holds.2⟩
  correction _ _ holds := ⟨{ holds.1 with }, holds.2⟩

theorem Undisturbed.discards {word : Nat} (op : Access F S W)
    (holds : Undisturbed geometry word ring) (permitted : ConsumerPermits geometry resets op ring)
    (discards : op.Discards) : Undisturbed geometry word (effect geometry op ring) := by
  cases op with
  | pcm access =>
      have sound := Channel.sound_reader holds.pcm permitted
      exact { holds with pcm := sound }
  | mutes access =>
      have sound := Channel.sound_reader holds.mutes permitted
      exact { holds with mutes := sound }
  | _ => exact discards.elim

/-- The consumer state once the boundary and the waiting records are taken in. -/
structure Ring.Found (geometry : Geometry) (first : Ring F S W) (state : ConsumerState F S W) :
    Prop where
  finite_eq : state.finite = first.boundary geometry
  quiet : state.finite.isSome → state.quiet = false
  resetFailed_eq : state.resetFailed = first.consumer.resetFailed

/-- Nothing was taken in yet. -/
def Ring.Untouched (geometry : Geometry) (first : Ring F S W) (state : ConsumerState F S W)
    (ring : Ring F S W) : Prop :=
  (Undisturbed geometry first.finish ring ∧ state = first.consumer) ∧
    ring.pcm.unread geometry.capacity = first.pcm.unread geometry.capacity ∧
    ring.mutes.unread mailboxQueue = first.mutes.unread mailboxQueue

/-- The waiting records decide whether a fault will be latched. -/
def Ring.Receiving (geometry : Geometry) (first : Ring F S W) (limit : Nat)
    (state : ConsumerState F S W) (ring : Ring F S W) : Prop :=
  (Undisturbed geometry first.finish ring ∧ first.Found geometry state) ∧
    (state.muteFault || state.muteHistory.overflows (ring.mutes.unread mailboxQueue)) =
      first.muteFaults ∧
    (ring.mutes.unread mailboxQueue).length ≤ limit

theorem foundStart (holds : DrainInv geometry ring) : DrainSteps geometry Eq
    (ring.Untouched geometry) (ring.Receiving geometry) fun state current =>
      Undisturbed geometry ring.finish current ∧
        ring.Found geometry state ∧ state.muteFault = ring.muteFaults := by
  have all {current : Ring F S W} (sound : current.mutes.Sound mailboxQueue) :
      (current.mutes.unread mailboxQueue).length ≤ maxSpans * 2 := by
    rw [Channel.unread_length]
    exact sound.valid.distance_le
  constructor
  case startedSteady =>
    exact fun state => ⟨fun same holds => same ▸ holds, fun _ holds => holds.1.1.pcm,
      fun _ holds => holds.1.1.mutes,
      fun _ _ _ holds _ => ⟨⟨{ holds.1.1 with }, holds.1.2⟩, holds.2⟩,
      fun _ _ holds => ⟨⟨{ holds.1.1 with }, holds.1.2⟩, holds.2⟩⟩
  case drainingSteady =>
    exact fun limit state => ⟨fun same holds => same ▸ holds, fun _ holds => holds.1.1.pcm,
      fun _ holds => holds.1.1.mutes,
      fun _ _ _ holds _ => ⟨⟨{ holds.1.1 with }, holds.1.2⟩, holds.2⟩,
      fun _ _ holds => ⟨⟨{ holds.1.1 with }, holds.1.2⟩, holds.2⟩⟩
  case capture =>
    rintro state current ⟨⟨undisturbed, rfl⟩, unreadEq, recordsEq⟩ pending streaming
    rw [undisturbed.finish_eq] at pending ⊢
    refine ⟨⟨undisturbed, ?_, fun _ => rfl, rfl⟩, ?_, all undisturbed.mutes⟩
    · rw [Ring.boundary, if_pos ⟨pending, by simp [streaming]⟩, ← unreadEq]
      rfl
    · rw [recordsEq]
      rfl
  case uncaptured =>
    rintro state current ⟨⟨undisturbed, rfl⟩, unreadEq, recordsEq⟩ captured
    refine ⟨⟨undisturbed, ?_, holds.1.awake, rfl⟩, ?_, all undisturbed.mutes⟩
    · rw [Ring.boundary, if_neg]
      rintro ⟨pending, streaming⟩
      have some := captured (undisturbed.finish_eq ▸ pending)
      rw [Option.isNone_iff_eq_none.mp streaming] at some
      cases some
    · rw [recordsEq]
      rfl
  case receive =>
    rintro limit state current interval rest ⟨⟨undisturbed, found⟩, faults, bounded⟩ unreadEq
    have restEq : (popRecord geometry interval current).mutes.unread mailboxQueue = rest :=
      Channel.unread_advanceRead undisturbed.mutes unreadEq
    refine ⟨⟨{ undisturbed with
      mutes := Channel.sound_reader undisturbed.mutes ⟨rfl, rest, unreadEq⟩ },
      { found with }⟩, ?_, ?_⟩
    · rw [restEq, ← faults, unreadEq]
      simp [ConsumerState.receive, History.overflows, Bool.or_assoc]
    · rw [unreadEq, List.length_cons] at bounded
      rw [restEq]
      omega
  case emptied =>
    rintro limit state current ⟨⟨undisturbed, found⟩, faults, -⟩ empty
    rw [empty, History.overflows, Bool.or_false] at faults
    exact ⟨undisturbed, found, faults⟩
  case bounded =>
    rintro state current ⟨⟨undisturbed, found⟩, faults, none⟩
    rw [List.length_eq_zero_iff.mp (Nat.le_zero.mp none), History.overflows, Bool.or_false]
      at faults
    exact ⟨undisturbed, found, faults⟩

variable [Binary32 F] [Binary64 W]

theorem reset_resetFailed (adapter : Adapter F W S) (state : ConsumerState F S W) :
    (state.reset adapter).2.resetFailed = !(state.reset adapter).1 := by
  change (adapter.converterReset state.converter).1.isNone =
    !(adapter.converterReset state.converter).1.isSome
  cases (adapter.converterReset state.converter).1 <;> rfl

variable {adapter : Adapter F W S}

/-- Completing a boundary is silent, and settles it if it reports an error;
without one the converter was reset. -/
theorem safe_completeAlone {word : Nat} {boundary : Finite} {adapterFailed : Bool}
    (holds : Undisturbed geometry word ring) :
    (completeFinite adapter geometry boundary adapterFailed state).Safe (exec geometry) Eq
      (fun _ _ => True) (fun rendered exit => rendered.1 = 0 ∧ rendered.2.1 = false ∧
        (rendered.2.2 = true ∨ exit.consumer.resetFailed = false) ∧
        (rendered.2.2 = true → exit.finish = boundary.token * 4 + 3)) ring := by
  have steady (word : Nat) := Undisturbed.steady (F := F) (S := S) (W := W) geometry word True
  have settledFailed := reset_resetFailed adapter state
  have discards (op : Access F S W) (current : Ring F S W)
      (currentHolds : Undisturbed geometry word current ∧ True)
      (permitted : ConsumerPermits geometry True op current) (discards : op.Discards) :
      Undisturbed geometry word (effect geometry op current) ∧ True :=
    ⟨currentHolds.1.discards op permitted discards, trivial⟩
  refine aloneSide.safe_completeFinite (steady word) (steady word)
    (steady (boundary.token * 4 +
      if (!(state.reset adapter).1 || adapterFailed) = true then 3 else 1)) ?_
    (fun _ => discards) (fun _ => clears_of_discards (steady word) discards) ?_ ?_ ?_
  · rintro first rfl
    refine ⟨trivial, ?_⟩
    rintro second rfl
    exact ⟨trivial, { holds with }, trivial⟩
  · intro works succeeded current currentHolds
    exact ⟨trivial, { currentHolds.1 with finish_eq := by simp [works, succeeded]; rfl }, trivial⟩
  · intro cause current currentHolds
    refine ⟨trivial, { currentHolds.1 with finish_eq := ?_ }, trivial⟩
    rcases cause with fails | fails <;> simp [fails] <;> rfl
  · rintro current errored rfl currentHolds after rfl
    refine ⟨rfl, rfl, ?_, fun error => ?_⟩
    · cases works : (state.reset adapter).1 with
      | false => exact .inl rfl
      | true => exact .inr (settledFailed.trans (by rw [works]; rfl))
    · have finishEq : current.finish = _ := currentHolds.1.finish_eq
      rw [if_pos error] at finishEq
      exact finishEq

/-- A boundary of the pending word is in hand, and no fault was found. -/
structure Ring.Settling (first : Ring F S W) (state : ConsumerState F S W) : Prop where
  token_eq : ∃ boundary, state.finite = some boundary ∧ boundary.token = first.finish / 4
  faultless : first.muteFaults = false

def settleOutline (geometry : Geometry) (first : Ring F S W) : RefillOutline F S W where
  ready state ring := Undisturbed geometry first.finish ring ∧
    first.Settling state ∧ state.muteFault = false
  filled state ring := Undisturbed geometry first.finish ring ∧
    first.Settling state ∧ state.muteFault = false
  steered state ring := Undisturbed geometry first.finish ring ∧
    first.Settling state ∧ state.muteFault = false
  refilled result state ring := Undisturbed geometry first.finish ring ∧
    first.Settling state ∧ (result ≠ .adapterError → state.muteFault = false)

/-- What a render of a pending boundary does about an error. -/
def SettlePost (first : Ring F S W) (rendered : Rendered F) (exit : Ring F S W) : Prop :=
  if first.muteFaults then rendered.2.2 = true ∧ exit.finish = first.finish
  else rendered.2.2 = true → exit.finish = first.finish + 3

omit [Binary32 F] [Binary64 W] in
theorem Ring.Settling.of_finite {first : Ring F S W} {other : ConsumerState F S W}
    (settling : first.Settling state) (finiteEq : other.finite = state.finite) :
    first.Settling other :=
  ⟨finiteEq ▸ settling.token_eq, settling.faultless⟩

omit [Binary32 F] [Binary64 W] in
theorem acceptSource_muteFault (gapCapacity : Nat) (slot : SourceSample F)
    (accepted : (state.acceptSource gapCapacity slot).1 = true) :
    (state.acceptSource gapCapacity slot).2.muteFault = state.muteFault := by
  rcases state.acceptSource_cases gapCapacity slot with
    ⟨gaps, continues, _, acceptedEq⟩ | ⟨_, acceptedEq⟩ | ⟨_, _, _, acceptedEq⟩ <;>
    rw [acceptedEq] at accepted ⊢
  · rcases state.fence_cases slot.stamp with
      ⟨_, fenced⟩ | ⟨mark, _, _, fenced⟩ | ⟨mark, _, _, fenced⟩ <;> rw [fenced] at continues ⊢
    · rfl
    · rfl
    · cases continues
  · cases accepted
  · cases accepted

omit [Binary32 F] in
theorem convert_muteFault (quantum : Nat)
    (placed : (state.convert adapter geometry quantum).1 ≠ .adapterError) :
    (state.convert adapter geometry quantum).2.muteFault = state.muteFault := by
  have ran := state.convert_cases adapter geometry quantum
  generalize (state.convert adapter geometry quantum).1 = result at ran placed
  generalize (state.convert adapter geometry quantum).2 = converted at ran
  cases ran with
  | rejected => exact (placed rfl).elim
  | unplaced => exact (placed rfl).elim
  | absorbed => rfl
  | generated => rfl

theorem settleRefill (first : Ring F S W) :
    RefillSteps adapter geometry Eq (settleOutline geometry first) where
  readySteady state := Undisturbed.steady _ _ _
  filledSteady state := Undisturbed.steady _ _ _
  steeredSteady state := Undisturbed.steady _ _ _
  refilledSteady result state := Undisturbed.steady _ _ _
  refused state ring holds _ := ⟨holds.1, holds.2.1, fun error => (error rfl).elim⟩
  cached state ring holds _ _ := ⟨holds.1, holds.2.1, fun _ => holds.2.2⟩
  space state ring wanted holds _ := by
    unfold ConsumerState.makeInputSpace
    split
    · exact holds
    · exact ⟨holds.1, holds.2.1.of_finite rfl, holds.2.2⟩
  take state ring slot rest holds _ _ _ unreadEq := by
    have undisturbed : Undisturbed geometry first.finish (takeSlot geometry slot ring) :=
      { holds.1 with pcm := takeSlot_sound holds.1.pcm unreadEq }
    have settling := holds.2.1.of_finite
      (state.acceptSource_keeps geometry.gapCapacity slot).finite_eq
    exact ⟨fun accepted => ⟨undisturbed, settling,
        (acceptSource_muteFault _ _ accepted).trans holds.2.2⟩,
      fun _ => ⟨undisturbed, settling, fun error => (error rfl).elim⟩⟩
  fill state ring holds _ _ := holds
  pad state ring holds _ := by
    unfold ConsumerState.padInput
    split
    · exact ⟨holds.1, holds.2.1.of_finite rfl, holds.2.2⟩
    · exact holds
  stalled state ring holds _ _ _ _ := ⟨holds.1, holds.2.1, fun _ => holds.2.2⟩
  query state ring holds _ := ⟨fun _ => ⟨holds.1, holds.2.1.of_finite rfl, holds.2.2⟩,
    fun _ => ⟨holds.1, holds.2.1.of_finite rfl, fun error => (error rfl).elim⟩⟩
  steer state ring smoothed holds _ _ := ⟨holds.1, holds.2.1.of_finite rfl, holds.2.2⟩
  nominal state ring holds _ _ := ⟨holds.1, holds.2.1.of_finite rfl, holds.2.2⟩
  keep state ring holds _ _ := holds
  convert state ring holds _ := by
    have ran := state.convert_cases adapter geometry (min geometry.capacity converterQuantum)
    exact ⟨holds.1, holds.2.1.of_finite ran.keeps.1,
      fun placed => (convert_muteFault _ placed).trans holds.2.2⟩

/-- Draining a boundary reports an error only when it settles it. -/
theorem safe_drainSettling {first : Ring F S W} {boundary : Finite}
    (pending : FinishPending first.finish)
    (holds : Undisturbed geometry first.finish ring ∧ first.Settling state)
    (finiteEq : state.finite = some boundary) :
    (drainFinite adapter geometry boundary state).Safe (exec geometry) Eq (fun _ _ => True)
      (SettlePost first) ring := by
  have faultless := holds.2.faultless
  obtain ⟨boundary', finiteEq', tokenEq⟩ := holds.2.token_eq
  obtain rfl : boundary = boundary' := Option.some.inj (finiteEq.symm.trans finiteEq')
  refine aloneSide.safe_drainFinite (Undisturbed.steady _ first.finish True) ?_
    (fun _ _ _ => trivial) ?_ ?_
  · rintro _ current rfl
    exact ⟨{ holds.1 with }, trivial⟩
  · intro _ current _ after _
    rw [SettlePost, faultless, if_neg (by simp)]
    intro error
    cases error
  · intro _
    refine Program.Safe.mono (fun rendered exit completed => ?_) (safe_completeAlone holds.1)
    rw [SettlePost, faultless, if_neg (by simp)]
    intro error
    rw [completed.2.2.2 error]
    change boundary.token * 4 + 3 = _
    have aligned := pending.2
    omega

variable [Widening F W]

theorem settleRender {first : Ring F S W} (pending : FinishPending first.finish)
    (bounded : ∃ boundary, first.boundary geometry = some boundary ∧
      boundary.token = first.finish / 4) :
    RenderSteps adapter geometry Eq (fun _ _ => True) (SettlePost first)
      (fun state current => Undisturbed geometry first.finish current ∧
        first.Found geometry state ∧ state.muteFault = first.muteFaults)
      (settleOutline geometry first) where
  toRefillSteps := settleRefill first
  awakeSteady state := Undisturbed.steady _ _ _
  start state ring holds sound _ _ :=
    ⟨holds.1, ⟨holds.2.1.finite_eq ▸ bounded, holds.2.2.symm.trans sound⟩, sound⟩
  again state ring holds _ := ⟨holds.1, holds.2.1, holds.2.2 (by simp)⟩
  wake state ring holds :=
    ⟨holds.1, ⟨holds.2.1.finite_eq, fun _ => rfl, holds.2.1.resetFailed_eq⟩, holds.2.2⟩
  prime state ring holds _ := ⟨fun _ _ _ _ _ => ⟨holds.1, { holds.2.1 with }, holds.2.2⟩,
    fun _ => ⟨holds.1, { holds.2.1 with }, holds.2.2⟩⟩
  fault state ring holds fault := by
    refine aloneSide.safe_reportFault (Undisturbed.steady _ first.finish True) ⟨holds.1, trivial⟩ ?_
    rintro current currentHolds after rfl
    rw [SettlePost, ← holds.2.2, fault, if_pos rfl]
    exact ⟨rfl, currentHolds.1.finish_eq⟩
  refilledFault result state ring holds fault settled := by
    have sound := holds.2.2
    obtain ⟨boundary, finiteEq, -⟩ := holds.2.1.token_eq
    rcases settled with streaming | rfl
    · rw [finiteEq] at streaming
      cases streaming
    · rw [sound (by simp)] at fault
      cases fault
  idle state early ring holds _ _ quiet _ := by
    obtain ⟨boundary, finiteEq, -⟩ := bounded
    have awake := holds.2.1.quiet (by rw [holds.2.1.finite_eq, finiteEq]; rfl)
    rw [awake] at quiet
    cases quiet
  unprimed state early ring holds _ _ _ streaming _ := by
    obtain ⟨boundary, finiteEq, -⟩ := bounded
    rw [holds.2.1.finite_eq, finiteEq] at streaming
    cases streaming
  drain state boundary ring holds sound finiteEq _ :=
    safe_drainSettling pending ⟨holds.1, holds.2.1.finite_eq ▸ bounded,
      holds.2.2.symm.trans sound⟩ finiteEq
  past state boundary ring holds finiteEq _ :=
    safe_drainSettling pending ⟨holds.1, holds.2.1⟩ finiteEq
  fail result state boundary ring holds _ finiteEq := by
    obtain ⟨boundary', finiteEq', tokenEq⟩ := holds.2.1.token_eq
    obtain rfl : boundary = boundary' := Option.some.inj (finiteEq.symm.trans finiteEq')
    refine Program.Safe.mono (fun rendered exit completed => ?_) (safe_completeAlone holds.1)
    rw [SettlePost, holds.2.1.faultless, if_neg (by simp)]
    intro error
    rw [completed.2.2.2 error]
    have aligned := pending.2
    omega
  emit result state ring holds emits := by
    obtain ⟨boundary, finiteEq, -⟩ := holds.2.1.token_eq
    have ready : result = .ready := by
      rcases emits.2 with streaming | ready
      · rw [finiteEq] at streaming
        cases streaming
      · exact ready.1
    have steady := Undisturbed.steady (F := F) (S := S) (W := W) geometry first.finish True
    refine aloneSide.safe_emit steady steady ⟨holds.1, trivial⟩ (fun _ _ _ => trivial)
      (fun current currentHolds _ => ⟨{ currentHolds.1 with }, trivial⟩)
      (fun current currentHolds _ => currentHolds) (fun _ _ _ => trivial) ?_
    intro current _ after _
    rw [SettlePost, holds.2.1.faultless, if_neg (by simp)]
    intro error
    simp [ConsumerState.emission, ready] at error

/-- What the next uninterrupted render of a ring with clean accounts finds. -/
theorem run_found (adapter : Adapter F W S) {first : Ring F S W} {post : Rendered F → Ring F S W → Prop}
    {outline : RefillOutline F S W} (holds : DrainInv geometry first)
    (steps : RenderSteps adapter geometry Eq (fun _ _ => True) post
      (fun state current => Undisturbed geometry first.finish current ∧
        first.Found geometry state ∧ state.muteFault = first.muteFaults) outline) :
    post (renderAlone adapter geometry first).1 (renderAlone adapter geometry first).2 :=
  (safe_consumerRenderSample aloneSide (foundStart holds) steps
    ⟨⟨⟨holds.1.pcm, holds.1.mutes, rfl⟩, rfl⟩, rfl, rfl⟩).run

omit [Binary32 F] [Binary64 W] [Widening F W] in
theorem boundary_of_pending {first : Ring F S W} (holds : DrainInv geometry first)
    (pending : FinishPending first.finish) : ∃ boundary,
      first.boundary geometry = some boundary ∧ boundary.token = first.finish / 4 := by
  unfold Ring.boundary
  split
  · exact ⟨_, rfl, rfl⟩
  · rename_i captured
    cases finiteEq : first.consumer.finite with
    | none => exact (captured ⟨pending, by simp [finiteEq]⟩).elim
    | some boundary => exact ⟨boundary, rfl, (holds.1.boundary boundary finiteEq).2.1⟩

/-- A render that reports an error settles the pending boundary, exactly when
no mute fault is latched before it decides. -/
theorem settlesFailure_iff {settings : Settings} {config : RingConfig F S W}
    (reached : RingReachable adapter settings (fun _ _ => True) geometry config)
    (idle : config.thread .consumer = .idle) (pending : FinishPending config.memory.finish) :
    SettlesFailure adapter geometry config.memory ↔ config.memory.muteFaults = false := by
  have holds := drainInv_of_idle reached idle
  have post : SettlePost config.memory _ _ := run_found adapter holds
    (settleRender pending (boundary_of_pending holds pending))
  unfold SettlesFailure
  unfold SettlePost at post
  obtain ⟨nonzero, aligned⟩ := pending
  cases faults : config.memory.muteFaults with
  | true =>
      rw [faults, if_pos rfl] at post
      refine ⟨fun settles => ?_, fun none => by cases none⟩
      have settled := settles post.1
      rw [post.2, FinishStatus.ofToken, if_neg (by omega), FinishStatus.ofWord, aligned] at settled
      cases settled
  | false =>
      rw [faults, if_neg (by simp)] at post
      refine ⟨fun _ => rfl, fun _ error => ?_⟩
      rw [post error, FinishStatus.ofToken, if_neg (by omega), FinishStatus.ofWord,
        show (config.memory.finish + 3) % 4 = 3 by omega]
      rfl

/-- The identity converter, except that it resets only once. -/
def wornConverter : Adapter ℚ ℚ Bool where
  create _ _ _ _ := (adapterOk, some false)
  reset worn := (if worn then -1 else adapterOk, true)
  process worn input outputLength _ :=
    ⟨adapterOk, min input.length outputLength, min input.length outputLength,
      fun index => input.getD index 0, worn⟩
  queuedInput worn := (adapterOk, 0, worn)
  outputDelay worn := (adapterOk, 0, worn)
  inputDelay worn := (adapterOk, 0, worn)

/-- A sample is finished and rendered, and its boundary is pending. -/
def burstPending : List (Choice (Party.Call ℚ)) :=
  uninterrupted .producer (.push [1 / 2]) ++ uninterrupted .producer .finish ++
    uninterrupted .consumer .render

theorem settlesFailure_after_one_sample :
    ∃ (geometry : Geometry) (config : RingConfig ℚ Bool ℚ),
      RingReachable wornConverter smallSettings (fun _ _ => True) geometry config ∧
      (renderAlone wornConverter geometry config.memory).1 = (0, false, true) ∧
      SettlesFailure wornConverter geometry config.memory := by
  let shown (geometry : Geometry) (config : RingConfig ℚ Bool ℚ) : Bool :=
    config.resting .consumer && decide (FinishPending config.memory.finish) &&
      !config.memory.muteFaults &&
      decide ((renderAlone wornConverter geometry config.memory).1 = (0, false, true))
  have played : (playRing wornConverter smallSettings burstPending).any
      (fun played => shown played.1 played.2) = true := by decide +kernel
  obtain ⟨geometry, config, reached, shows⟩ :=
    reachable_of_plays _ _ _ shown (admitted_any burstPending) played
  simp only [Bool.and_eq_true, decide_eq_true_eq, Bool.not_eq_true', shown] at shows
  obtain ⟨⟨⟨resting, pending⟩, sound⟩, rendered⟩ := shows
  exact ⟨geometry, config, reached, rendered,
    (settlesFailure_iff reached (Config.idle_of_resting resting) pending).mpr sound⟩

/-- Two tagged generations meet in the consumer's hands before a boundary is
requested. -/
def fencedSchedule : List (Choice (Party.Call ℚ)) :=
  uninterrupted .producer (.pushTagged [1 / 2] 1 0 []) ++
    uninterrupted .producer (.pushTagged [1 / 2] 2 0 []) ++
    uninterrupted .consumer .render ++ uninterrupted .producer .finish

/-- The fault that the fence latched is reported, and the boundary stays pending. -/
theorem failure_outlived :
    ∃ (geometry : Geometry) (config : RingConfig ℚ Unit ℚ),
      RingReachable unitConverter smallSettings (fun _ _ => True) geometry config ∧
      config.thread .consumer = .idle ∧ FinishPending config.memory.finish ∧
      (renderAlone unitConverter geometry config.memory).1 = (0, false, true) ∧
      FinishStatus.ofToken (renderAlone unitConverter geometry config.memory).2.finish
        (config.memory.finish / 4) = some .pending ∧
      ¬SettlesFailure unitConverter geometry config.memory := by
  let shown (geometry : Geometry) (config : RingConfig ℚ Unit ℚ) : Bool :=
    config.resting .consumer && decide (FinishPending config.memory.finish) &&
      decide ((renderAlone unitConverter geometry config.memory).1 = (0, false, true)) &&
      decide (FinishStatus.ofToken (renderAlone unitConverter geometry config.memory).2.finish
        (config.memory.finish / 4) = some .pending)
  have played : (playRing unitConverter smallSettings fencedSchedule).any
      (fun played => shown played.1 played.2) = true := by decide +kernel
  obtain ⟨geometry, config, reached, shows⟩ :=
    reachable_of_plays _ _ _ shown (admitted_any fencedSchedule) played
  simp only [Bool.and_eq_true, decide_eq_true_eq, shown] at shows
  obtain ⟨⟨⟨resting, pending⟩, rendered⟩, status⟩ := shows
  refine ⟨geometry, config, reached, Config.idle_of_resting resting, pending, rendered, status,
    fun settles => ?_⟩
  have settled := settles (by rw [rendered])
  rw [status] at settled
  cases settled

/-- The converter is down and nothing else is to be reported or released. -/
structure Ring.Silenced (geometry : Geometry) (first : Ring F S W) (state : ConsumerState F S W) :
    Prop where
  failed : state.resetFailed = true
  sound : state.muteFault = false
  retained : ¬(first.muteFaults = false ∧ first.ReleasesLookahead geometry)

def silentOutline (geometry : Geometry) (first : Ring F S W) : RefillOutline F S W where
  ready state ring := Undisturbed geometry first.finish ring ∧ first.Silenced geometry state
  filled _ ring := Undisturbed geometry first.finish ring ∧ False
  steered _ ring := Undisturbed geometry first.finish ring ∧ False
  refilled result state ring := Undisturbed geometry first.finish ring ∧
    result = .adapterError ∧ first.Silenced geometry state

/-- What a render with a failed converter shows. -/
def SilentPost (geometry : Geometry) (first : Ring F S W) (rendered : Rendered F)
    (exit : Ring F S W) : Prop :=
  (first.muteFaults = false ∧ first.ReleasesLookahead geometry →
    rendered.2.2 = false ∧ exit.consumer.resetFailed = true) ∧
  (¬(first.muteFaults = false ∧ first.ReleasesLookahead geometry) →
    rendered.1 = 0 ∧ rendered.2.1 = false ∧
      (rendered.2.2 = true ∨ exit.consumer.resetFailed = false))

omit [Widening F W] in
theorem silentRefill (first : Ring F S W) :
    RefillSteps adapter geometry Eq (silentOutline geometry first) where
  readySteady _ := Undisturbed.steady _ _ _
  filledSteady _ := Undisturbed.steady _ _ _
  steeredSteady _ := Undisturbed.steady _ _ _
  refilledSteady _ _ := Undisturbed.steady _ _ _
  refused _ _ holds _ := ⟨holds.1, rfl, holds.2⟩
  cached _ _ holds works _ := (Bool.noConfusion (holds.2.failed.symm.trans works))
  space _ _ _ holds refilling := (Bool.noConfusion (holds.2.failed.symm.trans refilling.1))
  take _ _ _ _ holds refilling := (Bool.noConfusion (holds.2.failed.symm.trans refilling.1))
  fill _ _ holds refilling := (Bool.noConfusion (holds.2.failed.symm.trans refilling.1))
  pad _ _ holds _ := holds.2.elim
  stalled _ _ holds _ := holds.2.elim
  query _ _ holds _ := holds.2.elim
  steer _ _ _ holds _ := holds.2.elim
  nominal _ _ holds _ := holds.2.elim
  keep _ _ holds _ := holds.2.elim
  convert _ _ holds _ := holds.2.elim

theorem silentRender {first : Ring F S W} (failed : first.consumer.resetFailed = true) :
    RenderSteps adapter geometry Eq (fun _ _ => True) (SilentPost geometry first)
      (fun state current => Undisturbed geometry first.finish current ∧
        first.Found geometry state ∧ state.muteFault = first.muteFaults)
      (silentOutline geometry first) where
  toRefillSteps := silentRefill first
  awakeSteady state := Undisturbed.steady _ _ _
  start state ring holds sound _ converting := by
    refine ⟨holds.1, holds.2.1.resetFailed_eq.trans failed, sound, ?_⟩
    rintro ⟨-, boundary, member, ends, -⟩
    exact converting ⟨boundary, holds.2.1.finite_eq ▸ member, ends⟩
  again state ring holds _ := by cases holds.2.1
  wake state ring holds :=
    ⟨holds.1, ⟨holds.2.1.finite_eq, fun _ => rfl, holds.2.1.resetFailed_eq⟩, holds.2.2⟩
  prime state ring holds works :=
    (Bool.noConfusion ((holds.2.1.resetFailed_eq.trans failed).symm.trans works))
  fault state ring holds fault := by
    refine aloneSide.safe_reportFault (Undisturbed.steady _ first.finish True) ⟨holds.1, trivial⟩ ?_
    rintro current _ after rfl
    refine ⟨fun ⟨faultless, _⟩ => ?_, fun _ => ⟨rfl, rfl, .inl rfl⟩⟩
    exact Bool.noConfusion (faultless.symm.trans (holds.2.2.symm.trans fault))
  refilledFault result state ring holds fault _ :=
    (Bool.noConfusion (holds.2.2.sound.symm.trans fault))
  idle state early ring holds moves _ quiet _ := by
    subst moves
    refine aloneSide.safe_leave (Undisturbed.steady _ first.finish True) ⟨holds.1, trivial⟩ ?_
    rintro current _ after rfl
    refine ⟨fun ⟨_, boundary, member, _⟩ => ?_, fun _ => ⟨rfl, rfl, .inl ?_⟩⟩
    · have awake := holds.2.1.quiet (by rw [holds.2.1.finite_eq, member]; rfl)
      exact Bool.noConfusion (awake.symm.trans quiet)
    · exact holds.2.1.resetFailed_eq.trans failed
  unprimed state early ring holds _ _ works _ _ :=
    (Bool.noConfusion ((holds.2.1.resetFailed_eq.trans failed).symm.trans works))
  drain state boundary ring holds sound finiteEq draining := by
    have ends : boundary.stop = 0 ∨ boundary.plcRemaining.isSome := by
      obtain ⟨boundary', member, ends⟩ := draining
      obtain rfl : boundary = boundary' := Option.some.inj (finiteEq.symm.trans member)
      exact ends
    have found : first.boundary geometry = some boundary := holds.2.1.finite_eq ▸ finiteEq
    refine aloneSide.safe_drainFinite (Undisturbed.steady _ first.finish True) ?_
      (fun _ _ _ => trivial) ?_ ?_
    · rintro _ current rfl
      exact ⟨{ holds.1 with }, trivial⟩
    · rintro remaining current _ after rfl
      refine ⟨fun _ => ⟨rfl, ?_⟩, fun retained => (retained ⟨holds.2.2.symm.trans sound,
        boundary, found, ends, remaining⟩).elim⟩
      obtain ⟨plc, releaseEq⟩ := release_cases geometry state boundary
      change (state.release geometry boundary).2.resetFailed = true
      rw [releaseEq]
      exact holds.2.1.resetFailed_eq.trans failed
    · intro none
      refine Program.Safe.mono (fun rendered exit completed => ⟨?_, fun _ => ?_⟩)
        (safe_completeAlone holds.1)
      · rintro ⟨-, boundary', member, -, remaining⟩
        obtain rfl : boundary = boundary' := Option.some.inj (found.symm.trans member)
        exact (remaining none).elim
      · exact ⟨completed.1, completed.2.1, completed.2.2.1⟩
  past state boundary ring holds _ _ := by cases holds.2.1
  fail result state boundary ring holds _ _ := by
    refine Program.Safe.mono (fun rendered exit completed => ⟨?_, fun _ => ?_⟩)
      (safe_completeAlone holds.1)
    · exact fun releases => (holds.2.2.retained releases).elim
    · exact ⟨completed.1, completed.2.1, completed.2.2.1⟩
  emit result state ring holds _ := by
    have steady := Undisturbed.steady (F := F) (S := S) (W := W) geometry first.finish True
    refine aloneSide.safe_emit steady steady ⟨holds.1, trivial⟩ (fun _ _ _ => trivial)
      (fun current currentHolds _ => ⟨{ currentHolds.1 with }, trivial⟩)
      (fun current currentHolds _ => currentHolds) (fun _ _ _ => trivial) ?_
    intro current _ after _
    refine ⟨fun releases => (holds.2.2.retained releases).elim, fun _ => ?_⟩
    obtain rfl := holds.2.1
    simp [ConsumerState.emission, ConsumerState.popped, holds.2.2.failed]

/-- After a failed reset a render is silent and reports it or resets the
converter, exactly when it is not to release the lookahead of a boundary. -/
theorem silentAndVisible_iff {settings : Settings} {config : RingConfig F S W}
    (reached : RingReachable adapter settings (fun _ _ => True) geometry config)
    (idle : config.thread .consumer = .idle)
    (failed : config.memory.consumer.resetFailed = true) :
    SilentAndVisible adapter geometry config.memory ↔
      ¬(config.memory.muteFaults = false ∧ config.memory.ReleasesLookahead geometry) := by
  have post := run_found adapter (drainInv_of_idle reached idle) (silentRender failed)
  refine ⟨fun shown releases => ?_, fun retained => post.2 retained⟩
  obtain ⟨quiet, still⟩ := post.1 releases
  rcases shown.2.2 with error | reset
  · exact Bool.noConfusion (quiet.symm.trans error)
  · exact Bool.noConfusion (still.symm.trans reset)

/-- Just deep enough for concealment. -/
def concealedSettings : Settings :=
  { smallSettings with reserve := 16, target := 16, plc := .g711AppendixI }

/-- The boundary of an empty stream completes, and the converter does not reset. -/
def wornSchedule : List (Choice (Party.Call ℚ)) :=
  uninterrupted .producer .finish ++ uninterrupted .consumer .render ++
    uninterrupted .consumer .render

theorem silentAndVisible_worn :
    ∃ (geometry : Geometry) (config : RingConfig ℚ Bool ℚ),
      RingReachable wornConverter concealedSettings (fun _ _ => True) geometry config ∧
      config.memory.consumer.resetFailed = true ∧
      SilentAndVisible wornConverter geometry config.memory := by
  let shown (geometry : Geometry) (config : RingConfig ℚ Bool ℚ) : Bool :=
    config.resting .consumer && config.memory.consumer.resetFailed &&
      (config.memory.boundary geometry).isNone
  have played : (playRing wornConverter concealedSettings wornSchedule).any
      (fun played => shown played.1 played.2) = true := by decide +kernel
  obtain ⟨geometry, config, reached, shows⟩ :=
    reachable_of_plays _ _ _ shown (admitted_any wornSchedule) played
  simp only [Bool.and_eq_true, Option.isNone_iff_eq_none, shown] at shows
  obtain ⟨⟨resting, failed⟩, none⟩ := shows
  refine ⟨geometry, config, reached, failed,
    (silentAndVisible_iff reached (Config.idle_of_resting resting) failed).mpr ?_⟩
  rintro ⟨-, boundary, member, -⟩
  rw [none] at member
  cases member

/-- The next boundary of an empty stream releases its lookahead without an error. -/
theorem failure_hidden :
    ∃ (geometry : Geometry) (config : RingConfig ℚ Bool ℚ),
      RingReachable wornConverter concealedSettings (fun _ _ => True) geometry config ∧
      config.thread .consumer = .idle ∧ config.memory.consumer.resetFailed = true ∧
      (renderAlone wornConverter geometry config.memory).1 = (0, false, false) ∧
      (renderAlone wornConverter geometry config.memory).2.consumer.resetFailed = true ∧
      ¬SilentAndVisible wornConverter geometry config.memory := by
  let shown (geometry : Geometry) (config : RingConfig ℚ Bool ℚ) : Bool :=
    config.resting .consumer && config.memory.consumer.resetFailed &&
      decide ((renderAlone wornConverter geometry config.memory).1 = (0, false, false)) &&
      (renderAlone wornConverter geometry config.memory).2.consumer.resetFailed
  have played : (playRing wornConverter concealedSettings
      (wornSchedule ++ uninterrupted .producer .finish)).any
      (fun played => shown played.1 played.2) = true := by decide +kernel
  obtain ⟨geometry, config, reached, shows⟩ :=
    reachable_of_plays _ _ _ shown (admitted_any _) played
  simp only [Bool.and_eq_true, decide_eq_true_eq, shown] at shows
  obtain ⟨⟨⟨resting, failed⟩, rendered⟩, still⟩ := shows
  refine ⟨geometry, config, reached, Config.idle_of_resting resting, failed, rendered, still,
    fun visible => ?_⟩
  rcases visible.2.2 with error | reset
  · rw [rendered] at error
    cases error
  · exact Bool.noConfusion (still.symm.trans reset)

end PcmRing
