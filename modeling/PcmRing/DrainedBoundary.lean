import PcmRing.DrainSoundness

/-!
# Every drained boundary is exhausted

The accounts of the consumer hold through every phase of a render and through a
stream reset, so they hold in every schedule, and a `Drained` word is stored
only for an exhausted boundary.
-/

namespace PcmRing

open AtomicProgram TwoLapQueue

variable {F S W : Type} {geometry : Geometry} {resets : Prop} {slack : Nat}
  {state : ConsumerState F S W} {ring : Ring F S W}
  {shape : List (SourceSample F) → List SlotNote → Prop}
  [Binary32 F] [Binary64 W] {adapter : Adapter F W S}

section Emission

variable [Widening F W]

/-- Emitting keeps the accounts: one cached output was handed over. -/
theorem Accounts.emission {result : RefillResult} (accounts : Accounts geometry slack state ring)
    (cached : result = .ready → state.outputPending ≠ 0) :
    Accounts geometry slack (state.emission geometry result).state ring := by
  obtain ⟨plc, plcPositions, plcPosition, muteHistory, emissionEq⟩ :=
    state.emission_state geometry result
  have popped : Accounts geometry slack (state.popped result).2 ring := by
    unfold ConsumerState.popped
    split
    · rename_i ready
      have pending := cached ready
      refine { accounts with cached := fun still => ?_ }
      have more : state.outputPending - 1 ≠ 0 := still
      obtain ⟨count, order, reach⟩ := accounts.cached pending
      refine ⟨?_, order, reach⟩
      simp only [ConsumerState.nextCached, if_neg more]
      omega
    · exact accounts
  rw [emissionEq]
  exact { popped with }

omit [Binary64 W] [Widening F W] in
theorem popped_finite (result : RefillResult) :
    (state.popped result).2.finite = state.finite := by
  unfold ConsumerState.popped
  split <;> rfl

theorem emission_finite (geometry : Geometry) (result : RefillResult) :
    (state.emission geometry result).state.finite = state.finite := by
  obtain ⟨plc, plcPositions, plcPosition, muteHistory, emissionEq⟩ :=
    state.emission_state geometry result
  rw [emissionEq]
  exact popped_finite result

theorem drainRender : RenderSteps adapter geometry (ProducerMoves geometry shape)
    (DrainGuar adapter geometry resets) (DrainPost geometry) (Awake geometry) (drainOutline geometry) where
  toRefillSteps := drainRefill
  awakeSteady state := Accounts.steady _
  start state ring holds _ _ converting := ⟨holds.1, converting⟩
  again state ring holds _ := ⟨holds.1, holds.2.1⟩
  wake state ring holds := ⟨{ holds.1 with awake := fun _ => rfl }, holds.2⟩
  prime state ring holds _ :=
    ⟨fun _ _ _ _ _ => ⟨{ holds.1 with }, holds.2⟩, fun _ => ⟨{ holds.1 with }, holds.2⟩⟩
  fault state ring holds _ := by
    refine drainSide.safe_reportFault (Accounts.steady _) holds fun current currentHolds after
      moves => ?_
    exact (Awake.leave currentHolds).stable moves
  refilledFault result state ring holds _ settled := by
    refine drainSide.safe_reportFault (Accounts.steady _) holds fun current currentHolds after
      moves => DrainInv.stable ⟨currentHolds.1.left ?_ ?_, fun boundary member remaining => ?_⟩
        moves
    · split <;> decide
    · intro owed
      refine settled.resolve_right fun ready => ?_
      rw [ready] at owed
      exact Nat.lt_irrefl 0 owed
    · exact (currentHolds.2.1 ⟨boundary, member, .inr remaining⟩).elim
  idle state early ring holds moves _ _ _ := by
    refine drainSide.safe_leave (Accounts.steady _) ⟨holds.1.stable moves, holds.2⟩
      fun current currentHolds after later => (Awake.leave currentHolds).stable later
  unprimed state early ring holds moves _ _ _ _ := by
    refine drainSide.safe_leave (Accounts.steady _) ⟨holds.1.stable moves, holds.2⟩
      fun current currentHolds after later => (Awake.leave currentHolds).stable later
  drain state boundary ring holds _ finiteEq draining := by
    refine safe_drainDrain holds.1 finiteEq ?_
    obtain ⟨boundary', member, ends⟩ := draining
    obtain rfl : boundary = boundary' := Option.some.inj (finiteEq.symm.trans member)
    exact ends.elim .inl (holds.2 boundary finiteEq)
  past state boundary ring holds finiteEq past :=
    safe_drainDrain holds.1 finiteEq (.inr ⟨past, holds.2.2 rfl⟩)
  fail result state boundary ring holds _ finiteEq :=
    safe_completeDrain holds.1 finiteEq fun failed => by cases failed
  emit result state ring holds emits := by
    have steady : Steady geometry (ProducerMoves geometry shape)
        ((drainOutline geometry).refilled result state) := Accounts.steady _
    refine drainSide.safe_emit steady steady holds ?_ ?_ ?_ ?_ ?_
    · exact fun position current _ => ⟨trivial, fun word same => by cases same⟩
    · exact fun current currentHolds _ => ⟨{ currentHolds.1 with }, currentHolds.2⟩
    · exact fun current currentHolds _ => currentHolds
    · exact fun position current _ => ⟨trivial, fun word same => by cases same⟩
    · intro current currentHolds after moves
      have finiteEq : (state.emission geometry result).state.finite = state.finite :=
        emission_finite geometry result
      refine DrainInv.stable ⟨(currentHolds.1.emission currentHolds.2.2).left ?_ ?_,
        fun boundary member remaining => ?_⟩ moves
      · split <;> simp_all
      · intro owed
        rw [finiteEq]
        refine emits.2.resolve_right fun ready => ?_
        rw [ready.1] at owed
        exact Nat.lt_irrefl 0 owed
      · exact (currentHolds.2.1 ⟨boundary, finiteEq ▸ member, .inr remaining⟩).elim

end Emission

omit [Binary32 F] [Binary64 W] in
theorem drainStart : DrainSteps geometry (ProducerMoves geometry shape) (Awake geometry)
    (fun _ => Awake geometry) (Awake (F := F) (S := S) (W := W) geometry) where
  startedSteady state := Accounts.steady _
  drainingSteady limit state := Accounts.steady _
  capture state ring holds pending streaming := by
    have unpadded : state.inputPadding = false := by
      by_contra padding
      have captured := (holds.1.padded (by simpa using padding)).2.1
      simp [streaming] at captured
    refine ⟨{ holds.1 with
      padded := fun padding => (Bool.noConfusion (unpadded.symm.trans padding))
      boundary := fun boundary member => ?_
      released := ?_
      awake := fun _ => rfl }, fun boundary member remaining => ?_⟩
    · obtain rfl := Option.some.inj member
      exact ⟨pending, rfl, Nat.le_refl _, Nat.le_refl _⟩
    · have released := holds.1.released
      rw [streaming] at released
      exact released
    · obtain rfl := Option.some.inj member
      cases remaining
  uncaptured state ring holds _ := holds
  receive limit state ring interval rest holds unreadEq :=
    ⟨{ holds.1 with mutes := Channel.sound_reader holds.1.mutes ⟨rfl, rest, unreadEq⟩ }, holds.2⟩
  emptied limit state ring holds _ := holds
  bounded state ring holds := holds

omit [Binary32 F] [Binary64 W] in
private theorem soundSteady : Steady geometry (ProducerMoves geometry shape)
    fun ring : Ring F S W => ring.pcm.Sound geometry.capacity ∧ ring.mutes.Sound mailboxQueue where
  stable moves holds := ⟨(moves.pcm holds.1).1, (moves.mutes holds.2).1⟩
  pcm _ holds := holds.1
  mutes _ holds := holds.2
  counter _ _ _ holds _ := holds
  correction _ _ holds := holds

omit [Binary32 F] [Binary64 W] in
private theorem soundDiscards (op : Access F S W) (ring : Ring F S W)
    (holds : ring.pcm.Sound geometry.capacity ∧ ring.mutes.Sound mailboxQueue)
    (permitted : ConsumerPermits geometry resets op ring) (discards : op.Discards) :
    (effect geometry op ring).pcm.Sound geometry.capacity ∧
      (effect geometry op ring).mutes.Sound mailboxQueue := by
  cases op with
  | pcm access => exact ⟨Channel.sound_reader holds.1 permitted, holds.2⟩
  | mutes access => exact ⟨holds.1, Channel.sound_reader holds.2 permitted⟩
  | _ => exact discards.elim

section Reset

variable {rely : Ring F S W → Ring F S W → Prop} {guar : Access F S W → Ring F S W → Prop}
  (side : ConsumerSide geometry resets shape rely guar)

include side

omit [Binary32 F] [Binary64 W] in
theorem ConsumerSide.safe_cancelFinish {β : Type} {post : β → Ring F S W → Prop}
    {completed : Ring F S W → Prop} (steady : Steady geometry rely completed)
    (holds : completed ring)
    (cancels : ∀ current, completed current → FinishPending current.finish →
      guar (.storeFinish (current.finish + FinishStatus.cancelled.bits)) current ∧
        completed (effect geometry
          (.storeFinish (current.finish + FinishStatus.cancelled.bits)) current))
    {next : Unit → RingProgram F S W β}
    (safe : ∀ current, completed current →
      (next ()).Safe (exec geometry) rely guar post current) :
    (cancelFinish >>= next).Safe (exec geometry) rely guar post ring := by
  unfold cancelFinish
  rw [bind_assoc]
  refine safe_answer (.loadFinish .reset) (by simp [Access.IsLoad]) fun first firstMoves =>
    ⟨side.permits _ _ (by simp [ConsumerPermits]) trivial, ?_⟩
  have firstHolds := steady.stable firstMoves holds
  have loaded : answer geometry (.loadFinish .reset) first = first.finish := rfl
  rw [loaded]
  split
  · rename_i pending
    refine safe_access.mpr fun second secondMoves => ?_
    have secondHolds := steady.stable secondMoves firstHolds
    have finishEq := (side.moves secondMoves).finish pending
    rw [← finishEq] at pending ⊢
    obtain ⟨permitted, cancelled⟩ := cancels second secondHolds pending
    exact ⟨permitted, safe _ cancelled⟩
  · exact safe first firstHolds

/-- The walk through a stream reset: both queues are dropped before the next
stream begins, and a pending boundary is cancelled in it. -/
theorem ConsumerSide.safe_resetStream {post : Bool → Ring F S W → Prop}
    {resetting completed : Ring F S W → Prop} (resettingSteady : Steady geometry rely resetting)
    (completedSteady : Steady geometry rely completed) (holds : resetting ring)
    (discards : ∀ op current, resetting current → ConsumerPermits geometry resets op current →
      op.Discards → resetting (effect geometry op current))
    (serial : ∀ current, resetting current → guar .fetchAddResetSerial current ∧
      completed (effect geometry .fetchAddResetSerial current))
    (cancels : ∀ current, completed current → FinishPending current.finish →
      guar (.storeFinish (current.finish + FinishStatus.cancelled.bits)) current ∧
        completed (effect geometry
          (.storeFinish (current.finish + FinishStatus.cancelled.bits)) current))
    (leave : ∀ current, completed current → ∀ after,
      rely (effect geometry (.leave (ring.consumer.reset adapter).2 false) current) after →
      post (ring.consumer.reset adapter).1 after) :
    (consumerReset adapter).Safe (exec geometry) rely guar post ring := by
  unfold consumerReset mailboxReset
  refine Port.safe_discard (pcm_lawful geometry) side.pcmReader (resettingSteady.pcm _ holds)
    fun early current earlyMoves currentMoves permitted => ?_
  have snapshot := discards (.pcm .snapshotWritten) early (resettingSteady.stable earlyMoves holds)
    trivial trivial
  have dropped := discards (.pcm (.discardTo _)) current
    (resettingSteady.stable currentMoves snapshot) permitted trivial
  refine safe_answer .enter trivial fun entered enteredMoves =>
    ⟨side.permits _ _ trivial trivial, ?_⟩
  have consumerEq : entered.consumer = ring.consumer :=
    (side.moves enteredMoves).consumer_eq.trans
      ((side.moves currentMoves).consumer_eq.trans (side.moves earlyMoves).consumer_eq)
  have enteredHolds := resettingSteady.stable enteredMoves dropped
  refine Port.safe_discard (mute_lawful geometry) side.muteReader
    (resettingSteady.mutes _ enteredHolds)
    fun early' current' earlyMoves' currentMoves' permitted' => ?_
  have cleared := clears_of_discards resettingSteady discards early' current'
    (resettingSteady.stable earlyMoves' enteredHolds) currentMoves' permitted'
  refine safe_access.mpr fun second secondMoves => ?_
  obtain ⟨counted, restarted⟩ := serial second (resettingSteady.stable secondMoves cleared)
  refine ⟨counted, ?_⟩
  refine side.safe_cancelFinish completedSteady restarted cancels fun third thirdHolds => ?_
  refine safe_access.mpr fun fourth fourthMoves =>
    ⟨side.permits _ _ trivial trivial, fun last lastMoves => ?_⟩
  have loaded : answer geometry .enter entered = ring.consumer := consumerEq
  rw [loaded] at lastMoves ⊢
  exact leave fourth (completedSteady.stable fourthMoves thirdHolds) last lastMoves

theorem ConsumerSide.safe_reset {post : Bool → Ring F S W → Prop}
    (pcm : ring.pcm.Sound geometry.capacity) (mutes : ring.mutes.Sound mailboxQueue)
    (serial : ∀ current, guar .fetchAddResetSerial current)
    (cancels : ∀ current, FinishPending current.finish →
      guar (.storeFinish (current.finish + FinishStatus.cancelled.bits)) current)
    (leave : ∀ current, Completed geometry current → ∀ after,
      rely (effect geometry (.leave (ring.consumer.reset adapter).2 false) current) after →
      post (ring.consumer.reset adapter).1 after) :
    (consumerReset adapter).Safe (exec geometry) rely guar post ring := by
  have sound : Steady geometry rely fun ring : Ring F S W =>
      ring.pcm.Sound geometry.capacity ∧ ring.mutes.Sound mailboxQueue :=
    soundSteady.under side.moves
  have completed : Steady geometry rely (Completed (F := F) (S := S) (W := W) geometry) :=
    completedSteady.under side.moves
  refine side.safe_resetStream sound completed ⟨pcm, mutes⟩ soundDiscards
    (fun current holds => ⟨serial current, holds.1, holds.2, rfl, rfl, rfl⟩)
    (fun current holds pending => ⟨cancels current pending, { holds with }⟩) leave

end Reset

theorem safe_resetDrain (admits : resets) (holds : DrainInv geometry ring) :
    (consumerReset adapter).Safe (exec geometry) (ProducerMoves geometry shape)
      (DrainGuar adapter geometry resets) (fun _ => DrainInv geometry) ring := by
  refine drainSide.safe_reset holds.1.pcm holds.1.mutes ?_ ?_ ?_
  · exact fun current => ⟨.inl admits, fun word same => by cases same⟩
  · intro current pending
    obtain ⟨nonzero, zero⟩ := pending
    refine ⟨⟨⟨nonzero, zero⟩, ?_, ?_⟩, fun word same drained => ?_⟩
    · simp only [FinishStatus.bits]
      omega
    · simp only [FinishStatus.bits]
      omega
    · cases same
      simp only [FinishStatus.bits] at drained
      omega
  · intro current completed after moves
    have reset : { (ring.consumer.reset adapter).2 with
      quiet := (ring.consumer.reset adapter).2.quiet } = (ring.consumer.reset adapter).2 := rfl
    rw [← reset] at moves
    exact completed.drainInv.stable moves

variable [Widening F W]

/-- The consumer's half of the outline. -/
def drainSpec (adapter : Adapter F W S) (geometry : Geometry) (resets : Prop)
    (allowed : (party : Party) → party.Call F → Prop)
    (admits : allowed .consumer .reset → resets) :
    ConsumerSpec adapter geometry resets none allowed where
  inv := DrainInv geometry
  guar := DrainGuar adapter geometry resets
  post _ _ _ _ := True
  permits promised := promised.1
  stable moves holds := holds.stable moves
  safe call ring admitted holds := by
    have order : Program.Preordered (ProducerMoves (F := F) (S := S) (W := W) geometry
        (SingleLine none)) := ⟨.refl, .trans⟩
    cases call with
    | render =>
        refine Program.Safe.bind order (Program.Safe.mono (fun rendered exit exitHolds => ?_)
          (safe_consumerRenderSample drainSide drainStart drainRender holds))
        exact fun last moves => ⟨exitHolds.stable moves, trivial⟩
    | reset =>
        refine Program.Safe.bind order (Program.Safe.mono (fun succeeded exit exitHolds => ?_)
          (safe_resetDrain (admits admitted) holds))
        exact fun last moves => ⟨exitHolds.stable moves, trivial⟩

omit [Widening F W] [Binary64 W] in
theorem drainInv_initial [Binary64 W] {settings : Settings} {gapCapacity : Nat} {converter : S}
    (positive : 0 < geometry.capacity) :
    DrainInv geometry (Ring.initial (W := W)
      (ConsumerState.initial (F := F) settings gapCapacity converter)) where
  left :=
    { pcm := Channel.sound_empty positive
      mutes := Channel.sound_empty (by decide)
      taken_le := Nat.le_refl 0
      dropped_le := Nat.le_refl 0
      unpadded := fun _ => ⟨rfl, rfl⟩
      padded := fun padding => Bool.noConfusion padding
      cached := fun pending => (pending rfl).elim
      boundary := fun boundary member => by cases member
      released := Nat.zero_add _
      awake := fun pending => by cases pending }
  right boundary member := by cases member

omit [Widening F W] [Binary32 F] [Binary64 W] in
theorem uniform_none (call : ProducerCall F) : call.Uniform none := by
  cases call <;> simp [ProducerCall.Uniform]

theorem drain_holds {settings : Settings} {config : RingConfig F S W}
    (reached : RingReachable adapter settings (fun _ _ => True) geometry config)
    (party : Party) : ((drainSpec adapter geometry True (fun _ _ => True) id).outline
      fun call _ => uniform_none call).Holds config party := by
  obtain ⟨ring, created, steps⟩ := reached
  have positive : 0 < geometry.capacity :=
    Nat.lt_of_lt_of_le (by decide) (create_capacity created)
  obtain ⟨-, outputDelay, delay, converter, -, initial⟩ := create_cases created
  exact (drainSpec adapter geometry True (fun _ _ => True) id).holds
    (fun call _ => uniform_none call) positive initial (initial ▸ drainInv_initial positive)
    steps party

theorem drainInv_of_idle {settings : Settings} {config : RingConfig F S W}
    (reached : RingReachable adapter settings (fun _ _ => True) geometry config)
    (idle : config.thread .consumer = .idle) : DrainInv geometry config.memory :=
  Outline.inv_of_idle _ (drain_holds reached .consumer) idle

/-- Whatever the converter answers and whoever runs when, a `Drained` word is
stored only when the boundary is exhausted. -/
theorem drained_sound {settings : Settings} {config : RingConfig F S W}
    (reached : RingReachable adapter settings (fun _ _ => True) geometry config) {party : Party}
    {call : party.Call F} {entry : Ring F S W} {word : Nat}
    {next : Unit → RingProgram F S W (party.Ret F)}
    (running : config.thread party = .running call entry (.act (.storeFinish word) next))
    (drained : FinishStatus.ofWord word = .drained) :
    DrainedSound adapter geometry word config.memory := by
  have promised := Outline.guar_of_running _ (drain_holds reached party) running
  have status : word % 4 = 1 := by
    unfold FinishStatus.ofWord at drained
    split at drained <;> first | assumption | cases drained
  cases party with
  | consumer => exact promised.2 word rfl status
  | producer =>
      obtain ⟨⟨-, wordEq⟩, -⟩ := promised
      omega

/-- The finish word a thread is about to store. -/
def storedWord (config : RingConfig F S W) (party : Party) : Option Nat :=
  match config.nextAccess party with
  | some (.storeFinish word) => some word
  | _ => none

omit [Binary32 F] [Binary64 W] [Widening F W] in
theorem running_of_storedWord {config : RingConfig F S W} {party : Party} {word : Nat}
    (stored : storedWord config party = some word) :
    ∃ call entry next,
      config.thread party = .running call entry (.act (.storeFinish word) next) := by
  unfold storedWord at stored
  split at stored
  · rename_i running
    cases stored
    exact Config.running_of_nextAccess running
  · cases stored

/-- One sample is finished and rendered, and its boundary is about to complete. -/
def drainSchedule : List (Choice (Party.Call ℚ)) :=
  uninterrupted .producer (.push [1 / 2]) ++ uninterrupted .producer .finish ++
    uninterrupted .consumer .render ++ [.invoke .consumer .render, .advance .consumer 13]

theorem drained_sound_after_one_sample :
    ∃ (geometry : Geometry) (config : RingConfig ℚ Unit ℚ),
      RingReachable unitConverter smallSettings (fun _ _ => True) geometry config ∧
      storedWord config .consumer = some 5 ∧
      DrainedSound unitConverter geometry 5 config.memory := by
  have played : ((playRing unitConverter smallSettings drainSchedule).bind
      fun played : Geometry × RingConfig ℚ Unit ℚ =>
        storedWord played.2 .consumer) = some 5 := by decide +kernel
  obtain ⟨⟨geometry, config⟩, played, stored⟩ := Option.bind_eq_some_iff.mp played
  have reached : RingReachable unitConverter smallSettings (fun _ _ => True) geometry config :=
    ringReachable_of_playRing (admitted_any drainSchedule) played
  obtain ⟨call, entry, next, running⟩ := running_of_storedWord stored
  exact ⟨geometry, config, reached, stored, drained_sound reached running (by decide)⟩

end PcmRing
