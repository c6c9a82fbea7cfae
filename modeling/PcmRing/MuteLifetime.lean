import PcmRing.MuteHistory
import PcmRing.StampIntegrity

/-!
# Mute records end with their burst

The consumer's history holds records of the current burst only, provided that
the mailbox was empty whenever a boundary completed as `Drained` and that every
record was published under the current epoch.  A render drains the mailbox
before it completes a boundary and completion does not look again, so a record
published in between waits for the next burst.
-/

namespace PcmRing

open AtomicProgram TwoLapQueue

variable {F S W : Type}

/-- No record was left over at a drained boundary or published for a past burst. -/
def Ledger.MutesContained (ledger : Ledger F S W) : Prop :=
  ledger.mutesCurrent = true ∧ ledger.drainedClear = true

/-- A record of the current burst reaches into the support of a position. -/
def Ring.Mutes (ring : Ring F S W) (position : Position) : Prop :=
  ∃ (index : Nat) (interval : Interval), ring.mutes.published[index]? = some interval ∧
    ring.ledger.records[index]? = some ring.resetSerial ∧ interval.Meets position

/-- What the mute records of a run do. -/
structure MuteLifetime (config : RingConfig F S W) : Prop where
  /-- A lookup mutes only what a record of the current burst mutes. -/
  current : ∀ {call entry history position next},
    config.thread .consumer = .running call entry (.act (.lookup history (some position)) next) →
    history.muted (some position) = true → config.memory.Mutes position
  /-- In a later burst than the one a mute call was credited for, a lookup mutes
  only what a record published after that call mutes. -/
  retired : ∀ {call entry history position next},
    config.thread .consumer = .running call entry (.act (.lookup history (some position)) next) →
    history.muted (some position) = true →
    ∀ record ∈ config.returned .producer, ∀ generation spans credited,
    record.call = .mute generation spans → record.result = .credit (some credited) →
    record.exit.producerEpoch < config.memory.resetSerial →
    ∃ (index : Nat) (interval : Interval), record.exit.mutes.published.length ≤ index ∧
      config.memory.mutes.published[index]? = some interval ∧ interval.Meets position

/-- The history and the mailbox hold records of the current burst only. -/
structure Contained (geometry : Geometry) (history : History) (ring : Ring F S W) : Prop where
  pcm : ring.pcm.Sound geometry.capacity
  mutes : ring.mutes.Sound mailboxQueue
  noted : ring.Noted
  explained : ring.ledger.MutesContained → ∀ position, history.Meets position →
    ring.Mutes position
  unread : ring.ledger.MutesContained → ∀ (index : Nat) burst,
    ring.mutes.passed.length ≤ index → ring.ledger.records[index]? = some burst →
    burst = ring.resetSerial

variable {geometry : Geometry} {resets : Prop} {history : History} {ring : Ring F S W}
  {state : ConsumerState F S W} {shape : List (SourceSample F) → List SlotNote → Prop}

theorem getElem?_of_extends {α : Type} {shorter longer : List α} (extends' : shorter <+: longer)
    {index : Nat} {value : α} (valueAt : shorter[index]? = some value) :
    longer[index]? = some value := by
  obtain ⟨more, rfl⟩ := extends'
  rw [List.getElem?_append_left (List.getElem?_eq_some_iff.mp valueAt).1]
  exact valueAt

theorem ProducerMoves.mutesContained {after : Ring F S W}
    (moves : ProducerMoves geometry shape ring after) (contained : after.ledger.MutesContained) :
    ring.ledger.MutesContained :=
  ⟨(moves.current contained.1).1, moves.drainedClear_eq ▸ contained.2⟩

theorem records_prefix_effect (op : Access F S W) (ring : Ring F S W) :
    ring.ledger.records <+: (effect geometry op ring).ledger.records := by
  cases op with
  | mutes access => cases access <;> first | exact List.prefix_refl _ | exact List.prefix_append _ _
  | pcm access => cases access <;> exact List.prefix_refl _
  | loadFinish site => cases site <;> exact List.prefix_refl _
  | _ => exact List.prefix_refl _

/-- Records that the producer adds are of the current burst. -/
theorem ProducerMoves.burst_eq {after : Ring F S W}
    (moves : ProducerMoves geometry shape ring after) (contained : after.ledger.MutesContained)
    {index burst : Nat} (late : ring.ledger.records.length ≤ index)
    (burstAt : after.ledger.records[index]? = some burst) : burst = ring.resetSerial := by
  refine (moves.current contained.1).2 burst (List.mem_of_getElem? (i := index -
    ring.ledger.records.length) ?_)
  rw [List.getElem?_drop, Nat.add_sub_cancel' late]
  exact burstAt

theorem Ring.Mutes.stable {after : Ring F S W} {position : Position} (mutes : ring.Mutes position)
    (moves : ProducerMoves geometry shape ring after) : after.Mutes position := by
  obtain ⟨index, interval, intervalAt, burstAt, meets⟩ := mutes
  refine ⟨index, interval, ?_, ?_, meets⟩
  · exact getElem?_of_extends moves.records_published_prefix intervalAt
  · rw [moves.serial_eq]
    exact getElem?_of_extends moves.records_prefix burstAt

theorem Contained.stable {after : Ring F S W} (holds : Contained geometry history ring)
    (moves : ProducerMoves geometry shape ring after) : Contained geometry history after where
  pcm := (moves.pcm holds.pcm).1
  mutes := (moves.mutes holds.mutes).1
  noted := moves.noted holds.noted
  explained contained position met :=
    (holds.explained (moves.mutesContained contained) position met).stable moves
  unread contained index burst waiting burstAt := by
    rw [(moves.mutes holds.mutes).2.passed_eq] at waiting
    rw [moves.serial_eq]
    by_cases earlier : index < ring.ledger.records.length
    · refine holds.unread (moves.mutesContained contained) index burst waiting ?_
      have before := List.getElem?_eq_getElem earlier
      rw [getElem?_of_extends moves.records_prefix before] at burstAt
      exact before.trans burstAt
    · exact moves.burst_eq contained (Nat.not_lt.mp earlier) burstAt

theorem Contained.steady (history : History) : Steady geometry (ProducerMoves geometry shape)
    fun ring : Ring F S W => Contained geometry history ring where
  stable moves holds := holds.stable moves
  pcm _ holds := holds.pcm
  mutes _ holds := holds.mutes
  counter _ _ _ holds _ := { holds with }
  correction _ _ holds := { holds with }

theorem Contained.retire (holds : Contained geometry history ring) (position : Option Position) :
    Contained geometry (history.retire position) ring :=
  { holds with
    explained := fun contained met meets => by
      refine holds.explained contained met ?_
      cases position with
      | none => exact meets
      | some position =>
          obtain ⟨interval, member, reaches⟩ := meets
          exact ⟨interval, (List.dropWhile_sublist _).subset member, reaches⟩ }

/-- A popped record of the current burst joins the history. -/
theorem Contained.receive {interval : Interval} {rest : List Interval}
    (holds : Contained geometry history ring)
    (unreadEq : ring.mutes.unread mailboxQueue = interval :: rest) :
    Contained geometry (history.insert interval).2 (popRecord geometry interval ring) := by
  have sound : (popRecord geometry interval ring).mutes.Sound mailboxQueue :=
    Channel.sound_reader holds.mutes ⟨rfl, rest, unreadEq⟩
  have passedEq : (popRecord geometry interval ring).mutes.passed =
      ring.mutes.passed ++ [interval] := by
    change (ring.mutes.exec mailboxQueue (.advanceRead _ interval)).2.passed = _
    exact Channel.passed_advanceRead interval
  have popped : ring.mutes.published[ring.mutes.passed.length]? = some interval := by
    rw [holds.mutes.published_eq, unreadEq, List.getElem?_append_right (Nat.le_refl _),
      Nat.sub_self]
    rfl
  refine ⟨holds.pcm, sound, holds.noted, fun contained position met => ?_,
    fun contained index burst waiting => ?_⟩
  · rcases History.meets_of_insert met with meets | earlier
    · have inside : ring.mutes.passed.length < ring.ledger.records.length := by
        rw [holds.noted.2]
        exact (List.getElem?_eq_some_iff.mp popped).1
      have burstAt := List.getElem?_eq_getElem inside
      have burstEq := holds.unread contained _ _ (Nat.le_refl _) burstAt
      exact ⟨_, interval, popped, burstEq ▸ burstAt, meets⟩
    · exact holds.explained contained position earlier
  · refine holds.unread contained index burst (Nat.le_of_succ_le ?_)
    rw [passedEq, List.length_append] at waiting
    exact waiting

theorem Contained.takeSlot {slot : SourceSample F} {rest : List (SourceSample F)}
    (holds : Contained geometry history ring)
    (unreadEq : ring.pcm.unread geometry.capacity = slot :: rest) :
    Contained geometry history (takeSlot geometry slot ring) :=
  { holds with pcm := takeSlot_sound holds.pcm unreadEq }

variable [Binary32 F] [Binary64 W] {adapter : Adapter F W S}

/-- What the consumer promises about its lookups. -/
def LookupGuar (op : Access F S W) (ring : Ring F S W) : Prop :=
  ∀ history position, op = .lookup history (some position) →
    history.muted (some position) = true → ring.ledger.MutesContained → ring.Mutes position

omit [Binary32 F] [Binary64 W] in
theorem lookupSide (resets : Prop) : ConsumerSide geometry resets shape
    (ProducerMoves (F := F) (S := S) (W := W) geometry shape) LookupGuar where
  order := ⟨.refl, .trans⟩
  moves := id
  permits _ _ _ plain history position same := by
    rw [same] at plain
    exact plain.elim

omit [Binary32 F] [Binary64 W] in
theorem Contained.lookup (holds : Contained geometry history ring)
    (position : Option Position) : LookupGuar (.lookup history position) ring := by
  intro history' position' same muted contained
  cases same
  exact holds.explained contained _ (History.meets_of_muted muted)

/-- The history is contained in every phase of a refill. -/
def containedOutline (geometry : Geometry) : RefillOutline F S W where
  ready state := Contained geometry state.muteHistory
  filled state := Contained geometry state.muteHistory
  steered state := Contained geometry state.muteHistory
  refilled _ state := Contained geometry state.muteHistory

omit [Binary64 W] [Binary32 F] in
theorem Contained.keeps {after : ConsumerState F S W}
    (holds : Contained geometry state.muteHistory ring) (keeps : state.Keeps after) :
    Contained geometry after.muteHistory ring :=
  keeps.muteHistory_eq ▸ holds

theorem containedRefill : RefillSteps adapter geometry (ProducerMoves geometry shape)
    (containedOutline geometry) where
  readySteady _ := Contained.steady _
  filledSteady _ := Contained.steady _
  steeredSteady _ := Contained.steady _
  refilledSteady _ _ := Contained.steady _
  refused _ _ holds _ := holds
  cached _ _ holds _ _ := holds
  space state _ wanted holds _ := holds.keeps (state.makeInputSpace_keeps wanted _)
  take state ring slot rest holds _ _ _ unreadEq := by
    have taken := (holds.takeSlot unreadEq).keeps
      (state.acceptSource_keeps geometry.gapCapacity slot)
    exact ⟨fun _ => taken, fun _ => taken⟩
  fill _ _ holds _ _ := holds
  pad state _ holds _ := holds.keeps (state.padInput_keeps _)
  stalled _ _ holds _ _ _ _ := holds
  query _ _ holds _ := ⟨fun _ => holds, fun _ => holds⟩
  steer _ _ _ holds _ _ := holds
  nominal _ _ holds _ _ := holds
  keep _ _ holds _ _ := holds
  convert state ring holds _ := by
    change Contained geometry (state.convert adapter geometry _).2.muteHistory ring
    rw [(state.convert_cases adapter geometry _).keeps.2.2]
    exact holds

/-- The consumer's history is contained between calls. -/
abbrev ContainedInv (geometry : Geometry) (ring : Ring F S W) : Prop :=
  Contained geometry ring.consumer.muteHistory ring

omit [Binary32 F] [Binary64 W] in
theorem Contained.leave {errored : Bool} (holds : Contained geometry state.muteHistory ring) :
    ContainedInv geometry (effect geometry (.leave state errored) ring) :=
  { holds with }

omit [Binary32 F] [Binary64 W] in
theorem ContainedInv.stable {after : Ring F S W} (holds : ContainedInv geometry ring)
    (moves : ProducerMoves geometry shape ring after) : ContainedInv geometry after := by
  unfold ContainedInv
  rw [moves.consumer_eq]
  exact Contained.stable holds moves

omit [Binary32 F] [Binary64 W] in
/-- Behind a mailbox drop only records of the current burst are left. -/
theorem Contained.cleared {early current : Ring F S W} (noted : early.Noted)
    (pcm : early.pcm.Sound geometry.capacity) (mutes : early.mutes.Sound mailboxQueue)
    (moves : ProducerMoves geometry shape (effect geometry (.mutes .snapshotWritten) early)
      current)
    (permitted : ConsumerPermits geometry resets
      (.mutes (.discardTo early.mutes.queue.written)) current) :
    Contained geometry history.clear
      (effect geometry (.mutes (.discardTo early.mutes.queue.written)) current) where
  pcm := (moves.pcm pcm).1
  mutes := Channel.sound_reader (moves.mutes (Channel.sound_reader mutes trivial)).1 permitted
  noted := moves.noted noted
  explained _ position met := by
    obtain ⟨interval, member, -⟩ := met
    cases member
  unread contained index burst waiting burstAt := by
    obtain ⟨sound, writes⟩ := moves.mutes (Channel.sound_reader mutes trivial)
    have passedEq : (effect geometry (.mutes (.discardTo early.mutes.queue.written))
        current).mutes.passed.length = current.mutes.snapshot :=
      Channel.passed_length_discardTo sound permitted
    have snapshotEq : current.mutes.snapshot = early.mutes.published.length :=
      writes.snapshot_eq
    rw [passedEq, snapshotEq, ← noted.2] at waiting
    exact (moves.burst_eq contained waiting burstAt).trans moves.serial_eq.symm

/-- The memory while a boundary is being completed. -/
structure Clearing (geometry : Geometry) (ring : Ring F S W) : Prop where
  pcm : ring.pcm.Sound geometry.capacity
  mutes : ring.mutes.Sound mailboxQueue
  noted : ring.Noted

omit [Binary32 F] [Binary64 W] in
theorem clearingSteady : Steady geometry (ProducerMoves geometry shape)
    (Clearing (F := F) (S := S) (W := W) geometry) where
  stable moves holds :=
    ⟨(moves.pcm holds.pcm).1, (moves.mutes holds.mutes).1, moves.noted holds.noted⟩
  pcm _ holds := holds.pcm
  mutes _ holds := holds.mutes
  counter _ _ _ holds _ := { holds with }
  correction _ _ holds := { holds with }

omit [Binary32 F] [Binary64 W] in
theorem Clearing.discards (op : Access F S W) (ring : Ring F S W)
    (holds : Clearing geometry ring) (permitted : ConsumerPermits geometry resets op ring)
    (discards : op.Discards) : Clearing geometry (effect geometry op ring) := by
  cases op with
  | pcm access =>
      have sound := Channel.sound_reader holds.pcm permitted
      cases access with
      | snapshotWritten | discardTo => exact ⟨sound, holds.mutes, holds.noted⟩
      | _ => exact discards.elim
  | mutes access =>
      have sound := Channel.sound_reader holds.mutes permitted
      cases access with
      | snapshotWritten | discardTo => exact ⟨holds.pcm, sound, holds.noted⟩
      | _ => exact discards.elim
  | _ => exact discards.elim

/-- Completing a boundary empties the history; a drained one leaves an empty
mailbox, a failed one drops what is in it. -/
theorem safe_completeContained {boundary : Finite} {adapterFailed : Bool}
    (holds : Contained geometry state.muteHistory ring) :
    (completeFinite adapter geometry boundary adapterFailed state).Safe (exec geometry)
      (ProducerMoves geometry shape) LookupGuar (fun _ exit => ContainedInv geometry exit)
      ring := by
  have side : ConsumerSide geometry True shape
      (ProducerMoves (F := F) (S := S) (W := W) geometry shape) LookupGuar := lookupSide True
  refine side.safe_completeFinite clearingSteady (Contained.steady state.muteHistory.clear)
    (Contained.steady state.muteHistory.clear) ?_ (fun _ => Clearing.discards) ?_ ?_ ?_ ?_
  · intro first firstMoves
    refine ⟨fun history position same => (by cases same), fun second secondMoves => ?_⟩
    have firstHolds := holds.stable firstMoves
    have retired : Clearing geometry (effect geometry (.retire state) first) :=
      ⟨firstHolds.pcm, firstHolds.mutes, firstHolds.noted⟩
    have secondHolds := clearingSteady.stable secondMoves retired
    exact ⟨fun history position same => (by cases same),
      ⟨secondHolds.pcm, secondHolds.mutes, secondHolds.noted⟩⟩
  · intro _ early current earlyHolds moves permitted
    exact Contained.cleared earlyHolds.noted earlyHolds.pcm earlyHolds.mutes moves permitted
  · intro _ _ current currentHolds
    refine ⟨fun history position same => (by cases same), ⟨currentHolds.pcm, currentHolds.mutes,
      currentHolds.noted, fun _ position met => ?_, fun contained index burst waiting burstAt => ?_⟩⟩
    · obtain ⟨interval, member, -⟩ := met
      cases member
    · have clear := (Bool.and_eq_true_iff.mp contained.2).2
      have drained : (boundary.token * 4 + FinishStatus.drained.bits) % 4 = 1 := by
        simp only [FinishStatus.bits]
        omega
      rw [decide_eq_false (not_not.mpr drained), Bool.false_or, List.isEmpty_iff] at clear
      have lengths : current.ledger.records.length = current.mutes.passed.length := by
        rw [currentHolds.noted.2, currentHolds.mutes.published_eq, clear, List.append_nil]
      have inside : index < current.ledger.records.length :=
        (List.getElem?_eq_some_iff.mp burstAt).1
      exact absurd inside (Nat.not_lt.mpr (lengths ▸ waiting))
  · intro _ current currentHolds
    refine ⟨fun history position same => (by cases same), ?_⟩
    have kept (contained : (effect geometry (.storeFinish
        (boundary.token * 4 + FinishStatus.adapterError.bits)) current).ledger.MutesContained) :
        current.ledger.MutesContained :=
      ⟨contained.1, (Bool.and_eq_true_iff.mp contained.2).1⟩
    exact { currentHolds with
      explained := fun contained => currentHolds.explained (kept contained)
      unread := fun contained => currentHolds.unread (kept contained) }
  · intro current errored _ currentHolds after moves
    exact ContainedInv.stable (Contained.leave currentHolds) moves

theorem safe_drainContained {boundary : Finite}
    (holds : Contained geometry state.muteHistory ring) :
    (drainFinite adapter geometry boundary state).Safe (exec geometry)
      (ProducerMoves geometry shape) LookupGuar (fun _ exit => ContainedInv geometry exit)
      ring := by
  have side : ConsumerSide geometry True shape
      (ProducerMoves (F := F) (S := S) (W := W) geometry shape) LookupGuar := lookupSide True
  refine side.safe_drainFinite (Contained.steady state.muteHistory) ?_ ?_ ?_ ?_
  · intro _ current moves
    exact { holds.stable moves with }
  · exact fun position current currentHolds => currentHolds.lookup position
  · intro _ current currentHolds after moves
    refine ContainedInv.stable (Contained.leave ?_) moves
    obtain ⟨plc, releaseEq⟩ := release_cases geometry state boundary
    rw [releaseEq]
    exact currentHolds.retire _
  · exact fun _ => safe_completeContained holds

section Render

variable [Widening F W]

theorem emission_muteHistory (geometry : Geometry) (result : RefillResult)
    (state : ConsumerState F S W) : ∃ position,
      (state.emission geometry result).state.muteHistory = state.muteHistory.retire position := by
  have kept (input : Option F) : (if (state.popped result).2.resetFailed
      then ((0, false), (state.popped result).2)
      else (state.popped result).2.concealed input).2.muteHistory = state.muteHistory := by
    have popped : (state.popped result).2.muteHistory = state.muteHistory := by
      unfold ConsumerState.popped
      split <;> rfl
    split
    · exact popped
    · obtain ⟨plc, concealedEq⟩ := ConsumerState.concealed_state input (state.popped result).2
      rw [concealedEq]
      exact popped
  unfold ConsumerState.emission ConsumerState.retirePosition
  dsimp only
  obtain ⟨plcPositions, plcPosition, delayedEq⟩ := ConsumerState.delayPosition_state
    geometry.lookahead (if result = .ready then state.cachePosition else none) _
  rw [delayedEq]
  exact ⟨_, congrArg (History.retire _) (kept _)⟩

theorem containedRender : RenderSteps adapter geometry (ProducerMoves geometry shape) LookupGuar
    (fun _ exit => ContainedInv geometry exit)
    (fun state => Contained geometry state.muteHistory) (containedOutline geometry) where
  toRefillSteps := containedRefill
  awakeSteady _ := Contained.steady _
  start _ _ holds _ _ _ := holds
  again _ _ holds _ := holds
  wake _ _ holds := holds
  prime _ _ holds _ := ⟨fun _ _ _ _ _ => holds, fun _ => holds⟩
  fault state ring holds _ :=
    (lookupSide True).safe_reportFault (Contained.steady _) holds
      fun _ currentHolds _ moves => ContainedInv.stable (Contained.leave currentHolds) moves
  refilledFault _ state ring holds _ _ :=
    (lookupSide True).safe_reportFault (Contained.steady _) holds
      fun _ currentHolds _ moves => ContainedInv.stable (Contained.leave currentHolds) moves
  idle state early ring holds moves _ _ _ :=
    (lookupSide True).safe_leave (Contained.steady _) (holds.stable moves)
      fun _ currentHolds _ later => ContainedInv.stable (Contained.leave currentHolds) later
  unprimed state early ring holds moves _ _ _ _ :=
    (lookupSide True).safe_leave (Contained.steady _) (holds.stable moves)
      fun _ currentHolds _ later => ContainedInv.stable (Contained.leave currentHolds) later
  drain _ _ _ holds _ _ _ := safe_drainContained holds
  past _ _ _ holds _ _ := safe_drainContained holds
  fail _ _ _ _ holds _ _ := safe_completeContained holds
  emit result state ring holds _ := by
    have steady : Steady geometry (ProducerMoves geometry shape)
        (Contained (F := F) (S := S) (W := W) geometry state.muteHistory) := Contained.steady _
    refine (lookupSide True).safe_emit steady steady holds ?_ ?_ ?_ ?_ ?_
    · exact fun position current currentHolds => currentHolds.lookup position
    · exact fun current currentHolds _ => { currentHolds with }
    · exact fun current currentHolds _ => currentHolds
    · exact fun position current currentHolds => currentHolds.lookup position
    · intro current currentHolds after moves
      refine ContainedInv.stable (Contained.leave ?_) moves
      obtain ⟨position, historyEq⟩ := emission_muteHistory geometry result state
      rw [historyEq]
      exact currentHolds.retire position

omit [Binary32 F] [Binary64 W] [Widening F W] in
theorem containedStart : DrainSteps geometry (ProducerMoves geometry shape)
    (fun state => Contained geometry state.muteHistory)
    (fun _ state => Contained geometry state.muteHistory)
    (fun state : ConsumerState F S W => Contained geometry state.muteHistory) where
  startedSteady _ := Contained.steady _
  drainingSteady _ _ := Contained.steady _
  capture _ _ holds _ _ := holds
  uncaptured _ _ holds _ := holds
  receive _ _ _ _ _ holds unreadEq := holds.receive unreadEq
  emptied _ _ _ holds _ := holds
  bounded _ _ holds := holds

/-- The consumer's half of the outline: the accounts, and the contained history. -/
def containedSpec (adapter : Adapter F W S) (geometry : Geometry) :
    ConsumerSpec adapter geometry False none rendersOnly :=
  (drainSpec adapter geometry False rendersOnly fun reset => by cases reset).also
    (ContainedInv geometry) LookupGuar (fun moves holds => holds.stable moves)
    fun call ring admitted _ holds => by
      obtain rfl : call = .render := admitted
      refine Program.Safe.bind ⟨.refl, .trans⟩ (Program.Safe.mono (fun rendered exit exitHolds => ?_)
        (safe_consumerRenderSample (lookupSide True) containedStart containedRender
          holds))
      exact fun last moves => ContainedInv.stable exitHolds moves

/-- In every run that leaves no record behind, mute records end with their burst. -/
theorem mute_lifetime {settings : Settings} {config : RingConfig F S W}
    (reached : RingReachable adapter settings rendersOnly geometry config)
    (contained : config.memory.ledger.MutesContained) : MuteLifetime config := by
  obtain ⟨ring, created, steps⟩ := reached
  have positive : 0 < geometry.capacity :=
    Nat.lt_of_lt_of_le (by decide) (create_capacity created)
  obtain ⟨-, outputDelay, delay, converter, -, initial⟩ := create_cases created
  let spec := containedSpec adapter geometry
  have uniform (call : ProducerCall F) (_ : rendersOnly .producer call) : call.Uniform none :=
    uniform_none call
  have start : spec.inv ring := by
    refine ⟨initial ▸ drainInv_initial positive, ?_⟩
    subst initial
    refine ⟨Channel.sound_empty positive, Channel.sound_empty (by decide), ⟨rfl, rfl⟩,
      fun _ position met => ?_, fun _ index burst _ burstAt => by cases burstAt⟩
    obtain ⟨interval, member, -⟩ := met
    cases member
  have judged := spec.holds uniform positive initial start steps
  have current {call entry history position next}
      (running : config.thread .consumer =
        .running call entry (.act (.lookup history (some position)) next))
      (muted : history.muted (some position) = true) : config.memory.Mutes position :=
    (Outline.guar_of_running _ (judged .consumer) running).2 history position rfl muted contained
  refine ⟨current, fun running muted record member generation spans credited callEq resultEq
    later => ?_⟩
  obtain ⟨index, interval, intervalAt, burstAt, meets⟩ := current running muted
  have post := Outline.post_of_returned _ (judged .producer) member
  change ProducerPost False record.call record.entry record.result record.exit at post
  rw [callEq, resultEq] at post
  obtain ⟨stop, -, -, lengths, bounded⟩ := post
  have extended : record.exit.ledger.records <+: config.memory.ledger.records :=
    related_of_returned (fun before after : Ring F S W =>
      before.ledger.records <+: after.ledger.records)
      ⟨fun _ => List.prefix_refl _, List.IsPrefix.trans⟩ records_prefix_effect steps member
  refine ⟨index, interval, ?_, intervalAt, meets⟩
  by_contra earlier
  have inside : index < record.exit.ledger.records.length := lengths ▸ Nat.not_le.mp earlier
  have before := List.getElem?_eq_getElem inside
  rw [getElem?_of_extends extended before] at burstAt
  have bound := bounded _ (List.mem_of_getElem? (before.trans burstAt))
  omega

end Render

/-- The lookup of a known position that the consumer is about to make. -/
def nextLookup (config : RingConfig F S W) : Option (History × Position) :=
  match config.nextAccess .consumer with
  | some (.lookup history (some position)) => some (history, position)
  | _ => none

omit [Binary32 F] [Binary64 W] in
theorem running_of_nextLookup {config : RingConfig F S W} {position : Position}
    (looks : nextLookup config = some (history, position)) : ∃ call entry next,
      config.thread .consumer =
        .running call entry (.act (.lookup history (some position)) next) := by
  unfold nextLookup at looks
  split at looks
  · rename_i running
    cases looks
    exact Config.running_of_nextAccess running
  · cases looks

/-- A burst with a credited mute drains, and the next one mutes its first sample
again. -/
def mutedTwiceSchedule : List (Choice (Party.Call ℚ)) :=
  uninterrupted .producer (.pushTagged [1 / 2] 1 0 []) ++
    uninterrupted .producer (.mute 1 [⟨0, 1⟩]) ++ uninterrupted .consumer .render ++
    uninterrupted .producer .finish ++ uninterrupted .consumer .render ++
    uninterrupted .producer (.status 1) ++
    uninterrupted .producer (.pushTagged [1 / 4] 1 0 []) ++
    uninterrupted .producer (.mute 1 [⟨0, 1⟩]) ++
    [.invoke .consumer .render, .advance .consumer 22]

/-- The lookup for the second sample mutes it, and only through the record that
was published after the drained burst. -/
theorem mute_lifetime_across_a_boundary :
    ∃ (geometry : Geometry) (config : RingConfig ℚ Unit ℚ) (history : History),
      RingReachable unitConverter smallSettings rendersOnly geometry config ∧
      (config.returned .producer).map (fun record => (record.call, record.result)) =
        [(.pushTagged [1 / 2] 1 0 [], .credit (some 1)), (.mute 1 [⟨0, 1⟩], .credit (some 1)),
          (.finish, .token (some 1)), (.status 1, .status (some .drained)),
          (.pushTagged [1 / 4] 1 0 [], .credit (some 1)),
          (.mute 1 [⟨0, 1⟩], .credit (some 1))] ∧
      config.memory.resetSerial = 1 ∧ config.memory.ledger.records = [0, 1] ∧
      nextLookup config = some (history, ⟨1, 0, 0, Nat.le_refl 0⟩) ∧
      history.muted (some ⟨1, 0, 0, Nat.le_refl 0⟩) = true ∧
      config.memory.Mutes ⟨1, 0, 0, Nat.le_refl 0⟩ ∧
      ∃ (index : Nat) (interval : Interval), 1 ≤ index ∧
        config.memory.mutes.published[index]? = some interval ∧
        interval.Meets ⟨1, 0, 0, Nat.le_refl 0⟩ := by
  let shown (_ : Geometry) (config : RingConfig ℚ Unit ℚ) : Bool :=
    (config.memory.ledger.mutesCurrent && config.memory.ledger.drainedClear) &&
    (decide ((config.returned .producer).map (fun record => (record.call, record.result)) =
      [(.pushTagged [1 / 2] 1 0 [], .credit (some 1)), (.mute 1 [⟨0, 1⟩], .credit (some 1)),
        (.finish, .token (some 1)), (.status 1, .status (some .drained)),
        (.pushTagged [1 / 4] 1 0 [], .credit (some 1)),
        (.mute 1 [⟨0, 1⟩], .credit (some 1))]) &&
      (decide (config.memory.resetSerial = 1) && decide (config.memory.ledger.records = [0, 1]) &&
        ((nextLookup config).any (fun (history, position) =>
          decide (position = ⟨1, 0, 0, Nat.le_refl 0⟩) && history.muted (some position)) &&
        (config.returned .producer)[1]?.any fun record =>
          decide (record.call = .mute 1 [⟨0, 1⟩] ∧ record.result = .credit (some 1) ∧
            record.exit.producerEpoch = 0 ∧ record.exit.mutes.published.length = 1))))
  have played : (playRing unitConverter smallSettings mutedTwiceSchedule).any
      (fun played => shown played.1 played.2) = true := by decide +kernel
  have admitted : ∀ choice ∈ mutedTwiceSchedule, choice.Admitted rendersOnly := by
    simp [mutedTwiceSchedule, uninterrupted, Choice.Admitted, rendersOnly]
  obtain ⟨geometry, config, reached, shows⟩ := reachable_of_plays _ _ _ shown admitted played
  simp only [Bool.and_eq_true, decide_eq_true_eq, Option.any_eq_true, shown] at shows
  obtain ⟨contained, returnedEq, ⟨serialEq, recordsEq⟩, ⟨⟨history, position⟩, looks, positionEq,
    muted⟩, record, recordAt, callEq, resultEq, epochEq, publishedEq⟩ := shows
  subst positionEq
  have lifetime := mute_lifetime reached contained
  obtain ⟨call, entry, next, running⟩ := running_of_nextLookup looks
  obtain ⟨index, interval, later, intervalAt, meets⟩ := lifetime.retired running muted record
    (List.mem_of_getElem? recordAt) _ _ _ callEq resultEq (by rw [epochEq, serialEq]; decide)
  exact ⟨geometry, config, history, reached, returnedEq, serialEq, recordsEq, looks, muted,
    lifetime.current running muted, index, interval, publishedEq ▸ later, intervalAt, meets⟩

/-- A mute is credited after the mailbox drain of the render that completes the
boundary, and waits for the next burst. -/
def leftoverSchedule : List (Choice (Party.Call ℚ)) :=
  burstSchedule ++ [.invoke .consumer .render, .advance .consumer 4] ++
    uninterrupted .producer (.mute 1 [⟨0, 1⟩]) ++ [.complete .consumer 2000] ++
    uninterrupted .producer (.status 1) ++
    uninterrupted .producer (.pushTagged [1 / 4] 1 0 []) ++
    [.invoke .consumer .render, .advance .consumer 22]

/-- The interval of a drained burst mutes the sample of the next one. -/
theorem mute_left_over :
    ∃ (geometry : Geometry) (config : RingConfig ℚ Unit ℚ) (history : History),
      RingReachable unitConverter smallSettings rendersOnly geometry config ∧
      (config.returned .producer).map (fun record => (record.call, record.result)) =
        [(.pushTagged [1 / 2] 1 0 [], .credit (some 1)), (.finish, .token (some 1)),
          (.mute 1 [⟨0, 1⟩], .credit (some 1)), (.status 1, .status (some .drained)),
          (.pushTagged [1 / 4] 1 0 [], .credit (some 1))] ∧
      config.memory.resetSerial = 1 ∧ config.memory.ledger.records = [0] ∧
      nextLookup config = some (history, ⟨1, 0, 0, Nat.le_refl 0⟩) ∧
      history.muted (some ⟨1, 0, 0, Nat.le_refl 0⟩) = true ∧ ¬MuteLifetime config := by
  let shown (_ : Geometry) (config : RingConfig ℚ Unit ℚ) : Bool :=
    decide ((config.returned .producer).map (fun record => (record.call, record.result)) =
      [(.pushTagged [1 / 2] 1 0 [], .credit (some 1)), (.finish, .token (some 1)),
        (.mute 1 [⟨0, 1⟩], .credit (some 1)), (.status 1, .status (some .drained)),
        (.pushTagged [1 / 4] 1 0 [], .credit (some 1))]) &&
      (decide (config.memory.resetSerial = 1) && decide (config.memory.ledger.records = [0]) &&
        (nextLookup config).any fun (history, position) =>
          decide (position = ⟨1, 0, 0, Nat.le_refl 0⟩) && history.muted (some position))
  have played : (playRing unitConverter smallSettings leftoverSchedule).any
      (fun played => shown played.1 played.2) = true := by decide +kernel
  have admitted : ∀ choice ∈ leftoverSchedule, choice.Admitted rendersOnly := by
    simp [leftoverSchedule, burstSchedule, uninterrupted, Choice.Admitted, rendersOnly]
  obtain ⟨geometry, config, reached, shows⟩ := reachable_of_plays _ _ _ shown admitted played
  simp only [Bool.and_eq_true, decide_eq_true_eq, Option.any_eq_true, shown] at shows
  obtain ⟨returnedEq, ⟨serialEq, recordsEq⟩, ⟨history, position⟩, looks, positionEq, muted⟩ := shows
  subst positionEq
  refine ⟨geometry, config, history, reached, returnedEq, serialEq, recordsEq, looks, muted,
    fun lifetime => ?_⟩
  obtain ⟨call, entry, next, running⟩ := running_of_nextLookup looks
  obtain ⟨index, interval, -, burstAt, -⟩ := lifetime.current running muted
  rw [recordsEq, serialEq] at burstAt
  have member := List.mem_of_getElem? burstAt
  simp at member

end PcmRing
