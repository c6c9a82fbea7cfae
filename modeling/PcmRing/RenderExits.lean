import PcmRing.ConsumerRules

/-!
# The ends of a render

Every render ends by reporting a fault, staying silent, emitting an output,
releasing one lookahead sample, or completing its boundary.  The rules here ask
only what an assertion has to survive in each of them.
-/

namespace PcmRing

open AtomicProgram TwoLapQueue

variable {F S W : Type}

/-- What is fed onward, what is played, and the consumer state left behind by
one emitted output. -/
structure Emission (F S W : Type) where
  input : Option F
  rendered : Rendered F
  state : ConsumerState F S W

namespace ConsumerState

variable [Binary32 F] [Binary64 W] [Widening F W]

/-- An emitted output, as a function of the consumer state alone. -/
def emission (geometry : Geometry) (result : RefillResult) (state : ConsumerState F S W) :
    Emission F S W :=
  let position := if result = .ready then state.cachePosition else none
  let cached := state.popped result
  let input := if state.muteHistory.muted position then some 0 else cached.1
  let output := if cached.2.resetFailed then ((0, false), cached.2) else cached.2.concealed input
  let delayed := output.2.delayPosition geometry.lookahead position
  { input := input
    rendered := (if state.muteHistory.muted delayed.1 then 0 else output.1.1, output.1.2,
      decide (result = .adapterError))
    state := delayed.2.retirePosition delayed.1 }

theorem concealed_state (input : Option F) (state : ConsumerState F S W) : ∃ plc,
    (state.concealed input).2 = { state with plc := plc } := by
  unfold concealed
  split
  · exact ⟨_, rfl⟩
  · exact ⟨state.plc, rfl⟩

omit [Binary32 F] [Binary64 W] [Widening F W] in
theorem delayPosition_state (lookahead : Nat) (position : Option Position)
    (state : ConsumerState F S W) : ∃ plcPositions plcPosition,
    (state.delayPosition lookahead position).2 =
      { state with plcPositions := plcPositions, plcPosition := plcPosition } := by
  unfold delayPosition
  split <;> exact ⟨_, _, rfl⟩

/-- An emission only changes the cache, concealment and the mute history. -/
theorem emission_state (geometry : Geometry) (result : RefillResult)
    (state : ConsumerState F S W) : ∃ plc plcPositions plcPosition muteHistory,
      (state.emission geometry result).state = { (state.popped result).2 with
        plc := plc, plcPositions := plcPositions, plcPosition := plcPosition
        muteHistory := muteHistory } := by
  have output : ∀ input, ∃ plc, (if (state.popped result).2.resetFailed
      then ((0, false), (state.popped result).2)
      else (state.popped result).2.concealed input).2 =
        { (state.popped result).2 with plc := plc } := by
    intro input
    split
    · exact ⟨_, rfl⟩
    · exact concealed_state input _
  unfold emission retirePosition
  dsimp only
  obtain ⟨plcPositions, plcPosition, delayedEq⟩ := delayPosition_state geometry.lookahead
    (if result = .ready then state.cachePosition else none) _
  obtain ⟨plc, outputEq⟩ := output _
  rw [delayedEq, outputEq]
  exact ⟨plc, plcPositions, plcPosition, _, rfl⟩

omit [Binary64 W] [Widening F W] in
/-- The sample and the state of one lookahead release. -/
def release (geometry : Geometry) (boundary : Finite) (state : ConsumerState F S W) :
    Rendered F × ConsumerState F S W :=
  let drained := state.drainLookahead geometry.lookahead boundary
  let position := state.plcPositions state.plcPosition
  ((if state.muteHistory.muted position then 0 else drained.1.1, drained.1.2, false),
    drained.2.retirePosition position)

end ConsumerState

/-- The accesses that drop everything up to a snapshot. -/
def Access.Discards : Access F S W → Prop
  | .pcm .snapshotWritten | .pcm (.discardTo _) | .mutes .snapshotWritten
  | .mutes (.discardTo _) => True
  | _ => False

/-- Dropping the mailbox is two drops to an assertion that no drop disturbs. -/
theorem clears_of_discards {geometry : Geometry} {resets : Prop}
    {rely : Ring F S W → Ring F S W → Prop} {assertion : Ring F S W → Prop}
    (steady : Steady geometry rely assertion)
    (discards : ∀ op current, assertion current → ConsumerPermits geometry resets op current →
      op.Discards → assertion (effect geometry op current))
    (early current : Ring F S W) (holds : assertion early)
    (moves : rely (effect geometry (.mutes .snapshotWritten) early) current)
    (permitted : ConsumerPermits geometry resets
      (.mutes (.discardTo early.mutes.queue.written)) current) :
    assertion (effect geometry (.mutes (.discardTo early.mutes.queue.written)) current) :=
  discards _ current (steady.stable moves (discards _ early holds trivial trivial)) permitted
    trivial

namespace ConsumerSide

variable {geometry : Geometry} {resets : Prop}
  {shape : List (SourceSample F) → List SlotNote → Prop}
  {rely : Ring F S W → Ring F S W → Prop} {guar : Access F S W → Ring F S W → Prop}
  {ring : Ring F S W} {post : Rendered F → Ring F S W → Prop}
  (side : ConsumerSide geometry resets shape rely guar)

include side

omit side in
theorem safe_lookup {β : Type} {post : β → Ring F S W → Prop} {assertion : Ring F S W → Prop}
    {history : History} {position : Option Position} (steady : Steady geometry rely assertion)
    (holds : assertion ring) (permitted : ∀ current, assertion current →
      guar (.lookup history position) current)
    {next : Bool → RingProgram F S W β}
    (safe : ∀ current, assertion current →
      (next (history.muted position)).Safe (exec geometry) rely guar post current) :
    (access (.lookup history position) >>= next).Safe (exec geometry) rely guar post ring := by
  refine safe_answer (.lookup history position) trivial fun current moves => ?_
  have currentHolds := steady.stable moves holds
  exact ⟨permitted current currentHolds, safe current currentHolds⟩

theorem safe_countFailure {β : Type} {post : β → Ring F S W → Prop}
    {assertion : Ring F S W → Prop} {failed : Bool} (steady : Steady geometry rely assertion)
    (holds : assertion ring) {next : Unit → RingProgram F S W β}
    (safe : ∀ current, assertion current →
      (next ()).Safe (exec geometry) rely guar post current) :
    (countFailure failed >>= next).Safe (exec geometry) rely guar post ring := by
  cases failed with
  | false => exact safe ring holds
  | true =>
      simp only [countFailure, if_true, bind_assoc]
      exact side.safe_addCounter (by simp) steady holds fun _ current currentHolds =>
        safe current currentHolds

section Emit

variable [Binary32 F] [Binary64 W] [Widening F W]

/-- Emitting an output: its own support is looked up first, then the one that
waited for the lookahead. -/
theorem safe_emitSupports {result : RefillResult} {state : ConsumerState F S W}
    {emitting fed : Ring F S W → Prop} (emittingSteady : Steady geometry rely emitting)
    (fedSteady : Steady geometry rely fed) (holds : emitting ring)
    (lookup : ∀ current, emitting current → guar (.lookup state.muteHistory
      (if result = .ready then state.cachePosition else none)) current)
    (feed : ∀ current, emitting current → state.resetFailed = false →
      fed (effect geometry (.feed (state.emission geometry result).input) current))
    (silent : ∀ current, emitting current → state.resetFailed = true → fed current)
    (lookupFed : ∀ current, fed current → guar (.lookup state.muteHistory
      (state.delayPosition geometry.lookahead
        (if result = .ready then state.cachePosition else none)).1) current)
    (leave : ∀ current, fed current → ∀ after,
      rely (effect geometry (.leave (state.emission geometry result).state
        (decide (result = .adapterError))) current) after →
      post (state.emission geometry result).rendered after) :
    (emit geometry result state).Safe (exec geometry) rely guar post ring := by
  have popped : (state.popped result).2.resetFailed = state.resetFailed ∧
      (state.popped result).2.plcPositions = state.plcPositions ∧
      (state.popped result).2.plcPosition = state.plcPosition := by
    unfold ConsumerState.popped
    split <;> exact ⟨rfl, rfl, rfl⟩
  obtain ⟨kept, positions, cursor⟩ := popped
  -- What waited for the lookahead does not depend on concealment.
  have waited (position : Option Position) (after : ConsumerState F S W)
      (positionsEq : after.plcPositions = (state.popped result).2.plcPositions)
      (cursorEq : after.plcPosition = (state.popped result).2.plcPosition) :
      (after.delayPosition geometry.lookahead position).1 =
        (state.delayPosition geometry.lookahead position).1 := by
    unfold ConsumerState.delayPosition
    rw [positionsEq, cursorEq, positions, cursor]
    split <;> rfl
  unfold emit
  refine safe_lookup emittingSteady holds lookup fun first firstHolds => ?_
  refine side.safe_recordShortfall emittingSteady firstHolds fun second secondHolds => ?_
  refine side.safe_countFailure emittingSteady secondHolds fun third thirdHolds => ?_
  unfold emitOutput
  by_cases failed : state.resetFailed = true
  · have failedCached := kept.trans failed
    rw [if_pos failedCached]
    refine safe_lookup fedSteady (silent third thirdHolds failed) (fun current currentHolds => ?_)
      fun last lastHolds => ?_
    · rw [waited _ _ rfl rfl]
      exact lookupFed current currentHolds
    refine side.safe_leave fedSteady lastHolds fun current currentHolds after later => ?_
    have left := leave current currentHolds after
    simp only [ConsumerState.emission, if_pos failedCached] at left
    exact left later
  · have worksCached : ¬(state.popped result).2.resetFailed = true := kept ▸ failed
    rw [if_neg worksCached, bind_assoc]
    refine safe_access.mpr fun fourth moves => ⟨side.permits _ _ trivial trivial, ?_⟩
    refine safe_lookup fedSteady (feed fourth (emittingSteady.stable moves thirdHolds)
      (Bool.eq_false_iff.mpr failed)) (fun current currentHolds => ?_) fun last lastHolds => ?_
    · obtain ⟨plc, concealedEq⟩ := ConsumerState.concealed_state
        (if state.muteHistory.muted (if result = .ready then state.cachePosition else none)
          then some 0 else (state.popped result).1) (state.popped result).2
      have later := lookupFed current currentHolds
      rw [← waited _ { (state.popped result).2 with plc := plc } rfl rfl, ← concealedEq] at later
      exact later
    refine side.safe_leave fedSteady lastHolds fun current currentHolds after later => ?_
    have left := leave current currentHolds after
    simp only [ConsumerState.emission, if_neg worksCached] at left
    exact left later

theorem safe_emit {result : RefillResult} {state : ConsumerState F S W}
    {emitting fed : Ring F S W → Prop} (emittingSteady : Steady geometry rely emitting)
    (fedSteady : Steady geometry rely fed) (holds : emitting ring)
    (lookup : ∀ position current, emitting current →
      guar (.lookup state.muteHistory position) current)
    (feed : ∀ current, emitting current → state.resetFailed = false →
      fed (effect geometry (.feed (state.emission geometry result).input) current))
    (silent : ∀ current, emitting current → state.resetFailed = true → fed current)
    (lookupFed : ∀ position current, fed current →
      guar (.lookup state.muteHistory position) current)
    (leave : ∀ current, fed current → ∀ after,
      rely (effect geometry (.leave (state.emission geometry result).state
        (decide (result = .adapterError))) current) after →
      post (state.emission geometry result).rendered after) :
    (emit geometry result state).Safe (exec geometry) rely guar post ring :=
  side.safe_emitSupports emittingSteady fedSteady holds (lookup _) feed silent (lookupFed _) leave

end Emit

section Complete

variable [Binary32 F] [Binary64 W] {adapter : Adapter F W S}

omit [Binary32 F] [Binary64 W] in
/-- Dropping what is unread of both queues; the mailbox is dropped last. -/
theorem safe_discardBurst {β : Type} {post : β → Ring F S W → Prop}
    {assertion cleared : Ring F S W → Prop} (steady : Steady geometry rely assertion)
    (clearedSteady : Steady geometry rely cleared) (holds : assertion ring)
    (discards : ∀ op current, assertion current → ConsumerPermits geometry resets op current →
      op.Discards → assertion (effect geometry op current))
    (clears : ∀ early current, assertion early →
      rely (effect geometry (.mutes .snapshotWritten) early) current →
      ConsumerPermits geometry resets (.mutes (.discardTo early.mutes.queue.written)) current →
      cleared (effect geometry (.mutes (.discardTo early.mutes.queue.written)) current))
    {next : Unit → RingProgram F S W β}
    (safe : ∀ current, cleared current →
      (next ()).Safe (exec geometry) rely guar post current) :
    (discardBurst >>= next).Safe (exec geometry) rely guar post ring := by
  unfold discardBurst mailboxReset
  simp only [bind_assoc]
  refine Port.safe_discard (pcm_lawful geometry) side.pcmReader (steady.pcm _ holds)
    fun early current earlyMoves currentMoves permitted => ?_
  have snapshot := discards (.pcm .snapshotWritten) early (steady.stable earlyMoves holds)
    trivial trivial
  have dropped := discards (.pcm (.discardTo _)) current (steady.stable currentMoves snapshot)
    permitted trivial
  refine Port.safe_discard (mute_lawful geometry) side.muteReader (steady.mutes _ dropped)
    fun early' current' earlyMoves' currentMoves' permitted' => ?_
  have dropped' := clears early' current' (steady.stable earlyMoves' dropped) currentMoves'
    permitted'
  exact side.safe_addCounter (by simp) clearedSteady dropped' fun _ last lastHolds =>
    safe last lastHolds

theorem safe_completeFinite {boundary : Finite} {adapterFailed : Bool}
    {state : ConsumerState F S W} {completing cleared done : Ring F S W → Prop}
    (completingSteady : Steady geometry rely completing)
    (clearedSteady : Steady geometry rely cleared)
    (doneSteady : Steady geometry rely done)
    (retire : ∀ first, rely ring first → guar (.retire state) first ∧
      ∀ second, rely (effect geometry (.retire state) first) second →
        guar .fetchAddResetSerial second ∧
          completing (effect geometry .fetchAddResetSerial second))
    (discards : (state.reset adapter).1 = false ∨ adapterFailed = true →
      ∀ op current, completing current → ConsumerPermits geometry resets op current →
      op.Discards → completing (effect geometry op current))
    (clears : (state.reset adapter).1 = false ∨ adapterFailed = true →
      ∀ early current, completing early →
      rely (effect geometry (.mutes .snapshotWritten) early) current →
      ConsumerPermits geometry resets (.mutes (.discardTo early.mutes.queue.written)) current →
      cleared (effect geometry (.mutes (.discardTo early.mutes.queue.written)) current))
    (drained : (state.reset adapter).1 = true → adapterFailed = false →
      ∀ current, completing current →
      guar (.storeFinish (boundary.token * 4 + FinishStatus.drained.bits)) current ∧
        done (effect geometry
          (.storeFinish (boundary.token * 4 + FinishStatus.drained.bits)) current))
    (failed : (state.reset adapter).1 = false ∨ adapterFailed = true →
      ∀ current, cleared current →
      guar (.storeFinish (boundary.token * 4 + FinishStatus.adapterError.bits)) current ∧
        done (effect geometry
          (.storeFinish (boundary.token * 4 + FinishStatus.adapterError.bits)) current))
    (leave : ∀ current errored,
      errored = (!(state.reset adapter).1 || adapterFailed) → done current → ∀ after,
      rely (effect geometry
        (.leave { (state.reset adapter).2 with quiet := true } errored) current) after →
      post (0, false, errored) after) :
    (completeFinite adapter geometry boundary adapterFailed state).Safe (exec geometry) rely
      guar post ring := by
  unfold completeFinite
  refine safe_access.mpr fun first firstMoves => ?_
  obtain ⟨retired, retires⟩ := retire first firstMoves
  refine ⟨retired, safe_access.mpr fun second secondMoves => ?_⟩
  obtain ⟨permitted, holds⟩ := retires second secondMoves
  refine ⟨permitted, ?_⟩
  refine side.safe_recordShortfall completingSteady holds fun third thirdHolds => ?_
  split
  · rename_i fails
    have cause : (state.reset adapter).1 = false ∨ adapterFailed = true := by
      simpa using fails
    refine side.safe_discardBurst completingSteady clearedSteady thirdHolds (discards cause)
      (clears cause) fun fourth fourthHolds => ?_
    refine safe_access.mpr fun fifth fifthMoves => ?_
    obtain ⟨allowed, ended⟩ := failed cause fifth (clearedSteady.stable fifthMoves fourthHolds)
    refine ⟨allowed, side.safe_leave doneSteady ended fun current currentHolds after later => ?_⟩
    exact leave current true fails.symm currentHolds after later
  · rename_i works
    have cause : (state.reset adapter).1 = true ∧ adapterFailed = false := by
      simpa using works
    refine safe_access.mpr fun fourth fourthMoves => ?_
    obtain ⟨allowed, ended⟩ := drained cause.1 cause.2 fourth
      (completingSteady.stable fourthMoves thirdHolds)
    refine ⟨allowed, side.safe_leave doneSteady ended fun current currentHolds after later => ?_⟩
    exact leave current false (Bool.eq_false_iff.mpr works).symm currentHolds after later

/-- Releasing one lookahead sample, or completing the boundary; the support of
the released sample is looked up. -/
theorem safe_drainSupport {boundary : Finite} {state : ConsumerState F S W}
    {releasing : Ring F S W → Prop} (releasingSteady : Steady geometry rely releasing)
    (release : ConsumerState.remainingLookahead geometry.lookahead boundary ≠ 0 →
      ∀ current, rely ring current → releasing (effect geometry .release current))
    (lookup : ConsumerState.remainingLookahead geometry.lookahead boundary ≠ 0 →
      ∀ current, releasing current →
      guar (.lookup state.muteHistory (state.plcPositions state.plcPosition)) current)
    (leave : ConsumerState.remainingLookahead geometry.lookahead boundary ≠ 0 →
      ∀ current, releasing current → ∀ after,
      rely (effect geometry (.leave (state.release geometry boundary).2 false) current) after →
      post (state.release geometry boundary).1 after)
    (complete : ConsumerState.remainingLookahead geometry.lookahead boundary = 0 →
      (completeFinite adapter geometry { boundary with plcRemaining := some 0 } false
        { state with finite := some { boundary with plcRemaining := some 0 } }).Safe
        (exec geometry) rely guar post ring) :
    (drainFinite adapter geometry boundary state).Safe (exec geometry) rely guar post ring := by
  unfold drainFinite
  split
  · rename_i remaining
    refine safe_access.mpr fun first moves => ⟨side.permits _ _ trivial trivial, ?_⟩
    refine safe_lookup releasingSteady (release remaining first moves) (lookup remaining)
      fun second secondHolds => ?_
    exact side.safe_leave releasingSteady secondHolds fun current currentHolds after later =>
      leave remaining current currentHolds after later
  · rename_i none
    exact complete (not_not.mp none)

/-- Releasing one lookahead sample, or completing the boundary. -/
theorem safe_drainFinite {boundary : Finite} {state : ConsumerState F S W}
    {releasing : Ring F S W → Prop} (releasingSteady : Steady geometry rely releasing)
    (release : ConsumerState.remainingLookahead geometry.lookahead boundary ≠ 0 →
      ∀ current, rely ring current → releasing (effect geometry .release current))
    (lookup : ∀ position current, releasing current →
      guar (.lookup state.muteHistory position) current)
    (leave : ConsumerState.remainingLookahead geometry.lookahead boundary ≠ 0 →
      ∀ current, releasing current → ∀ after,
      rely (effect geometry (.leave (state.release geometry boundary).2 false) current) after →
      post (state.release geometry boundary).1 after)
    (complete : ConsumerState.remainingLookahead geometry.lookahead boundary = 0 →
      (completeFinite adapter geometry { boundary with plcRemaining := some 0 } false
        { state with finite := some { boundary with plcRemaining := some 0 } }).Safe
        (exec geometry) rely guar post ring) :
    (drainFinite adapter geometry boundary state).Safe (exec geometry) rely guar post ring :=
  side.safe_drainSupport releasingSteady release (fun _ => lookup _) leave complete

end Complete

end ConsumerSide

end PcmRing
