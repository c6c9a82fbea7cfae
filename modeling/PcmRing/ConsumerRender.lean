import PcmRing.ConsumerRefill

/-!
# The consumer's operations

A render takes in the finite boundary and the mute records, decides whether
the stream may play, converts, and emits one output.  A boundary that has
played out is completed by a reset that the producer observes through the
finish word.
-/

namespace PcmRing

open AtomicProgram TwoLapQueue

variable {F S W : Type}

namespace ConsumerState

/-- Take in the boundary of a pending finish word. -/
def capture (word readable : Nat) (state : ConsumerState F S W) : ConsumerState F S W :=
  { state with
    finite := some ⟨word / 4, state.sourceTaken + readable, none⟩
    quiet := false }

/-- Merge one popped record into the history; a full history latches a fault. -/
def receive (interval : Interval) (state : ConsumerState F S W) : ConsumerState F S W :=
  let merged := state.muteHistory.insert interval
  { state with
    muteHistory := merged.2
    muteFault := state.muteFault || !merged.1 }

/-- The boundary holds nothing more to convert. -/
def Draining (state : ConsumerState F S W) : Prop :=
  ∃ boundary ∈ state.finite, boundary.stop = 0 ∨ boundary.plcRemaining.isSome

instance (state : ConsumerState F S W) : Decidable state.Draining :=
  match finite : state.finite with
  | none => isFalse fun ⟨_, member, _⟩ => by simp [finite] at member
  | some boundary =>
      decidable_of_iff (boundary.stop = 0 ∨ boundary.plcRemaining.isSome)
        (by simp [Draining, finite])

/-- The next cached output belongs to a position past the boundary. -/
def PastBoundary (state : ConsumerState F S W) : Prop :=
  ∃ boundary ∈ state.finite, (boundary.stop : Int) * frameUnit ≤ state.cacheSourcePosition

instance (state : ConsumerState F S W) : Decidable state.PastBoundary :=
  match finite : state.finite with
  | none => isFalse fun ⟨_, member, _⟩ => by simp [finite] at member
  | some boundary =>
      decidable_of_iff ((boundary.stop : Int) * frameUnit ≤ state.cacheSourcePosition)
        (by simp [PastBoundary, finite])

/-- Pop the next cached output; `none` for a gap. -/
def nextCached [Binary32 F] (state : ConsumerState F S W) : Option F × ConsumerState F S W :=
  let sample := state.output state.outputOffset
  let pending := state.outputPending - 1
  (if state.outputMissing then none else some (canonicalize sample),
    { state with
      outputOffset := if pending = 0 then 0 else state.outputOffset + 1
      outputPending := pending })

/-- The cached output of a ready refill, popped; nothing otherwise. -/
def popped [Binary32 F] (result : RefillResult) (state : ConsumerState F S W) :
    Option F × ConsumerState F S W :=
  if result = .ready then state.nextCached else (none, state)

/-- Exchange a position with the one delayed as long as the lookahead. -/
def delayPosition (lookahead : Nat) (position : Option Position)
    (state : ConsumerState F S W) : Option Position × ConsumerState F S W :=
  if lookahead = 0 then (position, state)
  else
    (state.plcPositions state.plcPosition,
      { state with
        plcPositions := Function.update state.plcPositions state.plcPosition position
        plcPosition := (state.plcPosition + 1) % lookahead })

/-- Retire history before a position that was emitted. -/
def retirePosition (position : Option Position) (state : ConsumerState F S W) :
    ConsumerState F S W :=
  { state with muteHistory := state.muteHistory.retire position }

/-- Conceal the stream, or pass it on as it is. -/
def concealed [Binary32 F] [Binary64 W] [Widening F W] (input : Option F)
    (state : ConsumerState F S W) : (F × Bool) × ConsumerState F S W :=
  match state.plc with
  | some plc =>
      ((plc.process W input).1, { state with plc := some (plc.process W input).2 })
  | none => ((input.getD 0, input.isSome), state)

/-- Lookahead slots of the boundary that are not yet released. -/
def remainingLookahead (lookahead : Nat) (boundary : Finite) : Nat :=
  boundary.plcRemaining.getD lookahead

/-- Release one retained lookahead sample and pass its position. -/
def drainLookahead [Binary32 F] (lookahead : Nat) (boundary : Finite)
    (state : ConsumerState F S W) : (F × Bool) × ConsumerState F S W :=
  let passed := { state with
    finite := some { boundary with
      plcRemaining := some (remainingLookahead lookahead boundary - 1) }
    plcPosition := (state.plcPosition + 1) % lookahead }
  match state.plc with
  | some plc => (plc.drainSample.1, { passed with plc := some plc.drainSample.2 })
  -- A lookahead exists only together with concealment.
  | none => ((0, false), passed)

end ConsumerState

/-- One rendered output: sample, whether it is received PCM, adapter error. -/
abbrev Rendered (F : Type) : Type :=
  F × Bool × Bool

/-- The shortfall average after one more output. -/
def shortfallAverage (W : Type) [Binary64 W] (outputRateHz average consecutive : Nat) : Nat :=
  let denominator := min (outputRateHz * 10) (2 ^ 64 - 1)
  let measured := min (consecutive * 1000000) (2 ^ 64 - 1)
  let current : W := Binary64.ofRat (average : ℚ)
  Binary64.toU64 (Binary64.clamp
    (current + (Binary64.ofRat (measured : ℚ) - current) * Binary64.ofRat 1 /
      Binary64.ofRat (denominator : ℚ))
    (Binary64.ofRat 0) (Binary64.ofRat (2 ^ 64 - 1)))

variable [Binary32 F] [Binary64 W] (adapter : Adapter F W S) (geometry : Geometry)

/-- Return from a consumer call. -/
def leave (state : ConsumerState F S W) (rendered : Rendered F) :
    RingProgram F S W (Rendered F) := do
  access (.leave state rendered.2.2)
  return rendered

/-- Update the shortfall average. -/
def averageShortfall (consecutive : Nat) : RingProgram F S W Unit := do
  let average ← access (.loadCounter .shortfallAverageMicro)
  access (.storeCounter .shortfallAverageMicro
    (shortfallAverage W geometry.outputRateHz average consecutive))

/-- Update renderer-owned shortfall counters for exactly one output sample. -/
def recordShortfall (missing : Bool) : RingProgram F S W Unit :=
  if missing then do
    let _ ← saturatingAddCounter .missing 1
    let consecutive ← saturatingAddCounter .consecutiveShortfall 1
    averageShortfall geometry consecutive
  else do
    access (.storeCounter .consecutiveShortfall 0)
    averageShortfall geometry 0

/-- Report a latched mute fault. -/
def reportFault (state : ConsumerState F S W) : RingProgram F S W (Rendered F) := do
  let _ ← saturatingAddCounter .adapterErrorCount 1
  leave state (0, false, true)

/-- Retire the failed burst's unread suffix and metadata. -/
def discardBurst : RingProgram F S W Unit := do
  pcmPort.discard
  mailboxReset mutePort
  let _ ← saturatingAddCounter .adapterErrorCount 1

/-- Publish completion only after the caches and the converter have stopped
referencing this burst. -/
def completeFinite (boundary : Finite) (adapterFailed : Bool) (state : ConsumerState F S W) :
    RingProgram F S W (Rendered F) := do
  access (.retire state)
  let reset := state.reset adapter
  access .fetchAddResetSerial
  recordShortfall geometry false
  if !reset.1 || adapterFailed then
    discardBurst
    access (.storeFinish (boundary.token * 4 + FinishStatus.adapterError.bits))
    leave { reset.2 with quiet := true } (0, false, true)
  else
    access (.storeFinish (boundary.token * 4 + FinishStatus.drained.bits))
    leave { reset.2 with quiet := true } (0, false, false)

/-- Play only already retained lookahead, then reset the warmed stream before
releasing producer ownership. -/
def drainFinite (boundary : Finite) (state : ConsumerState F S W) :
    RingProgram F S W (Rendered F) :=
  if ConsumerState.remainingLookahead geometry.lookahead boundary ≠ 0 then do
    let drained := state.drainLookahead geometry.lookahead boundary
    access .release
    let position := state.plcPositions state.plcPosition
    let silenced ← access (.lookup state.muteHistory position)
    leave (drained.2.retirePosition position)
      (if silenced then 0 else drained.1.1, drained.1.2, false)
  else
    completeFinite adapter geometry
      { boundary with plcRemaining := some 0 } false
      { state with finite := some { boundary with plcRemaining := some 0 } }

variable [Widening F W]

/-- Conceal or pass on the stream; a failed reset silences it. -/
def emitOutput (input : Option F) (state : ConsumerState F S W) :
    RingProgram F S W ((F × Bool) × ConsumerState F S W) :=
  if state.resetFailed then return ((0, false), state)
  else do
    access (.feed input)
    return state.concealed input

/-- Count a rejected conversion. -/
def countFailure (failed : Bool) : RingProgram F S W Unit :=
  if failed then do
    let _ ← saturatingAddCounter .adapterErrorCount 1
    return ()
  else return ()

/-- Emit one output of a refill. -/
def emit (result : RefillResult) (state : ConsumerState F S W) :
    RingProgram F S W (Rendered F) := do
  let failed := decide (result = .adapterError)
  let position := if result = .ready then state.cachePosition else none
  let cached := state.popped result
  let muted ← access (.lookup state.muteHistory position)
  -- Intentional silence is real input, never loss or a concealment request.
  let input := if muted then some 0 else cached.1
  recordShortfall geometry input.isNone
  countFailure failed
  let output ← emitOutput input cached.2
  let delayed := output.2.delayPosition geometry.lookahead position
  let silenced ← access (.lookup state.muteHistory delayed.1)
  leave (delayed.2.retirePosition delayed.1)
    (if silenced then 0 else output.1.1, output.1.2, failed)

/-- Convert zero extension until an output or a fault, at most `limit` times. -/
def refillTail : (limit : Nat) → RefillResult → ConsumerState F S W →
    RingProgram F S W (RefillResult × ConsumerState F S W)
  | 0, result, state => return (result, state)
  | limit + 1, result, state =>
      if result = .starved then do
        let refilled ← refillOutput adapter geometry state
        refillTail limit refilled.1 refilled.2
      else return (result, state)

/-- Decide a finite tail after its last refill. -/
def renderTail (boundary : Finite) (result : RefillResult) (state : ConsumerState F S W) :
    RingProgram F S W (Rendered F) :=
  -- Running out of refills is a stall of the adapter.
  if result ≠ .ready then completeFinite adapter geometry boundary true state
  else if state.PastBoundary then drainFinite adapter geometry boundary state
  else if state.muteFault then reportFault state
  else emit geometry result state

/-- Convert and emit. -/
def renderOutput (state : ConsumerState F S W) : RingProgram F S W (Rendered F) := do
  let refilled ← refillOutput adapter geometry state
  match refilled.2.finite with
  | some boundary => do
      let tail ← refillTail adapter geometry geometry.finiteRefillLimit refilled.1 refilled.2
      renderTail adapter geometry boundary tail.1 tail.2
  | none =>
      if refilled.2.muteFault then reportFault refilled.2
      else emit geometry refilled.1 refilled.2

/-- Drain an exhausted boundary, or convert. -/
def renderPrimed (state : ConsumerState F S W) : RingProgram F S W (Rendered F) :=
  match state.finite with
  | some boundary =>
      if state.Draining then drainFinite adapter geometry boundary state
      else renderOutput adapter geometry state
  | none => renderOutput adapter geometry state

/-- Stay silent below the reserve until the stream is primed. -/
def renderAwake (state : ConsumerState F S W) : RingProgram F S W (Rendered F) :=
  if state.primed ∨ state.resetFailed then renderPrimed adapter geometry state
  else do
    let readable ← available geometry
    if readable < geometry.reserve ∧ state.finite.isNone then
      leave state (0, false, false)
    else renderPrimed adapter geometry { state with primed := true }

/-- Stay silent after a completed stream until its next publication. -/
def renderReady (state : ConsumerState F S W) : RingProgram F S W (Rendered F) :=
  if state.muteFault then reportFault state
  else if state.quiet then do
    let readable ← available geometry
    if readable = 0 then leave state (0, false, state.resetFailed)
    else renderAwake adapter geometry { state with quiet := false }
  else renderAwake adapter geometry state

omit [Binary32 F] [Binary64 W] [Widening F W] in
/-- Receive published mute records, boundedly many even if the producer keeps
publishing. -/
def drainMailbox : (limit : Nat) → ConsumerState F S W → RingProgram F S W (ConsumerState F S W)
  | 0, state => return state
  | limit + 1, state => do
      let popped ← mailboxPop mutePort
      match popped with
      | none => return state
      | some interval => drainMailbox limit (state.receive interval)

omit [Binary32 F] [Binary64 W] [Widening F W] in
/-- Take in a boundary that the producer has requested since. -/
def captureBoundary (state : ConsumerState F S W) : RingProgram F S W (ConsumerState F S W) := do
  let finish ← access (.loadFinish .render)
  if FinishPending finish ∧ state.finite.isNone then
    let readable ← available geometry
    return state.capture finish readable
  else
    return state

/-- Render one output sample. -/
def consumerRenderSample : RingProgram F S W (Rendered F) := do
  let state ← access .enter
  let state ← captureBoundary geometry state
  let state ← drainMailbox (maxSpans * 2) state
  renderReady adapter geometry state

omit [Binary32 F] [Binary64 W] [Widening F W] in
/-- A reset cancels an outstanding boundary. -/
def cancelFinish : RingProgram F S W Unit := do
  let finish ← access (.loadFinish .reset)
  if FinishPending finish then
    access (.storeFinish (finish + FinishStatus.cancelled.bits))
  else
    return ()

omit [Widening F W] in
/-- End the current burst and discard unread and converted PCM; `false` when
the adapter did not reset. -/
def consumerReset : RingProgram F S W Bool := do
  pcmPort.discard
  let state ← access .enter
  mailboxReset mutePort
  let reset := state.reset adapter
  access .fetchAddResetSerial
  cancelFinish
  access (.leave reset.2 false)
  return reset.1

end PcmRing
