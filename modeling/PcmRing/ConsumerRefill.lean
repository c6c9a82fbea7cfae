import PcmRing.ProducerOperations

/-!
# The consumer's conversion step

One refill moves slots from the FIFO into the input workspace and runs one
bounded conversion into the output cache.  Everything the consumer does to its
own state is a function; only the takes from the FIFO, the occupancy and the
diagnostics are accesses.
-/

namespace PcmRing

open AtomicProgram TwoLapQueue

variable {F S W : Type}

/-- `x as i64` for an unsigned word. -/
def asI64 (word : Nat) : Int :=
  if word < 2 ^ 63 then word else (word : Int) - 2 ^ 64

/-- `x as u64` for a signed word. -/
def asU64 (word : Int) : Nat :=
  (word % 2 ^ 64).toNat

/-- `u64::try_from(x).ok()` -/
def toU64? (value : Int) : Option Nat :=
  if 0 ≤ value ∧ value < 2 ^ 64 then some value.toNat else none

theorem toU64?_mono {first second : Int} {low high : Nat} (le : first ≤ second)
    (lowEq : toU64? first = some low) (highEq : toU64? second = some high) : low ≤ high := by
  unfold toU64? at lowEq highEq
  split at lowEq <;> split at highEq <;> simp_all
  omega

/-- The whole source frames around a position in billionths of a frame. -/
def Position.around (generation : Nat) (position : Int) : Option Position :=
  match lowEq : toU64? (position / frameUnit),
    highEq : toU64? ((position + (frameUnit - 1)) / frameUnit) with
  | some low, some high => some ⟨generation, low, high,
      toU64?_mono (Int.ediv_le_ediv (by decide) (by simp [frameUnit])) lowEq highEq⟩
  | _, _ => none

/-- Refill outcome, preserving adapter faults separately from loss. -/
inductive RefillResult where
  | ready
  | starved
  | adapterError
deriving DecidableEq

namespace ConsumerState

/-- Fractional input-frame position of the next cached output. -/
def cacheSourcePosition (state : ConsumerState F S W) : Int :=
  state.cacheStart +
    ((state.cacheEnd - state.cacheStart) * state.outputOffset).tdiv state.cacheCount

/-- Source support of the next cached output; both neighbours are covered at a
fractional boundary. -/
def cachePosition (state : ConsumerState F S W) : Option Position := do
  let (generation, offset) ← state.sourceBase
  Position.around generation (state.cacheSourcePosition + offset * frameUnit)

/-- Discard every ended-burst cache even if the adapter cannot reset; `false`
when it cannot. -/
def reset [Binary32 F] [Binary64 W] (adapter : Adapter F W S)
    (state : ConsumerState F S W) : Bool × ConsumerState F S W :=
  let result := adapter.converterReset state.converter
  (result.1.isSome,
    { state with
      converter := result.2
      resetFailed := result.1.isNone
      inputOffset := 0
      inputPending := 0
      outputOffset := 0
      outputPending := 0
      outputMissing := false
      sourceTaken := 0
      sourceAccepted := 0
      paddingAccepted := 0
      inputPadding := false
      finite := none
      gaps := []
      sourceBase := none
      cacheCount := 0
      muteHistory := state.muteHistory.clear
      muteFault := false
      refused := 0
      plcPositions := fun _ => none
      plcPosition := 0
      plc := state.plc.map Plc.reset
      zeroProgress := false
      occupancyMilli := 0
      ratio := Binary64.ofRat 0
      primed := false })

/-- Compact unconsumed converter input before appending more source PCM. -/
def makeInputSpace (additional capacity : Nat) (state : ConsumerState F S W) :
    ConsumerState F S W :=
  if state.inputOffset = 0 ∨
      state.inputOffset + state.inputPending + additional ≤ capacity then
    state
  else
    { state with
      input := fun index =>
        if index < state.inputPending then state.input (state.inputOffset + index)
        else state.input index
      inputOffset := 0 }

/-- The generation and source offset of the stream, from its first stamped slot. -/
def baseOf (stamp : Stamp) (state : ConsumerState F S W) : Nat × Int :=
  state.sourceBase.getD (stamp.generation, (stamp.source : Int) - state.sourceTaken)

/-- A stamped slot continues the stream's generation and source offset. -/
def Continues (stamp : Stamp) (state : ConsumerState F S W) : Prop :=
  (state.baseOf stamp).1 = stamp.generation ∧
    (state.baseOf stamp).2 + state.sourceTaken = stamp.source

instance (stamp : Stamp) (state : ConsumerState F S W) : Decidable (state.Continues stamp) :=
  inferInstanceAs (Decidable (_ ∧ _))

/-- The gap queue with one more missing slot; `none` when it is full. -/
def extendGaps (gapCapacity taken : Nat) (gaps : List GapSpan) : Option (List GapSpan) :=
  match gaps.getLast? with
  | some span =>
      if span.stop = taken then
        some (gaps.dropLast ++ [{ span with stop := span.stop + 1 }])
      else if gaps.length = gapCapacity then none
      else some (gaps ++ [⟨taken, taken + 1⟩])
  | none => if gaps.length = gapCapacity then none else some (gaps ++ [⟨taken, taken + 1⟩])

/-- Append one taken slot to the input workspace. -/
def appendInput (pcm : F) (state : ConsumerState F S W) : ConsumerState F S W :=
  { state with
    sourceTaken := state.sourceTaken + 1
    input := Function.update state.input (state.inputOffset + state.inputPending) pcm
    inputPending := state.inputPending + 1 }

/-- The fence on a slot's stamp; `false` latches the mute fault. -/
def fence (stamp : Option Stamp) (state : ConsumerState F S W) :
    Bool × ConsumerState F S W :=
  match stamp with
  | none => (true, state)
  | some stamp =>
      let based := { state with sourceBase := some (state.baseOf stamp) }
      if state.Continues stamp then (true, based)
      else (false, { based with muteFault := true })

/-- A taken slot is dropped. -/
def refuse (state : ConsumerState F S W) : ConsumerState F S W :=
  { state with refused := state.refused + 1 }

/-- Accept one taken slot: fence, gap marker, workspace.  `false` drops it. -/
def acceptSource (gapCapacity : Nat) (sample : SourceSample F)
    (state : ConsumerState F S W) : Bool × ConsumerState F S W :=
  let fenced := state.fence sample.stamp
  if fenced.1 then
    if sample.missing then
      match extendGaps gapCapacity fenced.2.sourceTaken fenced.2.gaps with
      | none => (false, fenced.2.refuse)
      | some gaps => (true, { fenced.2 with gaps := gaps }.appendInput sample.pcm)
    else (true, fenced.2.appendInput sample.pcm)
  else (false, fenced.2.refuse)

/-- Zero extension of a finite tail, once the workspace is empty. -/
def padInput [Zero F] (quantum : Nat) (state : ConsumerState F S W) : ConsumerState F S W :=
  if state.inputPending = 0 ∧ state.finite.isSome then
    { state with
      input := fun index => if index < quantum then 0 else state.input index
      inputOffset := 0
      inputPending := quantum
      inputPadding := true }
  else state

/-- The workspace content offered to the converter. -/
def offered (state : ConsumerState F S W) : List F :=
  (List.range state.inputPending).map fun index => state.input (state.inputOffset + index)

end ConsumerState

section Clock

variable (W) [Binary64 W] (geometry : Geometry)

/-- Low-pass filtered occupancy. -/
def smoothedOccupancy (previous occupancy : Nat) : Nat :=
  if previous = 0 then occupancy
  else asU64 (asI64 previous + (asI64 occupancy - asI64 previous).tdiv 128)

/-- Relative occupancy error, within one. -/
def occupancyError (occupancyMilli : Nat) : W :=
  if geometry.target = 0 then Binary64.ofRat 0
  else
    let target : W := Binary64.ofRat (geometry.target : ℚ) * Binary64.ofRat 1000
    Binary64.clamp ((Binary64.ofRat (occupancyMilli : ℚ) - target) / target)
      (Binary64.ofRat (-1)) (Binary64.ofRat 1)

/-- The conversion ratio after one control step. -/
def steeredRatio (occupancyMilli : Nat) (ratio : W) : W :=
  let nominal := nominalRatio W geometry.outputRateHz geometry.inputRateHz
  let desired := Binary64.clamp
    (nominal * (Binary64.ofRat 1 - occupancyError W geometry occupancyMilli *
      Binary64.ofRat (1 / 1000)))
    (minimumRatio W) (maximumRatio W)
  Binary64.clamp
    (if Binary64.eq ratio (Binary64.ofRat 0) then nominal
      else ratio + (desired - ratio) / Binary64.ofRat 512)
    (minimumRatio W) (maximumRatio W)

/-- The reported correction relative to the nominal rate. -/
def correctionPpm (ratio : W) : Int :=
  let nominal := nominalRatio W geometry.outputRateHz geometry.inputRateHz
  Binary64.toI32 (Binary64.clamp
    (Binary64.round ((ratio / nominal - Binary64.ofRat 1) * Binary64.ofRat 1000000))
    (Binary64.ofRat (-(2 ^ 31))) (Binary64.ofRat (2 ^ 31 - 1)))

end Clock

namespace ConsumerState

variable [Binary64 W] (adapter : Adapter F W S) (geometry : Geometry)

/-- Source frames and zero extension the converter has accepted. -/
def converterAccepted (state : ConsumerState F S W) : Nat :=
  state.sourceAccepted + state.paddingAccepted

/-- Drop passed gaps and classify the next output; `false` on a rejected query. -/
def classifyGaps (state : ConsumerState F S W) : Bool × ConsumerState F S W :=
  let state := { state with outputMissing := false }
  if state.gaps = [] then (true, state)
  else
    match adapter.converterInputDelay state.converter with
    | (none, converter) => (false, { state with converter := converter })
    | (some delay, converter) =>
        let state := { state with converter := converter }
        let delayFrames := ceilDiv delay.toNat frameUnit
        -- Startup positions before the first frame are history, never a gap.
        if state.converterAccepted < delayFrames then (true, state)
        else
          let position := state.converterAccepted - delayFrames
          let gaps := state.gaps.dropWhile fun span => span.stop ≤ position
          (true, { state with
            gaps := gaps
            outputMissing := gaps.head?.any fun span => decide (span.start ≤ position) })

/-- Account for accepted input. -/
def consumeInput (used : Nat) (state : ConsumerState F S W) : ConsumerState F S W :=
  { state with
    inputOffset := state.inputOffset + used
    inputPending := state.inputPending - used
    paddingAccepted :=
      if state.inputPadding then state.paddingAccepted + used else state.paddingAccepted
    sourceAccepted :=
      if state.inputPadding then state.sourceAccepted else state.sourceAccepted + used }

/-- Record the source interval of a generated batch; `false` on a rejected
query, or on a backwards position, which latches the mute fault. -/
def recordCache (sourceStart : Int) (generated : Nat) (state : ConsumerState F S W) :
    Bool × ConsumerState F S W :=
  if generated = 0 then (true, state)
  else
    match adapter.converterInputDelay state.converter with
    | (none, converter) => (false, { state with converter := converter })
    | (some delay, converter) =>
        let state := { state with
          converter := converter
          cacheStart := sourceStart
          cacheEnd := (state.converterAccepted : Int) * frameUnit - delay }
        if state.cacheEnd < state.cacheStart then (false, { state with muteFault := true })
        else (true, { state with cacheCount := generated })

/-- Hand the batch over, or detect that conversion made no progress. -/
def finishConversion (used generated : Nat) (state : ConsumerState F S W) :
    RefillResult × ConsumerState F S W :=
  let state := { state with
    inputOffset := if state.inputPending = 0 then 0 else state.inputOffset
    outputOffset := 0
    outputPending := generated }
  if generated ≠ 0 then (.ready, { state with zeroProgress := false })
  else
    let state := { state with zeroProgress := decide (used = 0) }
    if state.zeroProgress ∧ state.inputPending = geometry.capacity then (.adapterError, state)
    else (.starved, state)

/-- Run the converter once over the workspace. -/
def runConverter (quantum : Nat) (state : ConsumerState F S W) :
    RefillResult × ConsumerState F S W :=
  let outputCount := if state.gaps = [] then quantum else 1
  match adapter.converterInputDelay state.converter with
  | (none, converter) => (.adapterError, { state with converter := converter })
  | (some delay, converter) =>
      let sourceStart := (state.converterAccepted : Int) * frameUnit - delay
      match adapter.converterProcess converter state.offered outputCount state.ratio with
      | (none, converter) => (.adapterError, { state with converter := converter })
      | (some converted, converter) =>
          let state := { state with
            converter := converter
            output := fun index =>
              if index < converted.outputGenerated then converted.output index
              else state.output index }
          let state := state.consumeInput converted.inputUsed
          match state.recordCache adapter sourceStart converted.outputGenerated with
          | (false, state) => (.adapterError, state)
          | (true, state) =>
              state.finishConversion geometry converted.inputUsed converted.outputGenerated

/-- Classify and convert. -/
def convert (quantum : Nat) (state : ConsumerState F S W) :
    RefillResult × ConsumerState F S W :=
  match state.classifyGaps adapter with
  | (false, state) => (.adapterError, state)
  | (true, state) => state.runConverter adapter geometry quantum

end ConsumerState

section Refill

variable (adapter : Adapter F W S) (geometry : Geometry)

/-- Consume one source sample for the persistent converter. -/
def consumerTakeSourceSample : RingProgram F S W (Option (SourceSample F)) :=
  pcmPort.take geometry.capacity

/-- Take until the workspace holds what is desired or the FIFO is empty; `false`
when a taken slot was dropped. -/
def takeSources : (wanted : Nat) → ConsumerState F S W →
    RingProgram F S W (Bool × ConsumerState F S W)
  | 0, state => return (true, state)
  | wanted + 1, state =>
      if state.inputPadding then return (true, state)
      else do
        let slot ← consumerTakeSourceSample geometry
        match slot with
        | none => return (true, state)
        | some sample =>
            match state.acceptSource geometry.gapCapacity sample with
            | (false, state) => return (false, state)
            | (true, state) => takeSources wanted state

variable [Binary64 W]

/-- Smooth the occupancy and steer the ratio, except in a finite tail. -/
def steer (occupancy : Nat) (state : ConsumerState F S W) :
    RingProgram F S W (ConsumerState F S W) :=
  if occupancy ≠ 0 ∧ state.finite.isNone then do
    let smoothed := smoothedOccupancy state.occupancyMilli occupancy
    access (.storeCounter .filteredOccupancyMilli smoothed)
    let ratio := steeredRatio W geometry smoothed state.ratio
    access (.storeRatioCorrection (correctionPpm W geometry ratio))
    return { state with occupancyMilli := smoothed, ratio := ratio }
  else if Binary64.eq state.ratio (Binary64.ofRat 0) then
    return { state with ratio := nominalRatio W geometry.outputRateHz geometry.inputRateHz }
  else
    return state

/-- Source samples waiting anywhere before the converter's output. -/
def occupancyOf (available pending queued : Nat) : Nat :=
  min (min (min (available + pending) (2 ^ 64 - 1) + queued) (2 ^ 64 - 1) * 1000) (2 ^ 64 - 1)

/-- Query the converter's queue, steer, and convert. -/
def convertOutput (quantum : Nat) (state : ConsumerState F S W) :
    RingProgram F S W (RefillResult × ConsumerState F S W) :=
  match adapter.converterQueuedInput state.converter with
  | (none, converter) => return (.adapterError, { state with converter := converter })
  | (some queued, converter) => do
      let state := { state with converter := converter }
      let readable ← available geometry
      let state ← steer geometry (occupancyOf readable state.inputPending queued) state
      return state.convert adapter geometry quantum

/-- Workspace samples one refill tries to offer. -/
def desiredInput (quantum : Nat) (state : ConsumerState F S W) : Nat :=
  if state.zeroProgress then min (state.inputPending + quantum) geometry.capacity else quantum

/-- Refill the converted cache with one bounded persistent conversion. -/
def refillOutput [Zero F] (state : ConsumerState F S W) :
    RingProgram F S W (RefillResult × ConsumerState F S W) :=
  if state.resetFailed then return (.adapterError, state)
  else if state.outputPending ≠ 0 then return (.ready, state)
  else do
    let quantum := min geometry.capacity converterQuantum
    let wanted := desiredInput geometry quantum state - state.inputPending
    let taken ← takeSources geometry wanted (state.makeInputSpace wanted geometry.capacity)
    match taken with
    | (false, state) => return (.adapterError, state)
    | (true, state) =>
        let state := state.padInput quantum
        if state.inputPending = 0 ∧ state.zeroProgress then return (.starved, state)
        else convertOutput adapter geometry quantum state

end Refill

end PcmRing
