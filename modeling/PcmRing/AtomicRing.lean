import PcmRing.ProducerAccounts
import PcmRing.RenderExits

/-!
# The ring with atomic calls

What the calls of the two endpoints do when each runs without interruption: a
queue of slots, a queue of mute records, the accepted history and the consumer
state.  Cursors, epochs and most counters are gone.
-/

namespace PcmRing

open AtomicProgram TwoLapQueue

variable {F S W : Type}

/-- What can be seen of a ring between two calls. -/
structure RingView (F S W : Type) where
  /-- Readable slots and unread mute records. -/
  slots : List (SourceSample F)
  records : List Interval
  account : ProducerAccount F
  consumer : ConsumerState F S W
  finish : Nat
  missing : Nat
  /-- Everything fed onward to concealment. -/
  fed : List (Option F)

def Ring.view (geometry : Geometry) (ring : Ring F S W) : RingView F S W where
  slots := ring.pcm.unread geometry.capacity
  records := ring.mutes.unread mailboxQueue
  account := ring.account
  consumer := ring.consumer
  finish := ring.finish
  missing := ring.counters .missing
  fed := ring.ledger.fed

namespace ProducerAccount

/-- One slot is accepted when there is room and its position is representable. -/
def publishOne (free : Nat) (sample : SourceSample F) (account : ProducerAccount F) :
    Bool × ProducerAccount F :=
  if free = 0 then (false, account.discard 1)
  else if Within account.stamp 1 then (true, account.accept [sample])
  else (false, account)

/-- A block goes in up to its first rejected slot; the slots behind it are
discarded. -/
def publishAll : List (SourceSample F) → (free : Nat) → ProducerAccount F →
    Nat × ProducerAccount F
  | [], _, account => (0, account)
  | sample :: rest, free, account =>
      let one := account.publishOne free sample
      if one.1 then
        let more := publishAll rest (free - 1) one.2
        (more.1 + 1, more.2)
      else (0, one.2.discard rest.length)

end ProducerAccount

namespace RingView

/-- The history grew: what is new can be read. -/
def produced (account : ProducerAccount F) (view : RingView F S W) : RingView F S W :=
  { view with
    slots := view.slots ++ account.published.drop view.account.published.length
    records := view.records ++ account.records.drop view.account.records.length
    account := account }

/-- Free slots of the FIFO. -/
def room (geometry : Geometry) (view : RingView F S W) : Nat :=
  geometry.capacity - view.slots.length

/-- A block behind its gate. -/
def publishBlock (geometry : Geometry) (samples : List (SourceSample F))
    (view : RingView F S W) : Nat × RingView F S W :=
  if FinishPending view.finish then (0, view)
  else
    let all := view.account.publishAll samples (view.room geometry)
    (all.1, view.produced all.2)

/-- One producer call. -/
def produce [Binary32 F] (geometry : Geometry) (call : ProducerCall F)
    (view : RingView F S W) : ProducerResult × RingView F S W :=
  match call with
  | .pushSample sample =>
      if FinishPending view.finish then (.published false, view)
      else
        let one := view.account.publishOne (view.room geometry) (pcmSlot sample)
        (.published one.1, view.produced one.2)
  | .push input =>
      let block := view.publishBlock geometry (input.map pcmSlot)
      (.count block.1, block.2)
  | .gap samples =>
      let block := view.publishBlock geometry (List.replicate samples gapSlot)
      (.count block.1, block.2)
  | .pushTagged input generation sourceStart spans =>
      if FinishPending view.finish then (.credit (some 0), view)
      else if TaggedInvalid geometry input sourceStart spans ∨
          Discontinuous view.account.stamp generation sourceStart then (.credit none, view)
      else if mailboxQueue - view.records.length < spans.length then (.credit (some 0), view)
      else
        (.credit (some (min input.length (view.room geometry))),
          view.produced (taggedAccount generation sourceStart spans input (view.room geometry)
            view.account))
  | .mute generation spans =>
      match view.account.stamp with
      | none => (.credit none, view)
      | some current =>
          if MuteInvalid geometry current generation spans then (.credit none, view)
          else
            let count := min spans.length (mailboxQueue - view.records.length)
            (.credit (some count), view.produced { view.account with
              records := view.account.records ++
                clippedIntervals generation (spans.take count) current.source })
  | .finish =>
      if FinishPending view.finish then (.token none, view)
      else if view.finish / 4 + 1 < 2 ^ 62 then
        (.token (some (view.finish / 4 + 1)), { view with finish := (view.finish / 4 + 1) * 4 })
      else (.token none, view)
  | .status token => (.status (FinishStatus.ofToken view.finish token), view)

end RingView

namespace ConsumerState

/-- Slots taken until the workspace holds enough or none is left. -/
def takeAll (gapCapacity : Nat) : (wanted : Nat) → ConsumerState F S W →
    List (SourceSample F) → (Bool × ConsumerState F S W) × List (SourceSample F)
  | 0, state, slots => ((true, state), slots)
  | _ + 1, state, [] => ((true, state), [])
  | wanted + 1, state, sample :: rest =>
      if state.inputPadding then ((true, state), sample :: rest)
      else
        let accepted := state.acceptSource gapCapacity sample
        if accepted.1 then takeAll gapCapacity wanted accepted.2 rest else (accepted, rest)

variable [Binary64 W] (adapter : Adapter F W S) (geometry : Geometry)

/-- The clock control of one refill. -/
def steered (occupancy : Nat) (state : ConsumerState F S W) : ConsumerState F S W :=
  if occupancy ≠ 0 ∧ state.finite.isNone then
    let smoothed := smoothedOccupancy state.occupancyMilli occupancy
    { state with occupancyMilli := smoothed, ratio := steeredRatio W geometry smoothed state.ratio }
  else if Binary64.eq state.ratio (Binary64.ofRat 0) then
    { state with ratio := nominalRatio W geometry.outputRateHz geometry.inputRateHz }
  else state

/-- One conversion while `readable` slots wait in the FIFO. -/
def converted (quantum readable : Nat) (state : ConsumerState F S W) :
    RefillResult × ConsumerState F S W :=
  match adapter.converterQueuedInput state.converter with
  | (none, converter) => (.adapterError, { state with converter := converter })
  | (some queued, converter) =>
      ({ state with converter := converter }.steered geometry
        (occupancyOf readable state.inputPending queued)).convert adapter geometry quantum

/-- One refill of the output cache. -/
def refilled [Zero F] (state : ConsumerState F S W) (slots : List (SourceSample F)) :
    (RefillResult × ConsumerState F S W) × List (SourceSample F) :=
  if state.resetFailed then ((.adapterError, state), slots)
  else if state.outputPending ≠ 0 then ((.ready, state), slots)
  else
    let quantum := min geometry.capacity converterQuantum
    let wanted := desiredInput geometry quantum state - state.inputPending
    let taken := (state.makeInputSpace wanted geometry.capacity).takeAll geometry.gapCapacity
      wanted slots
    if taken.1.1 then
      let padded := taken.1.2.padInput quantum
      if padded.inputPending = 0 ∧ padded.zeroProgress then ((.starved, padded), taken.2)
      else (padded.converted adapter geometry quantum taken.2.length, taken.2)
    else ((.adapterError, taken.1.2), taken.2)

/-- Refills until an output or a fault, at most `limit` times. -/
def refilledTail [Zero F] : (limit : Nat) → RefillResult → ConsumerState F S W →
    List (SourceSample F) → (RefillResult × ConsumerState F S W) × List (SourceSample F)
  | 0, result, state, slots => ((result, state), slots)
  | limit + 1, result, state, slots =>
      if result = .starved then
        let again := state.refilled adapter geometry slots
        refilledTail limit again.1.1 again.1.2 again.2
      else ((result, state), slots)

omit [Binary64 W] in
/-- Every waiting record is received. -/
def receiveAll (records : List Interval) (state : ConsumerState F S W) : ConsumerState F S W :=
  records.foldl (fun state interval => state.receive interval) state

end ConsumerState

namespace RingView

variable [Binary32 F] [Binary64 W] (adapter : Adapter F W S) (geometry : Geometry)

omit [Binary64 W] in
/-- The call returns without an output. -/
def silent (state : ConsumerState F S W) (errored : Bool) (view : RingView F S W) :
    Rendered F × RingView F S W :=
  ((0, false, errored), { view with consumer := state })

/-- The boundary is completed; a failure drops what is unread. -/
def complete (boundary : Finite) (failed : Bool) (state : ConsumerState F S W)
    (view : RingView F S W) : Rendered F × RingView F S W :=
  let reset := state.reset adapter
  let errored := !reset.1 || failed
  ((0, false, errored),
    { view with
      slots := if errored then [] else view.slots
      records := if errored then [] else view.records
      account := { view.account with stamp := none }
      consumer := { reset.2 with quiet := true }
      finish := boundary.token * 4 +
        (if errored then FinishStatus.adapterError else FinishStatus.drained).bits })

/-- One lookahead sample is released, or the boundary is completed. -/
def drain (boundary : Finite) (state : ConsumerState F S W) (view : RingView F S W) :
    Rendered F × RingView F S W :=
  if ConsumerState.remainingLookahead geometry.lookahead boundary ≠ 0 then
    ((state.release geometry boundary).1,
      { view with consumer := (state.release geometry boundary).2 })
  else
    view.complete adapter { boundary with plcRemaining := some 0 } false
      { state with finite := some { boundary with plcRemaining := some 0 } }

variable [Widening F W]

/-- One output is emitted. -/
def emit (result : RefillResult) (state : ConsumerState F S W) (view : RingView F S W) :
    Rendered F × RingView F S W :=
  let emission := state.emission geometry result
  (emission.rendered,
    { view with
      consumer := emission.state
      missing := if emission.input.isNone then min (view.missing + 1) (2 ^ 64 - 1)
        else view.missing
      fed := if state.resetFailed then view.fed else view.fed ++ [emission.input] })

/-- A finite tail after its last refill. -/
def renderTail (boundary : Finite) (result : RefillResult) (state : ConsumerState F S W)
    (view : RingView F S W) : Rendered F × RingView F S W :=
  if result ≠ .ready then view.complete adapter boundary true state
  else if state.PastBoundary then view.drain adapter geometry boundary state
  else if state.muteFault then view.silent state true
  else view.emit geometry result state

/-- Convert and emit. -/
def renderOutput (state : ConsumerState F S W) (view : RingView F S W) :
    Rendered F × RingView F S W :=
  let refill := state.refilled adapter geometry view.slots
  match refill.1.2.finite with
  | some boundary =>
      let tail := refill.1.2.refilledTail adapter geometry geometry.finiteRefillLimit
        refill.1.1 refill.2
      { view with slots := tail.2 }.renderTail adapter geometry boundary tail.1.1 tail.1.2
  | none =>
      if refill.1.2.muteFault then { view with slots := refill.2 }.silent refill.1.2 true
      else { view with slots := refill.2 }.emit geometry refill.1.1 refill.1.2

/-- Drain an exhausted boundary, or convert. -/
def renderPrimed (state : ConsumerState F S W) (view : RingView F S W) :
    Rendered F × RingView F S W :=
  match state.finite with
  | some boundary =>
      if state.Draining then view.drain adapter geometry boundary state
      else view.renderOutput adapter geometry state
  | none => view.renderOutput adapter geometry state

/-- Stay silent below the reserve until the stream is primed. -/
def renderAwake (state : ConsumerState F S W) (view : RingView F S W) :
    Rendered F × RingView F S W :=
  if state.primed ∨ state.resetFailed then view.renderPrimed adapter geometry state
  else if view.slots.length < geometry.reserve ∧ state.finite.isNone then
    view.silent state false
  else view.renderPrimed adapter geometry { state with primed := true }

/-- Stay silent after a completed stream until its next publication. -/
def renderReady (state : ConsumerState F S W) (view : RingView F S W) :
    Rendered F × RingView F S W :=
  if state.muteFault then view.silent state true
  else if state.quiet then
    if view.slots.length = 0 then view.silent state state.resetFailed
    else view.renderAwake adapter geometry { state with quiet := false }
  else view.renderAwake adapter geometry state

omit [Binary32 F] [Binary64 W] [Widening F W] in
/-- The consumer at the start of a render: the boundary is captured and the
waiting records are received. -/
def started (view : RingView F S W) : ConsumerState F S W :=
  let captured := if FinishPending view.finish ∧ view.consumer.finite.isNone then
      view.consumer.capture view.finish view.slots.length
    else view.consumer
  captured.receiveAll view.records

/-- One render. -/
def render (view : RingView F S W) : Rendered F × RingView F S W :=
  { view with records := [] }.renderReady adapter geometry view.started

omit [Widening F W] in
/-- One stream reset. -/
def reset (view : RingView F S W) : Bool × RingView F S W :=
  let reset := view.consumer.reset adapter
  (reset.1,
    { view with
      slots := []
      records := []
      account := { view.account with stamp := none }
      consumer := reset.2
      finish := if FinishPending view.finish then view.finish + FinishStatus.cancelled.bits
        else view.finish })

/-- One consumer call. -/
def consume (call : ConsumerCall) (view : RingView F S W) :
    ConsumerResult F × RingView F S W :=
  match call with
  | .render =>
      let rendered := view.render adapter geometry
      (.rendered rendered.1, rendered.2)
  | .reset =>
      let reset := view.reset adapter
      (.reset reset.1, reset.2)

end RingView

end PcmRing
