import PcmRing.SourceMute
import PcmRing.Concealment
import PcmRing.SampleRateAdapter

/-!
# The state of a ring and its single accesses

The ring is one memory: the shared cursors and slots, the diagnostic counters,
and the state each endpoint keeps to itself.  Its operations are programs over
the accesses below, each of which is one atomic load or store, one slot
access, or one step on endpoint-local state.

A ledger beside the memory records what the theorems speak about, such as the
stream a slot was accepted in.  It is a function of the accesses performed and
no access answers from it.
-/

namespace PcmRing

open AtomicProgram TwoLapQueue

/-- Maximum input/output chunk handed to the persistent converter per refill. -/
def converterQuantum : Nat := 256

def minimumCapacity : Nat := converterQuantum * 2

/-- Largest source workspace accepted by the adapter's 32-bit counts. -/
def maximumCapacity : Nat := 2 ^ 32 - 1

/-- Billionths of a source frame. -/
def frameUnit : Nat := 1000000000

inductive PlcMode where
  | disabled
  | g711AppendixI
deriving DecidableEq

/-- Immutable input-domain buffer policy and maximum public block sizes, in
the ranges of their machine types. -/
structure Settings where
  capacity : Nat
  inputRateHz : Nat
  outputRateHz : Nat
  reserve : Nat
  target : Nat
  maxProducer : Nat
  maxOutput : Nat
  plc : PlcMode
  inputRateHz_lt : inputRateHz < 2 ^ 32 := by decide
  outputRateHz_lt : outputRateHz < 2 ^ 32 := by decide

inductive CreateError where
  | invalid
  | adapter
deriving DecidableEq

section Validation

variable (W : Type) [Binary64 W]

def minimumRatio : W := Binary64.ofRat (1 / 256)

def maximumRatio : W := Binary64.ofRat 256

def nominalRatio (outputRateHz inputRateHz : Nat) : W :=
  (Binary64.ofRat (outputRateHz : ℚ) : W) / Binary64.ofRat (inputRateHz : ℚ)

/-- Source frames a worst-ratio callback can need, and one more. -/
def Settings.budget (settings : Settings) : Nat :=
  let numerator := settings.outputRateHz * 999
  let denominator := settings.inputRateHz * 1000
  (if numerator * 256 < denominator then settings.maxOutput * 256
    else ceilDiv (settings.maxOutput * denominator) numerator) + 1

/-- Validate source headroom for a worst-ratio callback and producer burst. -/
def Settings.validate (settings : Settings) : Except CreateError Unit :=
  let ratio := nominalRatio W settings.outputRateHz settings.inputRateHz
  if ¬(minimumCapacity ≤ settings.capacity ∧ settings.capacity ≤ maximumCapacity) ∨
      settings.inputRateHz = 0 ∨ settings.outputRateHz = 0 ∨
      ¬(Binary64.le (minimumRatio W) ratio = true ∧
        Binary64.le ratio (maximumRatio W) = true) ∨
      settings.capacity < settings.reserve ∨ settings.capacity < settings.target ∨
      settings.maxProducer = 0 ∨ settings.maxOutput = 0 ∨
      (2 ^ 63 - 1) / 4 < settings.maxProducer ∨ (2 ^ 63 - 1) / 4 < settings.maxOutput then
    .error .invalid
  else if settings.plc = .g711AppendixI ∧
      (settings.reserve < settings.budget ∨ settings.target < settings.reserve ∨
        settings.capacity < settings.target + settings.maxProducer) then
    .error .invalid
  else .ok ()

end Validation

/-- The fields of a ring that never change after its creation. -/
structure Geometry where
  capacity : Nat
  reserve : Nat
  target : Nat
  inputRateHz : Nat
  outputRateHz : Nat
  maxProducer : Nat
  maxOutput : Nat
  outputDelaySamples : Nat
  /-- Reserved entries of the gap queue. -/
  gapCapacity : Nat
  /-- Retained lookahead positions; zero without concealment. -/
  lookahead : Nat
  finiteRefillLimit : Nat

/-- One source slot; missing PCM is zero only inside the persistent converter. -/
structure SourceSample (F : Type) where
  pcm : F
  missing : Bool
  stamp : Option Stamp

/-- Consumer-local boundary; no producer PCM may pass this outstanding marker. -/
structure Finite where
  token : Nat
  stop : Nat
  plcRemaining : Option Nat

/-- Half-open missing interval on the consumer's accepted source timeline. -/
structure GapSpan where
  start : Nat
  stop : Nat
deriving DecidableEq

/-- Persistent state touched exclusively by the consumer endpoint. -/
structure ConsumerState (F S W : Type) where
  converter : S
  input : Nat → F
  output : Nat → F
  inputOffset : Nat
  inputPending : Nat
  outputOffset : Nat
  outputPending : Nat
  outputMissing : Bool
  sourceTaken : Nat
  sourceAccepted : Nat
  /-- Non-missing zero extension accepted by the converter. -/
  paddingAccepted : Nat
  inputPadding : Bool
  finite : Option Finite
  /-- A completed finite stream stays silent until its next publication. -/
  quiet : Bool
  gaps : List GapSpan
  plc : Option (Plc F)
  zeroProgress : Bool
  occupancyMilli : Nat
  ratio : W
  primed : Bool
  /-- A failed adapter reset blocks conversion until a later reset succeeds. -/
  resetFailed : Bool
  sourceBase : Option (Nat × Int)
  cacheStart : Int
  cacheEnd : Int
  cacheCount : Nat
  muteHistory : History
  muteFault : Bool
  /-- Slots of the stream that the fence or a full gap queue refused; nothing reads it. -/
  refused : Nat
  plcPositions : Nat → Option Position
  plcPosition : Nat

/-- Single-writer diagnostic counters. -/
inductive Counter where
  | discarded
  | missing
  | consecutiveShortfall
  | shortfallAverageMicro
  | filteredOccupancyMilli
  | adapterErrorCount
deriving DecidableEq

/-- What the ledger keeps about one accepted slot: the stream it was accepted
in, the stream its stamp was set in, and how many mute records were published
before it. -/
structure SlotNote where
  serial : Nat
  born : Nat
  lead : Nat
deriving DecidableEq

/-- The consumer as its finite boundary found it, with where its stream began,
and the numbers of renders that had reported an error and of lookahead samples
released since. -/
structure Retired (F S W : Type) where
  state : ConsumerState F S W
  start : Nat
  errors : Nat
  released : Nat

structure Ledger (F S W : Type) where
  slots : List SlotNote
  /-- The producer epoch under which each mute record was published. -/
  records : List Nat
  stampBorn : Nat
  /-- Slots consumed before the current stream. -/
  streamStart : Nat
  /-- Records consumed before the current stream. -/
  recordsStart : Nat
  errors : Nat
  released : Nat
  retired : Option (Retired F S W)
  /-- Everything fed onward to concealment. -/
  fed : List (Option F)
  /-- Every publication gate that found no pending boundary found its epoch current. -/
  gatesCurrent : Bool
  /-- Every mute record was published under the current epoch. -/
  mutesCurrent : Bool
  /-- The mailbox was empty at every successful completion. -/
  drainedClear : Bool

/-- Everything one ring owns. -/
structure Ring (F S W : Type) where
  pcm : Channel (SourceSample F)
  mutes : Channel Interval
  counters : Counter → Nat
  ratioCorrectionPpm : Int
  consumer : ConsumerState F S W
  producerStamp : Option Stamp
  /-- A 64-bit count of resets, taken not to wrap. -/
  resetSerial : Nat
  producerEpoch : Nat
  /-- Upper bits are a token; the two low bits are a `FinishStatus`. -/
  finish : Nat
  ledger : Ledger F S W

/-- Which call loads the finish word; the load is the same everywhere. -/
inductive FinishSite where
  | gate
  | publishGate
  | request
  | status
  | render
  | reset
deriving DecidableEq

inductive Access (F S W : Type) : Type where
  | pcm (access : QueueAccess (SourceSample F))
  | mutes (access : QueueAccess Interval)
  | loadResetSerial
  | fetchAddResetSerial
  | loadFinish (site : FinishSite)
  | storeFinish (word : Nat)
  | loadCounter (counter : Counter)
  | storeCounter (counter : Counter) (value : Nat)
  | storeRatioCorrection (ppm : Int)
  | loadStamp
  | setStamp (stamp : Option Stamp)
  | advanceStamp (stamp : Stamp)
  | loadEpoch
  | storeEpoch (epoch : Nat)
  /-- A consumer call begins to work on the consumer state, and ends. -/
  | enter
  | leave (state : ConsumerState F S W) (errored : Bool)
  /-- Consumer-local steps that the ledger or a theorem refers to. -/
  | lookup (history : History) (position : Option Position)
  | feed (input : Option F)
  | release
  | retire (state : ConsumerState F S W)

/-- A pending boundary: a nonzero word with status `Pending`. -/
def FinishPending (word : Nat) : Prop :=
  word ≠ 0 ∧ word % 4 = 0

instance (word : Nat) : Decidable (FinishPending word) :=
  inferInstanceAs (Decidable (_ ∧ _))

variable {F S W : Type}

namespace Access

@[reducible]
def Resp : Access F S W → Type
  | pcm access => access.Resp
  | mutes access => access.Resp
  | loadResetSerial | loadFinish _ | loadCounter _ | loadEpoch => Nat
  | loadStamp => Option Stamp
  | enter => ConsumerState F S W
  | lookup .. => Bool
  | fetchAddResetSerial | storeFinish _ | storeCounter .. | storeRatioCorrection _
  | setStamp _ | advanceStamp _ | storeEpoch _ | leave .. | feed _ | release | retire _ => Unit

end Access

namespace Ledger

/-- What the ledger records about one access. -/
def note (geometry : Geometry) (access : Access F S W) (ring : Ring F S W) : Ledger F S W :=
  let ledger := ring.ledger
  match access with
  | .pcm (.storeWritten cursor) =>
      { ledger with
        slots := ledger.slots ++ List.replicate
          (distance geometry.capacity cursor ring.pcm.queue.written)
          ⟨ring.resetSerial, ledger.stampBorn, ring.mutes.published.length⟩ }
  | .pcm (.discardTo cursor) =>
      { ledger with
        streamStart := ring.pcm.passed.length +
          distance geometry.capacity cursor ring.pcm.queue.read }
  | .mutes (.discardTo cursor) =>
      { ledger with
        recordsStart := ring.mutes.passed.length +
          distance mailboxQueue cursor ring.mutes.queue.read }
  | .mutes (.storeWritten cursor) =>
      { ledger with
        records := ledger.records ++ List.replicate
          (distance mailboxQueue cursor ring.mutes.queue.written) ring.producerEpoch
        mutesCurrent := ledger.mutesCurrent &&
          decide (cursor = ring.mutes.queue.written ∨ ring.producerEpoch = ring.resetSerial) }
  | .fetchAddResetSerial =>
      { ledger with
        streamStart := ring.pcm.passed.length
        recordsStart := ring.mutes.passed.length
        errors := 0
        released := 0 }
  | .loadFinish .publishGate =>
      { ledger with
        gatesCurrent := ledger.gatesCurrent &&
          decide (FinishPending ring.finish ∨ ring.producerEpoch = ring.resetSerial) }
  | .storeFinish word =>
      { ledger with
        drainedClear := ledger.drainedClear &&
          (decide (word % 4 ≠ 1) || (ring.mutes.unread mailboxQueue).isEmpty) }
  | .setStamp _ => { ledger with stampBorn := ring.resetSerial }
  | .leave _ errored =>
      { ledger with errors := if errored then ledger.errors + 1 else ledger.errors }
  | .feed input => { ledger with fed := ledger.fed ++ [input] }
  | .release => { ledger with released := ledger.released + 1 }
  | .retire state =>
      { ledger with
        retired := some ⟨state, ledger.streamStart, ledger.errors, ledger.released⟩ }
  | _ => ledger

end Ledger

/-- What each access answers. -/
def answer (geometry : Geometry) (access : Access F S W) (ring : Ring F S W) : access.Resp :=
  match access with
  | .pcm access => (ring.pcm.exec geometry.capacity access).1
  | .mutes access => (ring.mutes.exec mailboxQueue access).1
  | .loadResetSerial => ring.resetSerial
  | .loadFinish _ => ring.finish
  | .loadCounter counter => ring.counters counter
  | .loadStamp => ring.producerStamp
  | .loadEpoch => ring.producerEpoch
  | .enter => ring.consumer
  | .lookup history position => history.muted position
  | .fetchAddResetSerial | .storeFinish _ | .storeCounter .. | .storeRatioCorrection _
  | .setStamp _ | .advanceStamp _ | .storeEpoch _ | .leave .. | .feed _ | .release
  | .retire _ => ()

/-- What each access changes. -/
def effect (geometry : Geometry) (access : Access F S W) (ring : Ring F S W) : Ring F S W :=
  let noted := { ring with ledger := Ledger.note geometry access ring }
  match access with
  | .pcm access => { noted with pcm := (ring.pcm.exec geometry.capacity access).2 }
  | .mutes access => { noted with mutes := (ring.mutes.exec mailboxQueue access).2 }
  | .fetchAddResetSerial => { noted with resetSerial := ring.resetSerial + 1 }
  | .storeFinish word => { noted with finish := word }
  | .storeCounter counter value =>
      { noted with counters := Function.update ring.counters counter value }
  | .storeRatioCorrection ppm => { noted with ratioCorrectionPpm := ppm }
  | .setStamp stamp => { noted with producerStamp := stamp }
  | .advanceStamp stamp => { noted with producerStamp := some stamp }
  | .storeEpoch epoch => { noted with producerEpoch := epoch }
  | .leave state _ => { noted with consumer := state }
  | .loadResetSerial | .loadFinish _ | .loadCounter _ | .loadStamp | .loadEpoch | .enter
  | .lookup .. | .feed _ | .release | .retire _ => noted

/-- The meaning of every access. -/
def exec (geometry : Geometry) : Semantics (Access.Resp (F := F) (S := S) (W := W))
    (Ring F S W) :=
  fun access ring => (answer geometry access ring, effect geometry access ring)

end PcmRing
