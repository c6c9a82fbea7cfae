import PcmRing.ReachedStreams

/-!
# The exported C functions

What a caller of the descriptor can do: every function checks its pointers and
its block bounds, calls one endpoint of the ring, and stores the answer behind
the caller's pointers.
-/

namespace PcmRing

open AtomicProgram TwoLapQueue

variable {F S W α : Type}

def abiVersion : Nat := 3

def resultOk : Int := 0

/-- An invalid caller argument. -/
def resultInvalidArgument : Int := -1

/-- A failed control-plane allocation. -/
def resultNoMemory : Int := -2

/-- An unavailable or failed adapter. -/
def resultAdapterError : Int := -3

/-- Construction settings as the caller lays them out. -/
structure CConfig where
  structSize : Nat
  version : Nat
  capacitySamples : Nat
  inputRateHz : Nat
  outputRateHz : Nat
  reserveSamples : Nat
  targetSamples : Nat
  maxProducerSamples : Nat
  maxOutputSamples : Nat
  plcMode : Nat
  inputRateHz_lt : inputRateHz < 2 ^ 32 := by decide
  outputRateHz_lt : outputRateHz < 2 ^ 32 := by decide

/-- Bytes of a `CConfig`: ten fields, aligned to eight. -/
def configSize : Nat := 64

/-- A diagnostic snapshot as the caller lays it out. -/
structure CObservation where
  structSize : Nat
  version : Nat
  capacitySamples : Nat
  availableSamples : Nat
  reserveSamples : Nat
  filteredOccupancySamples : Nat
  targetSamples : Nat
  ratioCorrectionPpm : Int
  reserved : Nat
  discardedSamples : Nat
  missingSamples : Nat
  consecutiveShortfallSamples : Nat
  shortfallAverageMilli : Nat
  adapterErrorCount : Nat

/-- Bytes of a `CObservation`. -/
def observationSize : Nat := 96

/-- What a ring handle can be. -/
inductive Handle where
  | null
  | ring
deriving DecidableEq

/-- A pointer of the caller into the store of its type; `none` is `NULL`. -/
abbrev Pointer : Type :=
  Option Nat

/-- The memory of the caller, one store for each type that a call reads or writes. -/
structure CallerMemory (F : Type) where
  floats : Nat → F
  flags : Nat → Bool
  longs : Nat → Nat
  words : Nat → Nat
  spans : Nat → Span
  configs : Nat → CConfig
  observations : Nat → CObservation
  handles : Nat → Handle

namespace CallerMemory

def storeFloat (address : Nat) (value : F) (memory : CallerMemory F) : CallerMemory F :=
  { memory with floats := Function.update memory.floats address value }

def storeFlag (address : Nat) (value : Bool) (memory : CallerMemory F) : CallerMemory F :=
  { memory with flags := Function.update memory.flags address value }

def storeLong (address : Nat) (value : Nat) (memory : CallerMemory F) : CallerMemory F :=
  { memory with longs := Function.update memory.longs address value }

def storeWord (address : Nat) (value : Nat) (memory : CallerMemory F) : CallerMemory F :=
  { memory with words := Function.update memory.words address value }

def storeObservation (address : Nat) (value : CObservation) (memory : CallerMemory F) :
    CallerMemory F :=
  { memory with observations := Function.update memory.observations address value }

def storeHandle (address : Nat) (value : Handle) (memory : CallerMemory F) : CallerMemory F :=
  { memory with handles := Function.update memory.handles address value }

/-- A block of consecutive entries. -/
def slice (store : Nat → α) (address count : Nat) : List α :=
  (List.range count).map fun index => store (address + index)

/-- Borrow input; an empty block needs no pointer. -/
def checkedInput (memory : CallerMemory F) (input : Pointer) (samples : Nat) : Option (List F) :=
  if samples = 0 then some []
  else input.map fun address => slice memory.floats address samples

/-- Borrow a bounded metadata array. -/
def checkedSpans (memory : CallerMemory F) (spans : Pointer) (count : Nat) :
    Option (List Span) :=
  if maxSpans < count then none
  else if count = 0 then some []
  else spans.map fun address => slice memory.spans address count

end CallerMemory

/-- Borrow output; an empty block needs no pointer. -/
def checkedOutput (output : Pointer) (samples : Nat) : Option Nat :=
  if samples = 0 then some 0 else output

def PlcMode.fromFfi : Nat → Option PlcMode
  | 0 => some disabled
  | 1 => some g711AppendixI
  | _ => none

/-- Validate a caller-owned config before copying its values. -/
def checkedConfig (W : Type) [Binary64 W] (memory : CallerMemory F) (config : Pointer) :
    Except Int Settings :=
  match config with
  | none => .error resultInvalidArgument
  | some address =>
      let config := memory.configs address
      if config.structSize < configSize ∨ config.version ≠ abiVersion then
        .error resultInvalidArgument
      else
        match PlcMode.fromFfi config.plcMode with
        | none => .error resultInvalidArgument
        | some plc =>
            let settings : Settings :=
              { capacity := config.capacitySamples
                inputRateHz := config.inputRateHz
                outputRateHz := config.outputRateHz
                reserve := config.reserveSamples
                target := config.targetSamples
                maxProducer := config.maxProducerSamples
                maxOutput := config.maxOutputSamples
                plc := plc
                inputRateHz_lt := config.inputRateHz_lt
                outputRateHz_lt := config.outputRateHz_lt }
            match settings.validate W with
            | .error _ => .error resultInvalidArgument
            | .ok () => .ok settings

/-- Build a ring with a resolved adapter, and publish its handle; `allocated` tells
whether there is memory for the handle. -/
def ringCreate [Binary32 F] [Binary64 W] (adapter : Option (Adapter F W S)) (allocated : Bool)
    (config output : Pointer) (memory : CallerMemory F) :
    (Int × CallerMemory F) × Option (Geometry × Ring F S W) :=
  match output with
  | none => ((resultInvalidArgument, memory), none)
  | some output =>
      match checkedConfig W memory config with
      | .error code => ((code, memory), none)
      | .ok settings =>
          let cleared := memory.storeHandle output .null
          match adapter with
          | none => ((resultAdapterError, cleared), none)
          | some adapter =>
              match Ring.create adapter settings with
              | .error .invalid => ((resultInvalidArgument, cleared), none)
              | .error .adapter => ((resultAdapterError, cleared), none)
              | .ok created =>
                  if allocated then
                    ((resultOk, cleared.storeHandle output .ring), some created)
                  else ((resultNoMemory, cleared), none)

/-- The caller's memory beside the ring. -/
structure Host (F S W : Type) where
  memory : CallerMemory F
  ring : Ring F S W

/-- A result code, and everything afterwards. -/
abbrev Outcome (F S W : Type) : Type :=
  Int × Host F S W

/-- Return before anything is touched. -/
def Host.refuse (host : Host F S W) : Outcome F S W :=
  (resultInvalidArgument, host)

/-- Carry out one operation of the ring. -/
def Host.operate (geometry : Geometry) (operation : RingProgram F S W α) (host : Host F S W) :
    α × Host F S W :=
  let ended := operation.run (exec geometry) host.ring
  (ended.1, { host with ring := ended.2 })

/-- Return an answer to the caller. -/
def Host.store (host : Host F S W) (change : CallerMemory F → CallerMemory F) : Host F S W :=
  { host with memory := change host.memory }

section Producer

variable [Binary32 F] (geometry : Geometry)

/-- Publish one producer sample. -/
def ringProducerPushSample (handle : Handle) (sample : F) (accepted : Pointer)
    (host : Host F S W) : Outcome F S W :=
  match accepted, handle with
  | none, _ | _, .null => host.refuse
  | some accepted, .ring =>
      let pushed := host.operate geometry (producerPushSample geometry sample)
      (resultOk, pushed.2.store (·.storeFlag accepted pushed.1))

/-- Publish a producer block. -/
def ringProducerPush (handle : Handle) (input : Pointer) (samples : Nat) (accepted : Pointer)
    (host : Host F S W) : Outcome F S W :=
  match accepted, handle with
  | none, _ | _, .null => host.refuse
  | some accepted, .ring =>
      if geometry.maxProducer < samples then host.refuse
      else
        match host.memory.checkedInput input samples with
        | none => host.refuse
        | some input =>
            let pushed := host.operate geometry (producerPush geometry input)
            (resultOk, pushed.2.store (·.storeLong accepted pushed.1))

/-- Publish a counted gap. -/
def ringProducerGap (handle : Handle) (samples : Nat) (accepted : Pointer)
    (host : Host F S W) : Outcome F S W :=
  match accepted, handle with
  | none, _ | _, .null => host.refuse
  | some accepted, .ring =>
      if geometry.maxProducer < samples then host.refuse
      else
        let pushed := host.operate geometry (producerGap geometry samples)
        (resultOk, pushed.2.store (·.storeLong accepted pushed.1))

/-- Publish source spans before the corresponding accepted PCM. -/
def ringProducerPushTagged (handle : Handle) (input : Pointer) (samples generation
    sourceStart : Nat) (spans : Pointer) (count : Nat) (accepted : Pointer)
    (host : Host F S W) : Outcome F S W :=
  match accepted, handle with
  | none, _ | _, .null => host.refuse
  | some accepted, .ring =>
      if geometry.maxProducer < samples then host.refuse
      else
        match host.memory.checkedInput input samples, host.memory.checkedSpans spans count with
        | none, _ | _, none => host.refuse
        | some input, some spans =>
            let pushed := host.operate geometry
              (producerPushTagged geometry input generation sourceStart spans)
            match pushed.1 with
            | none => (resultInvalidArgument, pushed.2)
            | some credit => (resultOk, pushed.2.store (·.storeLong accepted credit))

omit [Binary32 F] in
/-- Retrospective interval-only update. -/
def ringProducerMute (handle : Handle) (generation : Nat) (spans : Pointer) (count : Nat)
    (accepted : Pointer) (host : Host F S W) : Outcome F S W :=
  match accepted, handle with
  | none, _ | _, .null => host.refuse
  | some accepted, .ring =>
      match host.memory.checkedSpans spans count with
      | none => host.refuse
      | some spans =>
          let muted := host.operate geometry (producerMute geometry generation spans)
          match muted.1 with
          | none => (resultInvalidArgument, muted.2)
          | some credit => (resultOk, muted.2.store (·.storeWord accepted (credit % 2 ^ 32)))

omit [Binary32 F] in
/-- Publish a finite prefix. -/
def ringProducerFinish (handle : Handle) (token : Pointer) (host : Host F S W) :
    Outcome F S W :=
  match handle, token with
  | .null, _ | _, none => host.refuse
  | .ring, some token =>
      let finished := host.operate geometry producerFinish
      match finished.1 with
      | none => (resultInvalidArgument, finished.2)
      | some granted => (resultOk, finished.2.store (·.storeLong token granted))

omit [Binary32 F] in
/-- Acquire the outcome of a finite boundary. -/
def ringFinishStatus (handle : Handle) (token : Nat) (status : Pointer) (host : Host F S W) :
    Outcome F S W :=
  match handle, status with
  | .null, _ | _, none => host.refuse
  | .ring, some status =>
      let asked := host.operate geometry (finishStatus token)
      match asked.1 with
      | none => (resultInvalidArgument, asked.2)
      | some current => (resultOk, asked.2.store (·.storeWord status current.bits))

end Producer

section Consumer

variable [Binary32 F] [Binary64 W] (adapter : Adapter F W S) (geometry : Geometry)

/-- Discard a completed burst. -/
def ringConsumerReset (handle : Handle) (host : Host F S W) : Outcome F S W :=
  match handle with
  | .null => host.refuse
  | .ring =>
      let reset := host.operate geometry (consumerReset adapter)
      (if reset.1 then resultOk else resultAdapterError, reset.2)

variable [Widening F W]

/-- Render one output sample. -/
def ringConsumerRenderSample (handle : Handle) (sample real : Pointer) (host : Host F S W) :
    Outcome F S W :=
  match sample, real, handle with
  | none, _, _ | _, none, _ | _, _, .null => host.refuse
  | some sample, some real, .ring =>
      let rendered := host.operate geometry (consumerRenderSample adapter geometry)
      (if rendered.1.2.2 then resultAdapterError else resultOk,
        rendered.2.store fun memory =>
          (memory.storeFloat sample rendered.1.1).storeFlag real rendered.1.2.1)

/-- Render consecutive samples; count the received ones and join the faults. -/
def consumerRender (output : Nat) : (samples : Nat) → (realSamples : Nat) →
    (adapterError : Bool) → Host F S W → (Nat × Bool) × Host F S W
  | 0, realSamples, adapterError, host => ((realSamples, adapterError), host)
  | samples + 1, realSamples, adapterError, host =>
      let rendered := host.operate geometry (consumerRenderSample adapter geometry)
      consumerRender (output + 1) samples (realSamples + rendered.1.2.1.toNat)
        (adapterError || rendered.1.2.2)
        (rendered.2.store (·.storeFloat output rendered.1.1))

/-- Render a variable-size output block. -/
def ringConsumerRender (handle : Handle) (output : Pointer) (samples : Nat)
    (realSamples : Pointer) (host : Host F S W) : Outcome F S W :=
  match realSamples, handle with
  | none, _ | _, .null => host.refuse
  | some realSamples, .ring =>
      if geometry.maxOutput < samples then host.refuse
      else
        match checkedOutput output samples with
        | none => host.refuse
        | some output =>
            let rendered := consumerRender adapter geometry output samples 0 false host
            (if rendered.1.2 then resultAdapterError else resultOk,
              rendered.2.store (·.storeLong realSamples rendered.1.1))

end Consumer

section Diagnostics

variable (geometry : Geometry)

/-- A best-effort diagnostic snapshot. -/
def Ring.observe (ring : Ring F S W) : CObservation where
  structSize := observationSize
  version := abiVersion
  capacitySamples := geometry.capacity
  availableSamples := ((available geometry).run (exec geometry) ring).1
  reserveSamples := geometry.reserve
  filteredOccupancySamples := ring.counters .filteredOccupancyMilli / 1000
  targetSamples := geometry.target
  ratioCorrectionPpm := ring.ratioCorrectionPpm
  reserved := 0
  discardedSamples := ring.counters .discarded
  missingSamples := ring.counters .missing
  consecutiveShortfallSamples := ring.counters .consecutiveShortfall
  shortfallAverageMilli := min (ring.counters .shortfallAverageMicro + 999) (2 ^ 64 - 1) / 1000
  adapterErrorCount := ring.counters .adapterErrorCount

/-- Copy a diagnostic snapshot. -/
def ringObserve (handle : Handle) (observation : Pointer) (host : Host F S W) :
    Outcome F S W :=
  match handle, observation with
  | .null, _ | _, none => host.refuse
  | .ring, some observation =>
      if (host.memory.observations observation).structSize < observationSize then host.refuse
      else (resultOk, host.store (·.storeObservation observation (host.ring.observe geometry)))

/-- Report the immutable filter delay. -/
def ringOutputDelay (handle : Handle) (samples : Pointer) (host : Host F S W) :
    Outcome F S W :=
  match handle, samples with
  | .null, _ | _, none => host.refuse
  | .ring, some samples => (resultOk, host.store (·.storeLong samples geometry.outputDelaySamples))

end Diagnostics

/-- One call through the descriptor. -/
inductive AbiCall (F : Type) where
  | producerPushSample (handle : Handle) (sample : F) (accepted : Pointer)
  | producerPush (handle : Handle) (input : Pointer) (samples : Nat) (accepted : Pointer)
  | producerGap (handle : Handle) (samples : Nat) (accepted : Pointer)
  | producerPushTagged (handle : Handle) (input : Pointer) (samples generation
      sourceStart : Nat) (spans : Pointer) (count : Nat) (accepted : Pointer)
  | producerMute (handle : Handle) (generation : Nat) (spans : Pointer) (count : Nat)
      (accepted : Pointer)
  | producerFinish (handle : Handle) (token : Pointer)
  | finishStatus (handle : Handle) (token : Nat) (status : Pointer)
  | consumerReset (handle : Handle)
  | consumerRenderSample (handle : Handle) (sample real : Pointer)
  | consumerRender (handle : Handle) (output : Pointer) (samples : Nat) (realSamples : Pointer)
  | observe (handle : Handle) (observation : Pointer)
  | outputDelay (handle : Handle) (samples : Pointer)

section Table

variable [Binary32 F] [Binary64 W] [Widening F W] (adapter : Adapter F W S) (geometry : Geometry)

/-- The function behind each entry. -/
def AbiCall.serve : AbiCall F → Host F S W → Outcome F S W
  | producerPushSample handle sample accepted =>
      ringProducerPushSample geometry handle sample accepted
  | producerPush handle input samples accepted =>
      ringProducerPush geometry handle input samples accepted
  | producerGap handle samples accepted => ringProducerGap geometry handle samples accepted
  | producerPushTagged handle input samples generation sourceStart spans count accepted =>
      ringProducerPushTagged geometry handle input samples generation sourceStart spans count
        accepted
  | producerMute handle generation spans count accepted =>
      ringProducerMute geometry handle generation spans count accepted
  | producerFinish handle token => ringProducerFinish geometry handle token
  | finishStatus handle token status => ringFinishStatus geometry handle token status
  | consumerReset handle => ringConsumerReset adapter geometry handle
  | consumerRenderSample handle sample real =>
      ringConsumerRenderSample adapter geometry handle sample real
  | consumerRender handle output samples realSamples =>
      ringConsumerRender adapter geometry handle output samples realSamples
  | observe handle observation => ringObserve geometry handle observation
  | outputDelay handle samples => ringOutputDelay geometry handle samples

/-- Calls one after the other, and the codes that they return. -/
def AbiCall.serveAll : List (AbiCall F) → Host F S W → List Int × Host F S W
  | [], host => ([], host)
  | call :: rest, host =>
      let served := call.serve adapter geometry host
      let others := serveAll rest served.2
      (served.1 :: others.1, others.2)

end Table

end PcmRing
