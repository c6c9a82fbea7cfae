import PcmRing.ConsumerRender
import PcmRing.ThreadInterleaving

/-!
# One producer and one consumer on a ring

Creation of a ring, and the system of two threads whose calls are the
operations of the two endpoints, interleaved at single accesses.
-/

namespace PcmRing

open AtomicProgram TwoLapQueue

variable {F S W : Type}

section Creation

variable [Binary32 F] [Binary64 W]

/-- The immutable fields, given the converter's delays. -/
def Settings.geometry (settings : Settings) (outputDelaySamples delay : Nat) : Geometry where
  capacity := settings.capacity
  reserve := settings.reserve
  target := settings.target
  inputRateHz := settings.inputRateHz
  outputRateHz := settings.outputRateHz
  maxProducer := settings.maxProducer
  maxOutput := settings.maxOutput
  outputDelaySamples := outputDelaySamples
  -- Capacity workspace slots plus capacity adapter backlog and filter history
  -- can retain gap markers.
  gapCapacity := settings.capacity * 2 + ceilDiv delay frameUnit + 2
  lookahead :=
    match settings.plc with
    | .disabled => 0
    | .g711AppendixI => plcDelay settings.outputRateHz
  finiteRefillLimit := settings.capacity * 2 + ceilDiv delay frameUnit + converterQuantum

def ConsumerState.initial (settings : Settings) (gapCapacity : Nat) (converter : S) :
    ConsumerState F S W where
  converter := converter
  input _ := 0
  output _ := 0
  inputOffset := 0
  inputPending := 0
  outputOffset := 0
  outputPending := 0
  outputMissing := false
  sourceTaken := 0
  sourceAccepted := 0
  paddingAccepted := 0
  inputPadding := false
  finite := none
  quiet := false
  gaps := []
  plc :=
    match settings.plc with
    | .disabled => none
    | .g711AppendixI => some (Plc.new settings.outputRateHz)
  zeroProgress := false
  occupancyMilli := 0
  ratio := Binary64.ofRat 0
  primed := false
  resetFailed := false
  sourceBase := none
  cacheStart := 0
  cacheEnd := 0
  cacheCount := 0
  muteHistory := History.new gapCapacity
  muteFault := false
  refused := 0
  plcPositions _ := none
  plcPosition := 0

def Ledger.initial : Ledger F S W where
  slots := []
  records := []
  stampBorn := 0
  streamStart := 0
  recordsStart := 0
  errors := 0
  released := 0
  retired := none
  fed := []
  gatesCurrent := true
  mutesCurrent := true
  drainedClear := true

def Ring.initial (consumer : ConsumerState F S W) : Ring F S W where
  pcm := Channel.empty ⟨0, false, none⟩
  -- Never read; the source's placeholder is an empty span.
  mutes := Channel.empty ⟨0, ⟨0, 1⟩, Nat.one_pos⟩
  counters _ := 0
  ratioCorrectionPpm := 0
  consumer := consumer
  producerStamp := none
  resetSerial := 0
  producerEpoch := 0
  finish := 0
  ledger := Ledger.initial

/-- Allocate a ring and its converter before either endpoint runs. -/
def Ring.create (adapter : Adapter F W S) (settings : Settings) :
    Except CreateError (Geometry × Ring F S W) :=
  match settings.validate W with
  | .error error => .error error
  | .ok () =>
      match adapter.createConverter settings.inputRateHz settings.outputRateHz
        settings.capacity converterQuantum with
      | none => .error .adapter
      | some (converter, outputDelay) =>
          match adapter.converterInputDelay converter with
          | (none, _) => .error .adapter
          | (some delay, converter) =>
              let geometry := settings.geometry outputDelay delay.toNat
              .ok (geometry,
                Ring.initial (ConsumerState.initial settings geometry.gapCapacity converter))

end Creation

inductive Party where
  | producer
  | consumer
deriving DecidableEq

inductive ProducerCall (F : Type) where
  | pushSample (sample : F)
  | push (input : List F)
  | pushTagged (input : List F) (generation sourceStart : Nat) (spans : List Span)
  | gap (samples : Nat)
  | mute (generation : Nat) (spans : List Span)
  | finish
  | status (token : Nat)
deriving DecidableEq

inductive ProducerResult where
  | published (accepted : Bool)
  | count (accepted : Nat)
  | credit (accepted : Option Nat)
  | token (granted : Option Nat)
  | status (current : Option FinishStatus)
deriving DecidableEq

inductive ConsumerCall where
  | render
  | reset
deriving DecidableEq

inductive ConsumerResult (F : Type) where
  | rendered (output : Rendered F)
  | reset (succeeded : Bool)
deriving DecidableEq

@[reducible]
def Party.Call (F : Type) : Party → Type
  | producer => ProducerCall F
  | consumer => ConsumerCall

@[reducible]
def Party.Ret (F : Type) : Party → Type
  | producer => ProducerResult
  | consumer => ConsumerResult F

variable [Binary32 F] [Binary64 W] [Widening F W]

/-- The program of each producer call. -/
def producerBody (geometry : Geometry) : ProducerCall F → RingProgram F S W ProducerResult
  | .pushSample sample => return .published (← producerPushSample geometry sample)
  | .push input => return .count (← producerPush geometry input)
  | .pushTagged input generation sourceStart spans =>
      return .credit (← producerPushTagged geometry input generation sourceStart spans)
  | .gap samples => return .count (← producerGap geometry samples)
  | .mute generation spans => return .credit (← producerMute geometry generation spans)
  | .finish => return .token (← producerFinish)
  | .status token => return .status (← finishStatus token)

/-- The program of each consumer call. -/
def consumerBody (adapter : Adapter F W S) (geometry : Geometry) :
    ConsumerCall → RingProgram F S W (ConsumerResult F)
  | .render => return .rendered (← consumerRenderSample adapter geometry)
  | .reset => return .reset (← consumerReset adapter)

/-- What each thread runs. -/
def body (adapter : Adapter F W S) (geometry : Geometry) :
    (party : Party) → party.Call F → RingProgram F S W (party.Ret F)
  | .producer, call => producerBody geometry call
  | .consumer, call => consumerBody adapter geometry call

/-- The states of the system of two threads. -/
abbrev RingConfig (F S W : Type) : Type :=
  Config (Access.Resp (F := F) (S := S) (W := W)) (Ring F S W) (Party.Call F) (Party.Ret F)

/-- Every schedule of the calls that `allowed` admits, from a created ring. -/
def RingReachable (adapter : Adapter F W S) (settings : Settings)
    (allowed : (party : Party) → party.Call F → Prop) (geometry : Geometry)
    (config : RingConfig F S W) : Prop :=
  ∃ ring, Ring.create adapter settings = .ok (geometry, ring) ∧
    Reachable (body adapter geometry) (exec geometry) allowed ring config

/-- Create a ring and carry out a schedule on it. -/
def playRing (adapter : Adapter F W S) (settings : Settings)
    (schedule : List (Choice (Party.Call F))) : Option (Geometry × RingConfig F S W) :=
  match Ring.create adapter settings with
  | .error _ => none
  | .ok (geometry, ring) =>
      (playAll (body adapter geometry) (exec geometry) schedule (Config.start ring)).map
        fun config => (geometry, config)

theorem ringReachable_of_playRing {adapter : Adapter F W S} {settings : Settings}
    {allowed : (party : Party) → party.Call F → Prop}
    {schedule : List (Choice (Party.Call F))} {geometry : Geometry}
    {config : RingConfig F S W} (admitted : ∀ choice ∈ schedule, choice.Admitted allowed)
    (played : playRing adapter settings schedule = some (geometry, config)) :
    RingReachable adapter settings allowed geometry config := by
  unfold playRing at played
  split at played
  · cases played
  · rename_i created
    obtain ⟨last, playedAll, same⟩ := Option.map_eq_some_iff.mp played
    cases same
    exact ⟨_, created, reachable_of_playAll _ _ schedule admitted .refl playedAll⟩

omit [Binary32 F] in
theorem admitted_any (schedule : List (Choice (Party.Call F))) :
    ∀ choice ∈ schedule, choice.Admitted fun _ _ => True := by
  intro choice _
  cases choice <;> trivial

/-- What a schedule shows of its last state, a reachable state shows. -/
theorem reachable_of_plays (adapter : Adapter F W S) (settings : Settings)
    {allowed : (party : Party) → party.Call F → Prop}
    (schedule : List (Choice (Party.Call F))) (shown : Geometry → RingConfig F S W → Bool)
    (admitted : ∀ choice ∈ schedule, choice.Admitted allowed)
    (played : (playRing adapter settings schedule).any
      (fun played => shown played.1 played.2) = true) :
    ∃ geometry config, RingReachable adapter settings allowed geometry config ∧
      shown geometry config = true := by
  obtain ⟨⟨geometry, config⟩, played, shows⟩ := (Option.any_eq_true _ _).mp played
  exact ⟨geometry, config, ringReachable_of_playRing admitted played, shows⟩

/-- A shallow queue without concealment. -/
def smallSettings : Settings where
  capacity := minimumCapacity
  inputRateHz := 1
  outputRateHz := 1
  reserve := 0
  target := 0
  maxProducer := 8
  maxOutput := 8
  plc := .disabled

/-- One call that nothing interrupts. -/
def uninterrupted (party : Party) (call : party.Call F) : List (Choice (Party.Call F)) :=
  [.invoke party call, .complete party 2000]

end PcmRing
