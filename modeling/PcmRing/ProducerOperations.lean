import PcmRing.RingState

/-!
# The producer's operations

Every call of the producer, as a program of single accesses.
-/

namespace PcmRing

open AtomicProgram TwoLapQueue

variable {F S W : Type}

/-- A program over the accesses of a ring. -/
abbrev RingProgram (F S W α : Type) : Type :=
  Program (Access.Resp (F := F) (S := S) (W := W)) α

/-- Perform one access. -/
def access (op : Access F S W) : RingProgram F S W op.Resp :=
  Program.perform op

/-- The PCM queue of a ring. -/
def pcmPort : Port (Access.Resp (F := F) (S := S) (W := W)) (SourceSample F) where
  access := .pcm
  answer _ response := response

/-- The mute mailbox of a ring. -/
def mutePort : Port (Access.Resp (F := F) (S := S) (W := W)) Interval where
  access := .mutes
  answer _ response := response

/-- Add to a single-writer counter without allowing a lifetime wrap. -/
def saturatingAddCounter (counter : Counter) (value : Nat) : RingProgram F S W Nat := do
  let current ← access (.loadCounter counter)
  let next := min (current + value) (2 ^ 64 - 1)
  access (.storeCounter counter next)
  return next

/-- A pending boundary gates source publication without touching either cursor. -/
def finishPending (site : FinishSite) : RingProgram F S W Bool := do
  let current ← access (.loadFinish site)
  return decide (FinishPending current)

/-- Forget the stamp when the consumer has reset the stream since. -/
def syncProducerEpoch : RingProgram F S W Unit := do
  let reset ← access .loadResetSerial
  let epoch ← access .loadEpoch
  if epoch ≠ reset then
    access (.setStamp none)
    access (.storeEpoch reset)

variable (geometry : Geometry)

/-- Readable producer samples, bounded to the configured capacity. -/
def available : RingProgram F S W Nat := do
  let occupied ← pcmPort.occupied geometry.capacity
  return min occupied geometry.capacity

/-- Write one slot under the loaded cursor and publish it. -/
def storeSlot (written : Nat) (sample : SourceSample F) : RingProgram F S W Bool := do
  access (.pcm (.storeCell (written % geometry.capacity) sample))
  access (.pcm (.storeWritten ((written + 1) % (geometry.capacity * 2))))
  return true

/-- Publish one source-timeline slot through the cursor protocol. -/
def producerPublish (sample : SourceSample F) : RingProgram F S W Bool := do
  syncProducerEpoch
  let pending ← finishPending .publishGate
  if pending then
    return false
  else
    let written ← access (.pcm .loadWritten)
    let read ← access (.pcm .loadRead)
    if geometry.capacity ≤ distance geometry.capacity written read then
      let _ ← saturatingAddCounter .discarded 1
      return false
    else
      let stamp ← access .loadStamp
      match stamp with
      | none => storeSlot geometry written sample
      | some current =>
          if 2 ^ 64 ≤ current.source + 1 then
            return false
          else
            access (.advanceStamp { current with source := current.source + 1 })
            storeSlot geometry written { sample with stamp := some current }

/-- A missing slot; its zero is only an input of the converter. -/
def gapSlot [Zero F] : SourceSample F :=
  ⟨0, true, none⟩

/-- Publish missing slots until one is rejected. -/
def producerGapFrom [Zero F] : (remaining accepted : Nat) → RingProgram F S W Nat
  | 0, accepted => return accepted
  | remaining + 1, accepted => do
      let published ← producerPublish geometry gapSlot
      if published then
        producerGapFrom remaining (accepted + 1)
      else
        let _ ← saturatingAddCounter .discarded remaining
        return accepted

/-- Publish an ordered missing-source prefix. -/
def producerGap [Zero F] (samples : Nat) : RingProgram F S W Nat := do
  let pending ← finishPending .gate
  if pending then
    return 0
  else
    producerGapFrom geometry samples 0

variable [Binary32 F]

/-- Publish one canonical input sample. -/
def producerPushSample (sample : F) : RingProgram F S W Bool :=
  producerPublish geometry ⟨canonicalize sample, false, none⟩

/-- Publish samples until one is rejected; a later sample is never accepted
after an earlier one was dropped. -/
def producerPushFrom : (input : List F) → (accepted : Nat) → RingProgram F S W Nat
  | [], accepted => return accepted
  | sample :: rest, accepted => do
      let published ← producerPushSample geometry sample
      if published then
        producerPushFrom rest (accepted + 1)
      else
        let _ ← saturatingAddCounter .discarded rest.length
        return accepted

/-- Publish a block and return the number accepted chronologically. -/
def producerPush (input : List F) : RingProgram F S W Nat := do
  let pending ← finishPending .gate
  if pending then
    return 0
  else
    producerPushFrom geometry input 0

/-- The arguments of a tagged publication are rejected. -/
def TaggedInvalid (input : List F) (sourceStart : Nat) (spans : List Span) : Prop :=
  2 ^ 64 ≤ sourceStart + input.length ∨ geometry.maxProducer < input.length ∨
    maxSpans < spans.length ∨
    ∃ span ∈ spans, span.stop ≤ span.start ∨ sourceStart + input.length < span.stop ∨
      span.start < sourceStart - geometry.capacity

omit [Binary32 F] in
instance (input : List F) (sourceStart : Nat) (spans : List Span) :
    Decidable (TaggedInvalid geometry input sourceStart spans) :=
  inferInstanceAs (Decidable (_ ∨ _ ∨ _ ∨ _))

/-- A stamp of the same generation that the block does not continue. -/
def Discontinuous (previous : Option Stamp) (generation sourceStart : Nat) : Prop :=
  ∃ stamp ∈ previous, stamp.generation = generation ∧ stamp.source ≠ sourceStart

instance (previous : Option Stamp) (generation sourceStart : Nat) :
    Decidable (Discontinuous previous generation sourceStart) :=
  match previous with
  | none => isFalse fun ⟨_, member, _⟩ => by cases member
  | some stamp =>
      decidable_of_iff (stamp.generation = generation ∧ stamp.source ≠ sourceStart)
        (by simp [Discontinuous])

/-- Publish mute intervals before their PCM prefix; `none` is an argument error. -/
def producerPushTagged (input : List F) (generation sourceStart : Nat) (spans : List Span) :
    RingProgram F S W (Option Nat) := do
  syncProducerEpoch
  let pending ← finishPending .publishGate
  if pending then
    return some 0
  else if TaggedInvalid geometry input sourceStart spans then
    return none
  else
    let previous ← access .loadStamp
    if Discontinuous previous generation sourceStart then
      return none
    else
      let free ← mailboxFree mutePort
      if free < spans.length then
        return some 0
      else
        let occupied ← available geometry
        let count := min input.length (geometry.capacity - occupied)
        if count = 0 then
          let _ ← saturatingAddCounter .discarded input.length
          return some 0
        else
          mailboxPublish mutePort generation spans (sourceStart + count)
          access (.setStamp (some ⟨generation, sourceStart⟩))
          let accepted ← producerPush geometry (input.take count)
          let _ ← saturatingAddCounter .discarded (input.length - accepted)
          return some accepted

/-- The arguments of a late mute are rejected. -/
def MuteInvalid (current : Stamp) (generation : Nat) (spans : List Span) : Prop :=
  current.generation ≠ generation ∨ maxSpans < spans.length ∨
    ∃ span ∈ spans, span.stop ≤ span.start ∨ current.source < span.stop ∨
      span.start < current.source - geometry.capacity

instance (current : Stamp) (generation : Nat) (spans : List Span) :
    Decidable (MuteInvalid geometry current generation spans) :=
  inferInstanceAs (Decidable (_ ∨ _ ∨ _))

/-- Update only already accepted source positions, and return the credited
prefix of the intervals; `none` is an argument error. -/
def producerMute (generation : Nat) (spans : List Span) : RingProgram F S W (Option Nat) := do
  syncProducerEpoch
  let stamp ← access .loadStamp
  match stamp with
  | none => return none
  | some current =>
      if MuteInvalid geometry current generation spans then
        return none
      else
        let free ← mailboxFree mutePort
        let count := min spans.length free
        mailboxPublish mutePort generation (spans.take count) current.source
        return some count

/-- Freeze the accepted producer prefix.  Tokens never wrap; `none` when a
boundary is outstanding or the tokens are used up. -/
def producerFinish : RingProgram F S W (Option Nat) := do
  let current ← access (.loadFinish .request)
  if FinishPending current then
    return none
  else
    let token := current / 4 + 1
    if token < 2 ^ 62 then
      access (.storeFinish (token * 4))
      return some token
    else
      return none

inductive FinishStatus where
  | pending
  | drained
  | cancelled
  | adapterError
deriving DecidableEq

/-- The low bits of a finish word. -/
def FinishStatus.bits : FinishStatus → Nat
  | pending => 0
  | drained => 1
  | cancelled => 2
  | adapterError => 3

def FinishStatus.ofWord (word : Nat) : FinishStatus :=
  match word % 4 with
  | 0 => pending
  | 1 => drained
  | 2 => cancelled
  | _ => adapterError

/-- The status of the latest token; any other token is rejected. -/
def FinishStatus.ofToken (word token : Nat) : Option FinishStatus :=
  if token = 0 ∨ word / 4 ≠ token then none else some (ofWord word)

/-- Acquire the consumer's acknowledgement for this token. -/
def finishStatus (token : Nat) : RingProgram F S W (Option FinishStatus) := do
  let current ← access (.loadFinish .status)
  return FinishStatus.ofToken current token

end PcmRing
