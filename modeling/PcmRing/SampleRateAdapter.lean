import PcmRing.SampleFormats

/-!
# The sample-rate adapter

The ring drives a persistent converter through a table of callbacks supplied
by another library.  The callbacks are a parameter of the model: functions of
an arbitrary handle state, answering a status and their outputs.  The checks
the ring makes on every answer are modelled here, and so is the identity
converter its tests use.
-/

namespace PcmRing

variable {F W S : Type}

/-- Successful sample-rate adapter operation result. -/
def adapterOk : Int := 0

/-- What one processing callback answers. -/
structure ProcessReply (F S : Type) where
  status : Int
  inputUsed : Nat
  outputGenerated : Nat
  output : Nat → F
  handle : S

/-- The validated callbacks, over the state `S` behind a handle. -/
structure Adapter (F W S : Type) where
  create : (inputRate outputRate maxInput maxOutput : Nat) → Int × Option S
  reset : S → Int × S
  process : S → (input : List F) → (outputLength : Nat) → (ratio : W) → ProcessReply F S
  queuedInput : S → Int × Nat × S
  outputDelay : S → Int × Nat × S
  /-- Live delay in billionths of a source frame. -/
  inputDelay : S → Int × Int × S

/-- An accepted answer, or the rejection of one, and the handle afterwards. -/
abbrev Reply (S α : Type) : Type :=
  Option α × S

namespace Adapter

variable (adapter : Adapter F W S)

/-- Include buffered PCM and fractional phase in source-position mapping. -/
def converterInputDelay (handle : S) : Reply S Int :=
  let (status, delay, handle) := adapter.inputDelay handle
  (if status = adapterOk ∧ 0 ≤ delay then some delay else none, handle)

/-- Discard prior-burst history on the sole consumer endpoint. -/
def converterReset (handle : S) : Reply S Unit :=
  let (status, handle) := adapter.reset handle
  (if status = adapterOk then some () else none, handle)

/-- Report accepted input still queued beyond fixed filter lookahead. -/
def converterQueuedInput (handle : S) : Reply S Nat :=
  let (status, frames, handle) := adapter.queuedInput handle
  (if status = adapterOk then some frames else none, handle)

/-- Samples used, samples generated, and the generated samples. -/
structure Converted (F : Type) where
  inputUsed : Nat
  outputGenerated : Nat
  output : Nat → F

/-- Convert one bounded preallocated input/output chunk. -/
def converterProcess [Binary64 W] (handle : S) (input : List F) (outputLength : Nat)
    (ratio : W) : Reply S (Converted F) :=
  if outputLength = 0 ∨ Binary64.isFinite ratio = false ∨
      Binary64.le ratio (Binary64.ofRat 0) = true then
    (none, handle)
  else
    let reply := adapter.process handle input outputLength ratio
    (if reply.status ≠ adapterOk ∨ input.length < reply.inputUsed ∨
        outputLength < reply.outputGenerated then none
      else some ⟨reply.inputUsed, reply.outputGenerated, reply.output⟩, reply.handle)

/-- Create and warm the persistent converter, and query its fixed delay. -/
def createConverter (inputRate outputRate maxInput maxOutput : Nat) : Option (S × Nat) :=
  let (status, handle) := adapter.create inputRate outputRate maxInput maxOutput
  if status ≠ adapterOk then none
  else
    match handle with
    | none => none
    | some handle =>
        match adapter.converterReset handle with
        | (none, _) => none
        | (some (), handle) =>
            let (status, delay, handle) := adapter.outputDelay handle
            if status ≠ adapterOk then none else some (handle, delay)

/-- A processing answer that passed the checks stays within its arguments. -/
theorem converterProcess_bounds [Binary64 W] {handle : S} {input : List F}
    {outputLength : Nat} {ratio : W} {converted : Converted F}
    (accepted : (adapter.converterProcess handle input outputLength ratio).1 = some converted) :
    converted.inputUsed ≤ input.length ∧ converted.outputGenerated ≤ outputLength := by
  unfold converterProcess at accepted
  split at accepted
  · cases accepted
  · dsimp only at accepted
    split at accepted
    · cases accepted
    · cases accepted
      constructor
      · dsimp only
        omega
      · dsimp only
        omega

theorem converterInputDelay_nonneg {handle : S} {delay : Int}
    (accepted : (adapter.converterInputDelay handle).1 = some delay) : 0 ≤ delay := by
  unfold converterInputDelay at accepted
  dsimp only at accepted
  split at accepted
  · cases accepted
    rename_i checked
    exact checked.2
  · cases accepted

end Adapter

/-- The identity converter of the tests: it copies what fits, keeps nothing,
and never delays. -/
def unitConverter [Binary32 F] [Binary64 W] : Adapter F W Unit where
  create inputRate outputRate maxInput maxOutput :=
    if inputRate = 0 ∨ outputRate = 0 ∨ maxInput = 0 ∨ maxOutput = 0 then (-1, none)
    else (adapterOk, some ())
  reset _ := (adapterOk, ())
  process _ input outputLength ratio :=
    if Binary64.isFinite ratio = false ∨ Binary64.le ratio (Binary64.ofRat 0) = true then
      ⟨-1, 0, 0, fun _ => 0, ()⟩
    else
      ⟨adapterOk, min input.length outputLength, min input.length outputLength,
        fun index => input.getD index 0, ()⟩
  queuedInput _ := (adapterOk, 0, ())
  outputDelay _ := (adapterOk, 0, ())
  inputDelay _ := (adapterOk, 0, ())

end PcmRing
