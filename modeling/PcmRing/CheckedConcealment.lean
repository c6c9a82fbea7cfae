import PcmRing.CheckedAccess
import PcmRing.Concealment

/-!
# Checked concealment

Waveform substitution once more, with every index, subtraction, remainder and
blend checked, and with the pitch search as a parameter.
-/

namespace PcmRing

open CheckedAccess

variable {F W : Type}

namespace CheckedPlc

/-- Linear overlap-add over a nonzero count. -/
def blend [Binary32 F] (old new : F) (index count : Nat) : Option F :=
  if count ≠ 0 then some (PcmRing.blend old new index count) else none

section Pitch

variable (W) [Binary64 W] [Widening F W]

def score (plc : Plc F) (lag step : Nat) : Option W := do
  let start ← subtract plc.historyLength plc.analysis
  let sums ← loop (ceilDiv plc.analysis step)
    (fun index (sums : W × W) => do
      let a ← read plc.historyLength plc.frozen (start + index * step)
      let before ← subtract (start + index * step) lag
      let b ← read plc.historyLength plc.frozen before
      let a : W := Widening.widen a
      let b : W := Widening.widen b
      return (sums.1 + a * b, sums.2 + b * b))
    (Binary64.ofRat 0, Binary64.ofRat 0)
  return if Binary64.lt (Binary64.ofRat 0) sums.2 then sums.1 / Binary64.sqrt sums.2
    else Binary64.ofRat 0

def bestLag (plc : Plc F) (step : Nat) (lags : List Nat) (pitch : Nat) : Option Nat := do
  let best ← lags.foldlM
    (fun (best : W × Nat) lag => do
      let value ← score W plc lag step
      return if Binary64.lt best.1 value then (value, lag) else best)
    (Binary64.negInfinity, pitch)
  return best.2

def detectPitch (plc : Plc F) : Option Nat := do
  let coarse ← bestLag W plc 2
    ((List.range ((plc.maxPitch + 2 - plc.minPitch) / 2)).map fun index =>
      plc.minPitch + index * 2) plc.minPitch
  let low := max (coarse - 1) plc.minPitch
  let high := min (coarse + 1) plc.maxPitch
  bestLag W plc 1 ((List.range (high + 1 - low)).map fun index => low + index) coarse

end Pitch

variable [Binary32 F]

def smoothCycleTail (plc : Plc F) : Option (Plc F) :=
  let quarter := plc.pitch / 4
  loop quarter
    (fun index plc => do
      let old ← read plc.lookahead plc.lastQuarter index
      let before ← subtract plc.historyLength plc.cycle
      let before ← subtract before quarter
      let new ← read plc.historyLength plc.frozen (before + index)
      let sample ← blend old new index quarter
      let tail ← subtract plc.historyLength quarter
      let frozen ← write plc.historyLength plc.frozen (tail + index) sample
      return { plc with frozen := frozen })
    plc

/-- Rewrite the pending lookahead tail of a history of this length. -/
def rewriteTail (length quarter : Nat) (plc : Plc F) : Option (Plc F) :=
  loop quarter
    (fun index plc => do
      let start ← subtract (plc.next + length) quarter
      let target ← remainder (start + index) length
      let tail ← subtract length quarter
      let sample ← read length plc.frozen (tail + index)
      let history ← write length plc.history target sample
      return { plc with history := history })
    plc

/-- The pitch is what the search over the frozen history finds. -/
def beginLoss (search : Plc F → Option Nat) (plc : Plc F) : Option (Plc F) := do
  let length := plc.historyLength
  let frozen ← gather length fun index => do
    let source ← remainder (plc.next + index) length
    read length plc.history source
  let plc := { plc with frozen := frozen }
  let pitch ← search plc
  let quarter := pitch / 4
  let tail ← subtract length quarter
  let lastQuarter ← copySlice plc.lookahead plc.lastQuarter quarter length plc.frozen tail
  let plc := { plc with
    pitch := pitch
    lastQuarter := lastQuarter
    cycle := pitch
    phase := 0
    overlapLeft := 0 }
  let plc ← smoothCycleTail plc
  rewriteTail length quarter plc

def continuation (plc : Plc F) : Option (F × Plc F) := do
  let start ← subtract plc.historyLength plc.cycle
  let sample ← read plc.historyLength plc.frozen (start + plc.phase)
  let phase ← remainder (plc.phase + 1) plc.cycle
  return (sample, { plc with phase := phase })

/-- `while phase > pitch { phase -= pitch }`, which must end. -/
def foldPhase (pitch : Nat) : (fuel : Nat) → Nat → Option Nat
  | 0, phase => if pitch < phase then none else some phase
  | fuel + 1, phase =>
      if pitch < phase then do
        let rest ← subtract phase pitch
        foldPhase pitch fuel rest
      else some phase

/-- Keep the samples that the shorter cycle would play next. -/
def keepOverlap (quarter : Nat) (plc : Plc F) : Option (Plc F) :=
  loop quarter
    (fun index plc => do
      let next ← continuation plc
      let overlap ← write plc.lookahead next.2.overlap index next.1
      return { next.2 with overlap := overlap })
    plc

def expandCycle (plc : Plc F) : Option (Plc F) := do
  let quarter := plc.pitch / 4
  let phase := plc.phase
  let plc ← keepOverlap quarter plc
  let phase ← foldPhase plc.pitch phase phase
  let plc := { plc with
    phase := phase
    cycle := plc.cycle + plc.pitch }
  let plc ← smoothCycleTail plc
  return { plc with overlapLeft := quarter }

def substitution (plc : Plc F) : Option (F × Plc F) := do
  let next ← continuation plc
  if plc.overlapLeft ≠ 0 then do
    let quarter := plc.pitch / 4
    let index ← subtract quarter plc.overlapLeft
    let old ← read plc.lookahead plc.overlap index
    let sample ← blend old next.1 index quarter
    let left ← subtract plc.overlapLeft 1
    return (sample, { next.2 with overlapLeft := left })
  else return next

def lossGain (plc : Plc F) : Option F :=
  if plc.tenMs * 5 ≠ 0 then some plc.lossGain else none

def conceal (search : Plc F → Option Nat) (plc : Plc F) : Option (F × Plc F) := do
  let plc := { plc with recoveryLeft := 0 }
  let plc ← (if plc.lost = 0 then beginLoss search plc else some plc)
  let plc ← (if plc.lost = plc.tenMs ∨ plc.lost = plc.tenMs * 2 then expandCycle plc
    else some plc)
  let sample ← substitution plc
  let gain ← lossGain sample.2
  return (sample.1 * gain, { sample.2 with lost := min (sample.2.lost + 1) (2 ^ 64 - 1) })

/-- The loss envelope at the end of a loss. -/
def endLoss (plc : Plc F) : Option (Plc F) :=
  if plc.tenMs ≠ 0 then do
    let lostFrames := ceilDiv plc.lost plc.tenMs
    let length := min (plc.pitch / 4 + (lostFrames - 1) * plc.fourMs) plc.tenMs
    let gain ← lossGain plc
    return { plc with
      recoveryLength := length
      recoveryLeft := length
      recoveryGain := gain
      lost := 0 }
  else none

def recover (plc : Plc F) (sample : F) : Option (F × Plc F) := do
  let plc ← (if plc.lost ≠ 0 then endLoss plc else some plc)
  if plc.recoveryLeft = 0 then return (sample, plc)
  else do
    let old ← substitution plc
    let index ← subtract plc.recoveryLength plc.recoveryLeft
    let output ← blend (old.1 * plc.recoveryGain) sample index plc.recoveryLength
    let left ← subtract plc.recoveryLeft 1
    return (output, { old.2 with recoveryLeft := left })

def delay (plc : Plc F) (sample real : F) : Option ((F × Bool) × Plc F) := do
  let start ← subtract (plc.next + plc.historyLength) plc.lookahead
  let source ← remainder start plc.historyLength
  let oldest ← read plc.historyLength plc.history source
  let flag ← read plc.lookahead plc.real plc.delayed
  let history ← write plc.historyLength plc.history plc.next sample
  let flags ← write plc.lookahead plc.real plc.delayed real
  let next ← remainder (plc.next + 1) plc.historyLength
  let delayed ← remainder (plc.delayed + 1) plc.lookahead
  return ((oldest, Binary32.isNonzero flag),
    { plc with
      history := history
      real := flags
      next := next
      delayed := delayed })

def process (search : Plc F → Option Nat) (plc : Plc F) (input : Option F) :
    Option ((F × Bool) × Plc F) :=
  match input with
  | some sample => do
      let sample ← recover plc sample
      delay sample.2 sample.1 1
  | none => do
      let sample ← conceal search plc
      delay sample.2 sample.1 0

def drainSample (plc : Plc F) : Option ((F × Bool) × Plc F) :=
  delay plc 0 0

end CheckedPlc

namespace Plc

/-- The history, oldest sample first. -/
def freeze (plc : Plc F) : Plc F :=
  { plc with frozen := fun index => plc.history ((plc.next + index) % plc.historyLength) }

variable [Binary32 F]

/-- The frozen history is played from its last cycle on. -/
def adoptPitch (pitch : Nat) (plc : Plc F) : Plc F :=
  { plc with
    pitch := pitch
    lastQuarter := fun index =>
      if index < pitch / 4 then plc.frozen (plc.historyLength - pitch / 4 + index)
      else plc.lastQuarter index
    cycle := pitch
    phase := 0
    overlapLeft := 0 }

/-- Rewrite the pending lookahead tail of a history of this length. -/
def rewriteTail (length quarter : Nat) (plc : Plc F) : Plc F :=
  forRange quarter
    (fun index plc =>
      { plc with
        history := Function.update plc.history ((plc.next + length - quarter + index) % length)
          (plc.frozen (length - quarter + index)) })
    plc

/-- The loss begins with this pitch. -/
def beginLossAt (pitch : Nat) (plc : Plc F) : Plc F :=
  (plc.freeze.adoptPitch pitch).smoothCycleTail.rewriteTail plc.historyLength (pitch / 4)

/-- Keep the samples that the shorter cycle would play next. -/
def keepOverlap (quarter : Nat) (plc : Plc F) : Plc F :=
  forRange quarter
    (fun index plc =>
      let next := plc.continuation
      { next.2 with overlap := Function.update next.2.overlap index next.1 })
    plc

def concealAt (pitch : Nat) (plc : Plc F) : F × Plc F :=
  let plc := { plc with recoveryLeft := 0 }
  let plc := if plc.lost = 0 then plc.beginLossAt pitch else plc
  let plc :=
    if plc.lost = plc.tenMs ∨ plc.lost = plc.tenMs * 2 then plc.expandCycle else plc
  let sample := plc.substitution
  let gain := sample.2.lossGain
  (sample.1 * gain, { sample.2 with lost := min (sample.2.lost + 1) (2 ^ 64 - 1) })

def processAt (pitch : Nat) (plc : Plc F) (input : Option F) : (F × Bool) × Plc F :=
  match input with
  | some sample => (plc.recover sample).2.delay (plc.recover sample).1 1
  | none => (plc.concealAt pitch).2.delay (plc.concealAt pitch).1 0

theorem process_eq [Binary64 W] [Widening F W] (plc : Plc F) (input : Option F) :
    plc.process W input = plc.processAt (plc.freeze.detectPitch W) input :=
  rfl

end Plc

end PcmRing
