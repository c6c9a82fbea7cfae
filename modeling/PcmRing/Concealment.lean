import PcmRing.SampleFormats
import Mathlib.Logic.Function.Basic

/-!
# Waveform substitution

G.711 Appendix I concealment at the output rate.  Loss repeats a frozen pitch
cycle, expands it to two and three periods after 10 and 20 ms, and attenuates
it to silence.  A lookahead delays every sample, so a loss can still rewrite
samples that were received and not yet played.
-/

namespace PcmRing

variable {F W : Type}

/-- `⌈count / divisor⌉` -/
def ceilDiv (count divisor : Nat) : Nat :=
  (count + divisor - 1) / divisor

/-- A `for` loop over `0..count`. -/
def forRange {σ : Type} (count : Nat) (body : Nat → σ → σ) (state : σ) : σ :=
  (List.range count).foldl (fun current index => body index current) state

/-- Consumer-owned waveform history and output lookahead.  Buffers are
functions of the index; `historyLength` and `lookahead` are their lengths. -/
structure Plc (F : Type) where
  history : Nat → F
  frozen : Nat → F
  lastQuarter : Nat → F
  overlap : Nat → F
  real : Nat → F
  historyLength : Nat
  lookahead : Nat
  next : Nat
  delayed : Nat
  minPitch : Nat
  maxPitch : Nat
  analysis : Nat
  tenMs : Nat
  pitch : Nat
  cycle : Nat
  phase : Nat
  lost : Nat
  overlapLeft : Nat
  recoveryLeft : Nat
  recoveryLength : Nat
  recoveryGain : F
  fourMs : Nat

/-- Lookahead of 3.75 ms in output samples. -/
def plcDelay (outputRateHz : Nat) : Nat :=
  ceilDiv (outputRateHz * 15) 4000

/-- Appendix I uses linear overlap-add, not an equal-power gain boost. -/
def blend [Binary32 F] (old new : F) (index count : Nat) : F :=
  let weight := Binary32.ofNat (index + 1) / Binary32.ofNat count
  old * (1 - weight) + new * weight

namespace Plc

/-- Allocate history once for a nonzero, previously validated output rate. -/
def new [Binary32 F] (outputRateHz : Nat) : Plc F where
  history _ := 0
  frozen _ := 0
  lastQuarter _ := 0
  overlap _ := 0
  real _ := 0
  historyLength := ceilDiv (outputRateHz * 15) 1000 * 3 + plcDelay outputRateHz
  lookahead := plcDelay outputRateHz
  next := 0
  delayed := 0
  minPitch := ceilDiv (outputRateHz * 5) 1000
  maxPitch := ceilDiv (outputRateHz * 15) 1000
  analysis := ceilDiv (outputRateHz * 20) 1000
  tenMs := ceilDiv (outputRateHz * 10) 1000
  pitch := 0
  cycle := 0
  phase := 0
  lost := 0
  overlapLeft := 0
  recoveryLeft := 0
  recoveryLength := 0
  recoveryGain := 1
  fourMs := ceilDiv (outputRateHz * 4) 1000

/-- Discard delayed PCM and synthesis history between unrelated bursts.  The
next loss replaces frozen history and all overlap state. -/
def reset [Binary32 F] (plc : Plc F) : Plc F :=
  { plc with
    history := fun _ => 0
    real := fun _ => 0
    next := 0
    delayed := 0
    lost := 0
    recoveryLeft := 0 }

section Pitch

variable (W) [Binary64 W] [Widening F W]

/-- Normalized correlation of the last 20 ms with itself `lag` samples before. -/
def score (plc : Plc F) (lag step : Nat) : W :=
  let start := plc.historyLength - plc.analysis
  let sums := forRange (ceilDiv plc.analysis step)
    (fun index (sums : W × W) =>
      let a : W := Widening.widen (plc.frozen (start + index * step))
      let b : W := Widening.widen (plc.frozen (start + index * step - lag))
      (sums.1 + a * b, sums.2 + b * b))
    (Binary64.ofRat 0, Binary64.ofRat 0)
  if Binary64.lt (Binary64.ofRat 0) sums.2 then sums.1 / Binary64.sqrt sums.2
  else Binary64.ofRat 0

/-- The first of the lags with the best score. -/
def bestLag (plc : Plc F) (step : Nat) (lags : List Nat) (pitch : Nat) : Nat :=
  (lags.foldl
    (fun (best : W × Nat) lag =>
      let value := score W plc lag step
      if Binary64.lt best.1 value then (value, lag) else best)
    (Binary64.negInfinity, pitch)).2

/-- Compare recent 20 ms with 5–15 ms lags, first coarsely then at full rate. -/
def detectPitch (plc : Plc F) : Nat :=
  let coarse := bestLag W plc 2
    ((List.range ((plc.maxPitch + 2 - plc.minPitch) / 2)).map fun index =>
      plc.minPitch + index * 2) plc.minPitch
  let low := max (coarse - 1) plc.minPitch
  let high := min (coarse + 1) plc.maxPitch
  bestLag W plc 1 ((List.range (high + 1 - low)).map fun index => low + index) coarse

end Pitch

variable [Binary32 F]

/-- Join the repeated waveform tail to samples one cycle earlier. -/
def smoothCycleTail (plc : Plc F) : Plc F :=
  let quarter := plc.pitch / 4
  forRange quarter
    (fun index plc =>
      { plc with
        frozen := Function.update plc.frozen (plc.historyLength - quarter + index)
          (blend (plc.lastQuarter index)
            (plc.frozen (plc.historyLength - plc.cycle - quarter + index)) index quarter) })
    plc

/-- Freeze the whole history and rewrite its pending lookahead tail. -/
def beginLoss (W : Type) [Binary64 W] [Widening F W] (plc : Plc F) : Plc F :=
  let length := plc.historyLength
  let plc := { plc with
    frozen := fun index => plc.history ((plc.next + index) % length) }
  let plc := { plc with pitch := detectPitch W plc }
  let quarter := plc.pitch / 4
  let plc := { plc with
    lastQuarter := fun index =>
      if index < quarter then plc.frozen (length - quarter + index) else plc.lastQuarter index
    cycle := plc.pitch
    phase := 0
    overlapLeft := 0 }
  let plc := plc.smoothCycleTail
  forRange quarter
    (fun index plc =>
      { plc with
        history := Function.update plc.history ((plc.next + length - quarter + index) % length)
          (plc.frozen (length - quarter + index)) })
    plc

/-- Emit the continuing frozen waveform without changing its oscillator phase. -/
def continuation (plc : Plc F) : F × Plc F :=
  (plc.frozen (plc.historyLength - plc.cycle + plc.phase),
    { plc with phase := (plc.phase + 1) % plc.cycle })

/-- `while phase > pitch { phase -= pitch }`, for a nonzero pitch. -/
def foldPhase (pitch : Nat) : (fuel : Nat) → Nat → Nat
  | 0, phase => phase
  | fuel + 1, phase =>
      if pitch < phase then foldPhase pitch fuel (phase - pitch) else phase

/-- Expand to two and three periods after 10 and 20 ms to reduce buzz. -/
def expandCycle (plc : Plc F) : Plc F :=
  let quarter := plc.pitch / 4
  let phase := plc.phase
  let plc := forRange quarter
    (fun index plc =>
      let next := plc.continuation
      { next.2 with overlap := Function.update next.2.overlap index next.1 })
    plc
  let plc := { plc with
    phase := foldPhase plc.pitch phase phase
    cycle := plc.cycle + plc.pitch }
  { plc.smoothCycleTail with overlapLeft := quarter }

/-- Finish a period-expansion overlap even if real PCM returns mid-transition. -/
def substitution (plc : Plc F) : F × Plc F :=
  let next := plc.continuation
  if plc.overlapLeft ≠ 0 then
    let quarter := plc.pitch / 4
    let index := quarter - plc.overlapLeft
    (blend (plc.overlap index) next.1 index quarter,
      { next.2 with overlapLeft := plc.overlapLeft - 1 })
  else
    next

/-- Unity for the first 10 ms, then linear decay to silence at 60 ms. -/
def lossGain (plc : Plc F) : F :=
  Binary32.max
    (1 - Binary32.ofNat (plc.lost - plc.tenMs) / Binary32.ofNat (plc.tenMs * 5)) 0

/-- Repeat pitch then linearly attenuate from 10 ms through silence at 60 ms. -/
def conceal (W : Type) [Binary64 W] [Widening F W] (plc : Plc F) : F × Plc F :=
  let plc := { plc with recoveryLeft := 0 }
  let plc := if plc.lost = 0 then beginLoss W plc else plc
  let plc :=
    if plc.lost = plc.tenMs ∨ plc.lost = plc.tenMs * 2 then plc.expandCycle else plc
  let sample := plc.substitution
  let gain := sample.2.lossGain
  (sample.1 * gain, { sample.2 with lost := min (sample.2.lost + 1) (2 ^ 64 - 1) })

/-- Freeze the loss envelope while returning audio replaces the repeated wave. -/
def recover (plc : Plc F) (sample : F) : F × Plc F :=
  let plc :=
    if plc.lost ≠ 0 then
      let lostFrames := ceilDiv plc.lost plc.tenMs
      -- The bound by 10 ms makes the source's saturations invisible.
      let length := min (plc.pitch / 4 + (lostFrames - 1) * plc.fourMs) plc.tenMs
      { plc with
        recoveryLength := length
        recoveryLeft := length
        recoveryGain := plc.lossGain
        lost := 0 }
    else plc
  if plc.recoveryLeft = 0 then (sample, plc)
  else
    let old := plc.substitution
    (blend (old.1 * plc.recoveryGain) sample (plc.recoveryLength - plc.recoveryLeft)
        plc.recoveryLength,
      { old.2 with recoveryLeft := plc.recoveryLeft - 1 })

/-- Play the oldest delayed sample and put one at the end of the delay. -/
def delay (plc : Plc F) (sample real : F) : (F × Bool) × Plc F :=
  let read := (plc.next + plc.historyLength - plc.lookahead) % plc.historyLength
  ((plc.history read, Binary32.isNonzero (plc.real plc.delayed)),
    { plc with
      history := Function.update plc.history plc.next sample
      real := Function.update plc.real plc.delayed real
      next := (plc.next + 1) % plc.historyLength
      delayed := (plc.delayed + 1) % plc.lookahead })

/-- Delay one converted sample, substituting loss and classifying played PCM. -/
def process (W : Type) [Binary64 W] [Widening F W] (plc : Plc F) (input : Option F) :
    (F × Bool) × Plc F :=
  match input with
  | some sample => (plc.recover sample).2.delay (plc.recover sample).1 1
  | none => (conceal W plc).2.delay (conceal W plc).1 0

/-- Release one retained lookahead sample at finite end, without starting
concealment or classifying the zero extension as real PCM. -/
def drainSample (plc : Plc F) : (F × Bool) × Plc F :=
  plc.delay 0 0

end Plc

end PcmRing
