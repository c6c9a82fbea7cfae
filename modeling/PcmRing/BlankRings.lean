import PcmRing.MappedQueues
import PcmRing.RingSystem

/-!
# A ring without its samples

Samples of a type with a single value leave everything of a ring but its PCM:
the cursors, the stamps, the mute records, the boundaries, the clock and the
counters.  Every access of a ring commutes with forgetting the PCM.
-/

namespace PcmRing

open AtomicProgram TwoLapQueue

variable {F S T W : Type}

/-- A sample without its value. -/
structure Blank where

namespace Blank

instance : Binary32 Blank where
  zero := ⟨⟩
  one := ⟨⟩
  add _ _ := ⟨⟩
  sub _ _ := ⟨⟩
  mul _ _ := ⟨⟩
  div _ _ := ⟨⟩
  ofNat _ := ⟨⟩
  negOne := ⟨⟩
  isFinite _ := true
  isNonzero _ := false
  clamp _ _ _ := ⟨⟩
  max _ _ := ⟨⟩

instance [Binary64 W] : Widening Blank W where
  widen _ := Binary64.ofRat 0

end Blank

def SourceSample.blank (sample : SourceSample F) : SourceSample Blank :=
  ⟨⟨⟩, sample.missing, sample.stamp⟩

/-- Concealment only ever answers with PCM. -/
def ConsumerState.blank (erase : S → T) (state : ConsumerState F S W) :
    ConsumerState Blank T W where
  converter := erase state.converter
  input _ := ⟨⟩
  output _ := ⟨⟩
  inputOffset := state.inputOffset
  inputPending := state.inputPending
  outputOffset := state.outputOffset
  outputPending := state.outputPending
  outputMissing := state.outputMissing
  sourceTaken := state.sourceTaken
  sourceAccepted := state.sourceAccepted
  paddingAccepted := state.paddingAccepted
  inputPadding := state.inputPadding
  finite := state.finite
  quiet := state.quiet
  gaps := state.gaps
  plc := none
  zeroProgress := state.zeroProgress
  occupancyMilli := state.occupancyMilli
  ratio := state.ratio
  primed := state.primed
  resetFailed := state.resetFailed
  sourceBase := state.sourceBase
  cacheStart := state.cacheStart
  cacheEnd := state.cacheEnd
  cacheCount := state.cacheCount
  muteHistory := state.muteHistory
  muteFault := state.muteFault
  refused := state.refused
  plcPositions := state.plcPositions
  plcPosition := state.plcPosition

def Retired.blank (erase : S → T) (retired : Retired F S W) : Retired Blank T W :=
  ⟨retired.state.blank erase, retired.start, retired.errors, retired.released⟩

def blankInput (input : Option F) : Option Blank :=
  input.map fun _ => ⟨⟩

def Ledger.blank (erase : S → T) (ledger : Ledger F S W) : Ledger Blank T W where
  slots := ledger.slots
  records := ledger.records
  stampBorn := ledger.stampBorn
  streamStart := ledger.streamStart
  recordsStart := ledger.recordsStart
  errors := ledger.errors
  released := ledger.released
  retired := ledger.retired.map (Retired.blank erase)
  fed := ledger.fed.map blankInput
  gatesCurrent := ledger.gatesCurrent
  mutesCurrent := ledger.mutesCurrent
  drainedClear := ledger.drainedClear

/-- Everything one ring owns but its PCM. -/
def Ring.blank (erase : S → T) (ring : Ring F S W) : Ring Blank T W where
  pcm := ring.pcm.map SourceSample.blank
  mutes := ring.mutes
  counters := ring.counters
  ratioCorrectionPpm := ring.ratioCorrectionPpm
  consumer := ring.consumer.blank erase
  producerStamp := ring.producerStamp
  resetSerial := ring.resetSerial
  producerEpoch := ring.producerEpoch
  finish := ring.finish
  ledger := ring.ledger.blank erase

namespace Access

/-- The same access of a ring without PCM. -/
def blank (erase : S → T) : Access F S W → Access Blank T W
  | pcm access => .pcm (access.map SourceSample.blank)
  | mutes access => .mutes access
  | loadResetSerial => .loadResetSerial
  | fetchAddResetSerial => .fetchAddResetSerial
  | loadFinish site => .loadFinish site
  | storeFinish word => .storeFinish word
  | loadCounter counter => .loadCounter counter
  | storeCounter counter value => .storeCounter counter value
  | storeRatioCorrection ppm => .storeRatioCorrection ppm
  | loadStamp => .loadStamp
  | setStamp stamp => .setStamp stamp
  | advanceStamp stamp => .advanceStamp stamp
  | loadEpoch => .loadEpoch
  | storeEpoch epoch => .storeEpoch epoch
  | enter => .enter
  | leave state errored => .leave (state.blank erase) errored
  | lookup history position => .lookup history position
  | feed input => .feed (blankInput input)
  | release => .release
  | retire state => .retire (state.blank erase)

def blankResponse (erase : S → T) :
    (op : Access F S W) → op.Resp → (op.blank erase).Resp
  | pcm access, response => access.mapResponse SourceSample.blank response
  | enter, state => state.blank erase
  | mutes _, response | loadResetSerial, response | fetchAddResetSerial, response
  | loadFinish _, response | storeFinish _, response | loadCounter _, response
  | storeCounter .., response | storeRatioCorrection _, response | loadStamp, response
  | setStamp _, response | advanceStamp _, response | loadEpoch, response
  | storeEpoch _, response | leave .., response | lookup .., response | feed _, response
  | release, response | retire _, response => response

end Access

section Mirror

variable (erase : S → T)

/-- What the ledger notes of an access does not depend on PCM. -/
theorem note_blank (geometry : Geometry) (op : Access F S W) (ring : Ring F S W) :
    Ledger.note geometry (op.blank erase) (ring.blank erase) =
      (Ledger.note geometry op ring).blank erase := by
  have passed : (ring.blank erase).pcm.passed.length = ring.pcm.passed.length := by
    change (ring.pcm.map SourceSample.blank).passed.length = _
    rw [Channel.passed_map, List.length_map]
  cases op with
  | pcm access =>
      cases access with
      | discardTo cursor =>
          unfold Ledger.note Access.blank QueueAccess.map
          dsimp only
          rw [passed]
          rfl
      | loadWritten | snapshotWritten | loadRead | loadCell index | storeCell index value
      | storeWritten cursor | advanceRead cursor value => rfl
  | mutes access => cases access <;> rfl
  | fetchAddResetSerial =>
      unfold Ledger.note Access.blank
      dsimp only
      rw [passed]
      rfl
  | loadFinish site => cases site <;> rfl
  | feed input =>
      unfold Ledger.note Access.blank Ledger.blank
      dsimp only
      rw [List.map_append]
      rfl
  | loadResetSerial | storeFinish word | loadCounter counter | storeCounter counter value
  | storeRatioCorrection ppm | loadStamp | setStamp stamp | advanceStamp stamp | loadEpoch
  | storeEpoch epoch | enter | leave state errored | lookup history position | release
  | retire state => rfl

theorem answer_blank (geometry : Geometry) (op : Access F S W) (ring : Ring F S W) :
    answer geometry (op.blank erase) (ring.blank erase) =
      op.blankResponse erase (answer geometry op ring) := by
  cases op with
  | pcm access =>
      exact congrArg Prod.fst
        (Channel.exec_map SourceSample.blank geometry.capacity access ring.pcm)
  | _ => rfl

theorem effect_blank (geometry : Geometry) (op : Access F S W) (ring : Ring F S W) :
    effect geometry (op.blank erase) (ring.blank erase) =
      (effect geometry op ring).blank erase := by
  have noted := note_blank erase geometry op ring
  unfold effect
  rw [noted]
  cases op with
  | pcm access =>
      have moved := congrArg Prod.snd
        (Channel.exec_map SourceSample.blank geometry.capacity access ring.pcm)
      exact congrArg (fun pcm => ({ ring.blank erase with
        ledger := (Ledger.note geometry (.pcm access) ring).blank erase, pcm := pcm } :
          Ring Blank T W)) moved
  | _ => rfl

/-- Every access commutes with forgetting the PCM. -/
def blankMirror (geometry : Geometry) :
    Mirror (exec (F := F) (S := S) (W := W) geometry)
      (exec (F := Blank) (S := T) (W := W) geometry) where
  op := Access.blank erase
  response := Access.blankResponse erase
  memory := Ring.blank erase
  exec_eq op ring := Prod.ext (answer_blank erase geometry op ring)
    (effect_blank erase geometry op ring)

end Mirror

end PcmRing
