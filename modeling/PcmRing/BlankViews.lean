import PcmRing.BlankSchedules
import PcmRing.PlainQueue

/-!
# Atomic calls without their samples

Whole calls commute with forgetting the PCM, and so does the end that a render
decides on: which slot it plays, if any, is the same whatever the samples are.
-/

namespace PcmRing

open AtomicProgram TwoLapQueue

variable {F S T W : Type}

def ProducerAccount.blank (account : ProducerAccount F) : ProducerAccount Blank where
  published := account.published.map SourceSample.blank
  records := account.records
  stamp := account.stamp
  discarded := account.discarded

def RingView.blank (erase : S → T) (view : RingView F S W) : RingView Blank T W where
  slots := view.slots.map SourceSample.blank
  records := view.records
  account := view.account.blank
  consumer := view.consumer.blank erase
  finish := view.finish
  missing := view.missing
  fed := view.fed.map blankInput

theorem view_blank (erase : S → T) (geometry : Geometry) (ring : Ring F S W) :
    (ring.blank erase).view geometry = (ring.view geometry).blank erase := by
  have unread : (ring.blank erase).pcm.unread geometry.capacity =
      (ring.pcm.unread geometry.capacity).map SourceSample.blank :=
    Channel.unread_map SourceSample.blank geometry.capacity ring.pcm
  exact congrArg (fun slots => ({ (ring.view geometry).blank erase with slots := slots } :
    RingView Blank T W)) unread

/-- The end of a render without its PCM. -/
def RenderExit.blank (erase : S → T) : RenderExit F S W → RenderExit Blank T W
  | silent slots state errored =>
      .silent (slots.map SourceSample.blank) (state.blank erase) errored
  | completed slots state boundary failed =>
      .completed (slots.map SourceSample.blank) (state.blank erase) boundary failed
  | released slots state boundary =>
      .released (slots.map SourceSample.blank) (state.blank erase) boundary
  | emitted slots state result =>
      .emitted (slots.map SourceSample.blank) (state.blank erase) result

theorem support_blank (erase : S → T) (exit : RenderExit F S W) :
    (exit.blank erase).support = exit.support := by
  cases exit with
  | silent | completed | released => rfl
  | emitted slots state result => cases result <;> rfl

/-- What a refill answers, without its PCM. -/
def blankRefill {α : Type} (erase : S → T)
    (refill : (α × ConsumerState F S W) × List (SourceSample F)) :
    (α × ConsumerState Blank T W) × List (SourceSample Blank) :=
  refill.map (Prod.map id (ConsumerState.blank erase)) (List.map SourceSample.blank)

namespace ConsumerState

variable (state : ConsumerState F S W) (erase : S → T)

theorem takeAll_blank (gapCapacity wanted : Nat) (slots : List (SourceSample F)) :
    (state.blank erase).takeAll gapCapacity wanted (slots.map SourceSample.blank) =
      blankRefill erase (state.takeAll gapCapacity wanted slots) := by
  induction wanted generalizing state slots with
  | zero => rfl
  | succ wanted ih =>
      cases slots with
      | nil => rfl
      | cons sample rest =>
          have accepted := state.acceptSource_blank erase gapCapacity sample
          unfold takeAll
          rw [List.map_cons]
          dsimp only
          rw [accepted, apply_ite (blankRefill erase)]
          refine if_congr Iff.rfl rfl ?_
          rw [apply_ite (blankRefill erase)]
          exact if_congr Iff.rfl (ih _ rest) rfl

theorem receiveAll_blank (records : List Interval) :
    (state.blank erase).receiveAll records = (state.receiveAll records).blank erase := by
  unfold receiveAll
  induction records generalizing state with
  | nil => rfl
  | cons interval records ih => exact ih (state.receive interval)

variable [Binary64 W] (geometry : Geometry)

theorem steered_blank (occupancy : Nat) :
    (state.blank erase).steered geometry occupancy =
      (state.steered geometry occupancy).blank erase := by
  unfold steered
  rw [apply_ite (ConsumerState.blank erase)]
  refine if_congr Iff.rfl rfl ?_
  rw [apply_ite (ConsumerState.blank erase)]
  rfl

variable {erase} {adapter : Adapter F W S} {bare : Adapter Blank W T}
  (forgets : adapter.Forgets bare erase)

include forgets

theorem converted_blank (quantum readable : Nat) :
    (state.blank erase).converted bare geometry quantum readable =
      (state.converted adapter geometry quantum readable).map id (ConsumerState.blank erase) := by
  have asked : bare.converterQueuedInput (state.blank erase).converter = _ :=
    forgets.queuedInput state.converter
  unfold converted
  rw [asked]
  generalize adapter.converterQueuedInput state.converter = answer
  obtain ⟨queued, converter⟩ := answer
  cases queued with
  | none => rfl
  | some queued =>
      have steered := steered_blank { state with converter := converter } erase geometry
        (occupancyOf readable state.inputPending queued)
      exact (congrArg (fun (started : ConsumerState Blank T W) =>
        started.convert bare geometry quantum) steered).trans
          (convert_blank _ forgets geometry quantum)

theorem refilled_blank [Zero F] (slots : List (SourceSample F)) :
    (state.blank erase).refilled bare geometry (slots.map SourceSample.blank) =
      blankRefill erase (state.refilled adapter geometry slots) := by
  unfold refilled
  rw [apply_ite (blankRefill erase)]
  refine if_congr Iff.rfl rfl ?_
  rw [apply_ite (blankRefill erase)]
  refine if_congr Iff.rfl rfl ?_
  have spaced := state.makeInputSpace_blank erase
    (desiredInput geometry (min geometry.capacity converterQuantum) state - state.inputPending)
    geometry.capacity
  have taken := takeAll_blank (state.makeInputSpace
    (desiredInput geometry (min geometry.capacity converterQuantum) state - state.inputPending)
      geometry.capacity) erase geometry.gapCapacity
    (desiredInput geometry (min geometry.capacity converterQuantum) state - state.inputPending)
    slots
  rw [← spaced] at taken
  have wantedEq : desiredInput geometry (min geometry.capacity converterQuantum)
      (state.blank erase) - (state.blank erase).inputPending =
      desiredInput geometry (min geometry.capacity converterQuantum) state -
        state.inputPending := rfl
  dsimp only
  rw [wantedEq, taken]
  generalize takeAll _ _ _ slots = taking
  obtain ⟨⟨passed, after⟩, rest⟩ := taking
  cases passed with
  | false => rfl
  | true =>
      have padded := after.padInput_blank erase (min geometry.capacity converterQuantum)
      have converted := (after.padInput (min geometry.capacity converterQuantum)).converted_blank
        geometry forgets (min geometry.capacity converterQuantum) rest.length
      unfold blankRefill
      simp only [Prod.map, id, if_true, padded, List.length_map, converted]
      by_cases idle : (after.padInput (min geometry.capacity converterQuantum)).inputPending = 0 ∧
          (after.padInput (min geometry.capacity converterQuantum)).zeroProgress = true
      · rw [if_pos idle]
        exact if_pos idle
      · rw [if_neg idle]
        exact if_neg idle

theorem refilledTail_blank [Binary32 F] (limit : Nat) (result : RefillResult)
    (slots : List (SourceSample F)) :
    (state.blank erase).refilledTail bare geometry limit result (slots.map SourceSample.blank) =
      blankRefill erase (state.refilledTail adapter geometry limit result slots) := by
  induction limit generalizing result state slots with
  | zero => rfl
  | succ limit ih =>
      unfold refilledTail
      rw [refilled_blank state geometry forgets slots, apply_ite (blankRefill erase)]
      exact if_congr Iff.rfl (ih _ _ _) rfl

omit forgets [Binary64 W] in
theorem drainExit_blank (boundary : Finite) (slots : List (SourceSample F)) :
    (state.blank erase).drainExit geometry boundary (slots.map SourceSample.blank) =
      (state.drainExit geometry boundary slots).blank erase := by
  unfold drainExit
  rw [apply_ite (RenderExit.blank erase)]
  rfl

omit forgets [Binary64 W] in
theorem tailExit_blank (boundary : Finite) (result : RefillResult)
    (slots : List (SourceSample F)) :
    (state.blank erase).tailExit geometry boundary result (slots.map SourceSample.blank) =
      (state.tailExit geometry boundary result slots).blank erase := by
  unfold tailExit
  rw [apply_ite (RenderExit.blank erase)]
  refine if_congr Iff.rfl rfl ?_
  rw [apply_ite (RenderExit.blank erase)]
  refine if_congr Iff.rfl (drainExit_blank state geometry boundary slots) ?_
  rw [apply_ite (RenderExit.blank erase)]
  rfl

variable [Binary32 F]

theorem outputExit_blank (slots : List (SourceSample F)) :
    (state.blank erase).outputExit bare geometry (slots.map SourceSample.blank) =
      (state.outputExit adapter geometry slots).blank erase := by
  unfold outputExit
  rw [refilled_blank state geometry forgets slots]
  generalize state.refilled adapter geometry slots = refill
  obtain ⟨⟨result, after⟩, rest⟩ := refill
  dsimp only [blankRefill, Prod.map, id]
  cases found : after.finite with
  | some boundary =>
      have found' : (after.blank erase).finite = some boundary := found
      have tail := refilledTail_blank after geometry forgets geometry.finiteRefillLimit result rest
      rw [found']
      dsimp only
      rw [tail]
      exact tailExit_blank _ geometry boundary _ _
  | none =>
      have found' : (after.blank erase).finite = none := found
      rw [found']
      dsimp only
      rw [apply_ite (RenderExit.blank erase)]
      rfl

theorem primedExit_blank (slots : List (SourceSample F)) :
    (state.blank erase).primedExit bare geometry (slots.map SourceSample.blank) =
      (state.primedExit adapter geometry slots).blank erase := by
  unfold primedExit
  cases found : state.finite with
  | some boundary =>
      have found' : (state.blank erase).finite = some boundary := found
      rw [found']
      dsimp only
      rw [apply_ite (RenderExit.blank erase)]
      exact if_congr (state.draining_blank erase) (drainExit_blank state geometry boundary slots)
        (outputExit_blank state geometry forgets slots)
  | none =>
      have found' : (state.blank erase).finite = none := found
      rw [found']
      exact outputExit_blank state geometry forgets slots

theorem awakeExit_blank (slots : List (SourceSample F)) :
    (state.blank erase).awakeExit bare geometry (slots.map SourceSample.blank) =
      (state.awakeExit adapter geometry slots).blank erase := by
  unfold awakeExit
  rw [apply_ite (RenderExit.blank erase), List.length_map]
  refine if_congr Iff.rfl (primedExit_blank state geometry forgets slots) ?_
  rw [apply_ite (RenderExit.blank erase)]
  exact if_congr Iff.rfl rfl
    (primedExit_blank { state with primed := true } geometry forgets slots)

theorem readyExit_blank (slots : List (SourceSample F)) :
    (state.blank erase).readyExit bare geometry (slots.map SourceSample.blank) =
      (state.readyExit adapter geometry slots).blank erase := by
  unfold readyExit
  rw [apply_ite (RenderExit.blank erase), List.length_map]
  refine if_congr Iff.rfl rfl ?_
  rw [apply_ite (RenderExit.blank erase)]
  refine if_congr Iff.rfl ?_ (awakeExit_blank state geometry forgets slots)
  rw [apply_ite (RenderExit.blank erase)]
  exact if_congr Iff.rfl rfl
    (awakeExit_blank { state with quiet := false } geometry forgets slots)

end ConsumerState

theorem started_blank (erase : S → T) (view : RingView F S W) :
    (view.blank erase).started = view.started.blank erase := by
  unfold RingView.started
  dsimp only
  rw [← ConsumerState.receiveAll_blank, apply_ite (ConsumerState.blank erase)]
  have capture : (view.blank erase).consumer.capture (view.blank erase).finish
      (view.blank erase).slots.length =
      (view.consumer.capture view.finish view.slots.length).blank erase := by
    change (view.consumer.blank erase).capture view.finish
      (view.slots.map SourceSample.blank).length = _
    rw [List.length_map]
    rfl
  rw [capture]
  rfl

section Calls

variable [Binary32 F] [Binary64 W] {adapter : Adapter F W S} {bare : Adapter Blank W T}
  {erase : S → T} (forgets : adapter.Forgets bare erase) (geometry : Geometry)

include forgets

theorem exit_blank (view : RingView F S W) :
    (view.blank erase).exit bare geometry = (view.exit adapter geometry).blank erase := by
  unfold RingView.exit
  rw [started_blank]
  exact view.started.readyExit_blank geometry forgets view.slots

/-- Two rings that differ in PCM only map their next output alike. -/
theorem support_eq_of_blank {view other : RingView F S W}
    (same : other.blank erase = view.blank erase) :
    (other.exit adapter geometry).support = (view.exit adapter geometry).support := by
  rw [← support_blank erase, ← exit_blank forgets, same, exit_blank forgets, support_blank]

/-- A call of either endpoint without its samples. -/
def RingCall.blank (call : RingCall F) : RingCall Blank :=
  ⟨call.1, Party.blank call.1 call.2⟩

/-- What a reply reports beside PCM. -/
def RingReply.report : RingReply F → ProducerResult ⊕ (ConsumerCall × Bool)
  | ⟨.producer, result⟩ => .inl result
  | ⟨.consumer, result⟩ => .inr result.verdict

variable [Widening F W]

theorem perform_blank (call : RingCall F) (ring : Ring F S W) :
    ((ring.blank erase).perform bare geometry call.blank).1.report =
        (ring.perform adapter geometry call).1.report ∧
      ((ring.blank erase).perform bare geometry call.blank).2 =
        (ring.perform adapter geometry call).2.blank erase := by
  obtain ⟨party, call⟩ := call
  obtain ⟨alike, memory⟩ := (body_blank forgets geometry party call).run ring
  refine ⟨?_, memory⟩
  cases party with
  | producer => exact congrArg Sum.inl alike
  | consumer => exact congrArg Sum.inr alike

/-- Calls that differ in PCM only leave rings behind that do. -/
theorem perform_eq_of_blank {call other : RingCall F} {ring twin : Ring F S W}
    (alike : RingCall.blank other = RingCall.blank call)
    (same : twin.blank erase = ring.blank erase) :
    (twin.perform adapter geometry other).1.report =
        (ring.perform adapter geometry call).1.report ∧
      (twin.perform adapter geometry other).2.blank erase =
        (ring.perform adapter geometry call).2.blank erase := by
  obtain ⟨report, memory⟩ := perform_blank forgets geometry call ring
  obtain ⟨report', memory'⟩ := perform_blank forgets geometry other twin
  rw [alike, same] at report' memory'
  exact ⟨report'.symm.trans report, memory'.symm.trans memory⟩

end Calls

end PcmRing
