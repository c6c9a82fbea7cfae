import PcmRing.AtomicRuns
import PcmRing.ConsumerSteps

/-!
# How an atomic render ends

A render decides in which of four ways it ends, and with which slots and which
consumer, before anything is played.  What every local step of a refill keeps
holds at the end that was decided on.
-/

namespace PcmRing

open TwoLapQueue

variable {F S W : Type}

/-- The end of a render: the slots it left readable, and the consumer at the end. -/
inductive RenderExit (F S W : Type) where
  | silent (slots : List (SourceSample F)) (state : ConsumerState F S W) (errored : Bool)
  | completed (slots : List (SourceSample F)) (state : ConsumerState F S W) (boundary : Finite)
      (failed : Bool)
  | released (slots : List (SourceSample F)) (state : ConsumerState F S W) (boundary : Finite)
  | emitted (slots : List (SourceSample F)) (state : ConsumerState F S W) (result : RefillResult)

namespace ConsumerState

section Exits

variable [Binary32 F] [Binary64 W] (adapter : Adapter F W S) (geometry : Geometry)

omit [Binary32 F] [Binary64 W] in
/-- A boundary that is drained. -/
def drainExit (boundary : Finite) (state : ConsumerState F S W) (slots : List (SourceSample F)) :
    RenderExit F S W :=
  if remainingLookahead geometry.lookahead boundary ≠ 0 then .released slots state boundary
  else
    .completed slots { state with finite := some { boundary with plcRemaining := some 0 } }
      { boundary with plcRemaining := some 0 } false

omit [Binary32 F] [Binary64 W] in
/-- A finite tail after its last refill. -/
def tailExit (boundary : Finite) (result : RefillResult) (state : ConsumerState F S W)
    (slots : List (SourceSample F)) : RenderExit F S W :=
  if result ≠ .ready then .completed slots state boundary true
  else if state.PastBoundary then state.drainExit geometry boundary slots
  else if state.muteFault then .silent slots state true
  else .emitted slots state result

/-- After a conversion. -/
def outputExit (state : ConsumerState F S W) (slots : List (SourceSample F)) :
    RenderExit F S W :=
  let refill := state.refilled adapter geometry slots
  match refill.1.2.finite with
  | some boundary =>
      let tail := refill.1.2.refilledTail adapter geometry geometry.finiteRefillLimit
        refill.1.1 refill.2
      tail.1.2.tailExit geometry boundary tail.1.1 tail.2
  | none =>
      if refill.1.2.muteFault then .silent refill.2 refill.1.2 true
      else .emitted refill.2 refill.1.2 refill.1.1

/-- Drain an exhausted boundary, or convert. -/
def primedExit (state : ConsumerState F S W) (slots : List (SourceSample F)) :
    RenderExit F S W :=
  match state.finite with
  | some boundary =>
      if state.Draining then state.drainExit geometry boundary slots
      else state.outputExit adapter geometry slots
  | none => state.outputExit adapter geometry slots

/-- Below the reserve the stream does not begin. -/
def awakeExit (state : ConsumerState F S W) (slots : List (SourceSample F)) : RenderExit F S W :=
  if state.primed ∨ state.resetFailed then state.primedExit adapter geometry slots
  else if slots.length < geometry.reserve ∧ state.finite.isNone then .silent slots state false
  else { state with primed := true }.primedExit adapter geometry slots

/-- After the boundary and the records are taken in. -/
def readyExit (state : ConsumerState F S W) (slots : List (SourceSample F)) : RenderExit F S W :=
  if state.muteFault then .silent slots state true
  else if state.quiet then
    if slots.length = 0 then .silent slots state state.resetFailed
    else { state with quiet := false }.awakeExit adapter geometry slots
  else state.awakeExit adapter geometry slots

end Exits

end ConsumerState

section Closing

variable [Binary32 F] [Binary64 W] [Widening F W] (adapter : Adapter F W S) (geometry : Geometry)

/-- Carry out the end of a render. -/
def RenderExit.close (exit : RenderExit F S W) (view : RingView F S W) :
    Rendered F × RingView F S W :=
  match exit with
  | .silent slots state errored => { view with slots := slots }.silent state errored
  | .completed slots state boundary failed =>
      { view with slots := slots }.complete adapter boundary failed state
  | .released slots state boundary =>
      ((state.release geometry boundary).1,
        { view with slots := slots, consumer := (state.release geometry boundary).2 })
  | .emitted slots state result => { view with slots := slots }.emit geometry result state

namespace RingView

/-- The end of the next render. -/
def exit (view : RingView F S W) : RenderExit F S W :=
  view.started.readyExit adapter geometry view.slots

variable {adapter geometry} {view : RingView F S W} {state : ConsumerState F S W}

private theorem close_ite {condition : Prop} [Decidable condition] {yes no : RenderExit F S W} :
    (if condition then yes else no).close adapter geometry view =
      if condition then yes.close adapter geometry view else no.close adapter geometry view := by
  split <;> rfl

theorem drain_eq_close (boundary : Finite) (slots : List (SourceSample F)) :
    { view with slots := slots }.drain adapter geometry boundary state =
      (state.drainExit geometry boundary slots).close adapter geometry view := by
  unfold RingView.drain ConsumerState.drainExit
  rw [close_ite]
  rfl

theorem renderTail_eq_close (boundary : Finite) (result : RefillResult)
    (slots : List (SourceSample F)) :
    { view with slots := slots }.renderTail adapter geometry boundary result state =
      (state.tailExit geometry boundary result slots).close adapter geometry view := by
  unfold RingView.renderTail ConsumerState.tailExit
  rw [close_ite, close_ite, close_ite, drain_eq_close]
  rfl

theorem renderOutput_eq_close :
    view.renderOutput adapter geometry state =
      (state.outputExit adapter geometry view.slots).close adapter geometry view := by
  unfold RingView.renderOutput ConsumerState.outputExit
  dsimp only
  generalize state.refilled adapter geometry view.slots = refill
  cases refill.1.2.finite with
  | none =>
      dsimp only
      rw [close_ite]
      rfl
  | some boundary => exact renderTail_eq_close boundary _ _

theorem renderPrimed_eq_close :
    view.renderPrimed adapter geometry state =
      (state.primedExit adapter geometry view.slots).close adapter geometry view := by
  unfold RingView.renderPrimed ConsumerState.primedExit
  cases state.finite with
  | none => exact renderOutput_eq_close
  | some boundary =>
      dsimp only
      rw [close_ite, ← renderOutput_eq_close, ← drain_eq_close]

theorem renderAwake_eq_close :
    view.renderAwake adapter geometry state =
      (state.awakeExit adapter geometry view.slots).close adapter geometry view := by
  unfold RingView.renderAwake ConsumerState.awakeExit
  rw [close_ite, close_ite, renderPrimed_eq_close, renderPrimed_eq_close]
  rfl

theorem render_eq_close :
    view.render adapter geometry =
      (view.exit adapter geometry).close adapter geometry { view with records := [] } := by
  unfold RingView.render RingView.renderReady RingView.exit ConsumerState.readyExit
  rw [close_ite, close_ite, close_ite, renderAwake_eq_close, renderAwake_eq_close]
  rfl

end RingView

end Closing

section Refilling

variable [Binary32 F] [Binary64 W]

/-- Every local step of a refill keeps a predicate on the consumer and the
readable slots. -/
structure RefillKeeps (adapter : Adapter F W S) (geometry : Geometry)
    (inv : ConsumerState F S W → List (SourceSample F) → Prop) : Prop where
  flags : ∀ {state slots} quiet primed, inv state slots →
    inv { state with quiet := quiet, primed := primed } slots
  space : ∀ {state slots} wanted, state.Refilling → inv state slots →
    inv (state.makeInputSpace wanted geometry.capacity) slots
  take : ∀ {state slot rest}, state.Refilling → state.inputPadding = false →
    inv state (slot :: rest) → inv (state.acceptSource geometry.gapCapacity slot).2 rest
  pad : ∀ {state slots}, state.Refilling →
    (0 < state.inputPending ∨ state.inputPadding = true ∨ slots = []) → inv state slots →
    inv (state.padInput (min geometry.capacity converterQuantum)) slots
  query : ∀ {state slots}, state.Refilling → inv state slots →
    inv { state with converter := (adapter.converterQueuedInput state.converter).2 } slots
  steer : ∀ {state slots} smoothed ratio, state.Refilling → inv state slots →
    inv { state with occupancyMilli := smoothed, ratio := ratio } slots
  convert : ∀ {state slots}, state.Refilling → inv state slots →
    inv (state.convert adapter geometry (min geometry.capacity converterQuantum)).2 slots

theorem RefillKeeps.and {adapter : Adapter F W S} {geometry : Geometry}
    {first second : ConsumerState F S W → List (SourceSample F) → Prop}
    (one : RefillKeeps adapter geometry first) (two : RefillKeeps adapter geometry second) :
    RefillKeeps adapter geometry fun state slots => first state slots ∧ second state slots where
  flags quiet primed holds := ⟨one.flags quiet primed holds.1, two.flags quiet primed holds.2⟩
  space wanted refilling holds :=
    ⟨one.space wanted refilling holds.1, two.space wanted refilling holds.2⟩
  take refilling unpadded holds :=
    ⟨one.take refilling unpadded holds.1, two.take refilling unpadded holds.2⟩
  pad refilling waiting holds :=
    ⟨one.pad refilling waiting holds.1, two.pad refilling waiting holds.2⟩
  query refilling holds := ⟨one.query refilling holds.1, two.query refilling holds.2⟩
  steer smoothed ratio refilling holds :=
    ⟨one.steer smoothed ratio refilling holds.1, two.steer smoothed ratio refilling holds.2⟩
  convert refilling holds := ⟨one.convert refilling holds.1, two.convert refilling holds.2⟩

namespace ConsumerState

variable {adapter : Adapter F W S} {geometry : Geometry}
  {inv : ConsumerState F S W → List (SourceSample F) → Prop} {state : ConsumerState F S W}
  {slots : List (SourceSample F)}

/-- What taking slots leaves behind: the invariant, and, unless a slot was
dropped, no new fault and an empty workspace only if no slot was left. -/
structure Taken (inv : ConsumerState F S W → List (SourceSample F) → Prop)
    (before : ConsumerState F S W) (wanted : Nat)
    (taken : (Bool × ConsumerState F S W) × List (SourceSample F)) : Prop where
  holds : inv taken.1.2 taken.2
  keeps : Keeps before taken.1.2
  fills : taken.1.1 = true → 0 < wanted + before.inputPending →
    0 < taken.1.2.inputPending ∨ taken.1.2.inputPadding = true ∨ taken.2 = []
  clean : taken.1.1 = true → taken.1.2.muteFault = before.muteFault

theorem takeAll_taken (keeps : RefillKeeps adapter geometry inv) (wanted : Nat)
    (refilling : state.Refilling) (holds : inv state slots) :
    Taken inv state wanted (state.takeAll geometry.gapCapacity wanted slots) := by
  have refl : Keeps state state := ⟨rfl, rfl, rfl, rfl⟩
  induction wanted generalizing state slots with
  | zero =>
      refine ⟨holds, refl, fun _ some => .inl ?_, fun _ => rfl⟩
      rwa [Nat.zero_add] at some
  | succ wanted ih =>
      cases slots with
      | nil => exact ⟨holds, refl, fun _ _ => .inr (.inr rfl), fun _ => rfl⟩
      | cons slot rest =>
          unfold takeAll
          by_cases padding : state.inputPadding = true
          · rw [if_pos padding]
            exact ⟨holds, refl, fun _ _ => .inr (.inl padding), fun _ => rfl⟩
          rw [if_neg padding]
          have unpadded := Bool.eq_false_iff.mpr padding
          have one := keeps.take refilling unpadded holds
          have kept := state.acceptSource_keeps geometry.gapCapacity slot
          dsimp only
          split
          · rename_i accepted
            have grown := state.acceptSource_inputPending geometry.gapCapacity slot accepted
            have more := ih (kept.refilling refilling) one ⟨rfl, rfl, rfl, rfl⟩
            exact
              { holds := more.holds
                keeps := kept.trans more.keeps
                fills := fun ok _ => more.fills ok (by omega)
                clean := fun ok => (more.clean ok).trans
                  (state.acceptSource_muteFault geometry.gapCapacity slot accepted) }
          · rename_i dropped
            exact ⟨one, kept, fun ok => (dropped ok).elim, fun ok => (dropped ok).elim⟩

/-- What one refill leaves behind. -/
structure Refilled (inv : ConsumerState F S W → List (SourceSample F) → Prop)
    (before : ConsumerState F S W)
    (refill : (RefillResult × ConsumerState F S W) × List (SourceSample F)) : Prop where
  holds : inv refill.1.2 refill.2
  finite_eq : refill.1.2.finite = before.finite
  resetFailed_eq : refill.1.2.resetFailed = before.resetFailed
  muteHistory_eq : refill.1.2.muteHistory = before.muteHistory
  ready : refill.1.1 = .ready → refill.1.2.outputPending ≠ 0
  clean : refill.1.1 ≠ .adapterError → refill.1.2.muteFault = before.muteFault

theorem converted_refilled (keeps : RefillKeeps adapter geometry inv) (readable : Nat)
    (refilling : state.Refilling) (holds : inv state slots) :
    Refilled inv state (state.converted adapter geometry (min geometry.capacity converterQuantum)
      readable, slots) := by
  have queried := keeps.query refilling holds
  unfold converted
  generalize queryEq : adapter.converterQueuedInput state.converter = reply
  obtain ⟨queued, converter⟩ := reply
  rw [queryEq] at queried
  cases queued with
  | none =>
      exact ⟨queried, rfl, rfl, rfl, fun ready => (by cases ready), fun works => (works rfl).elim⟩
  | some queued =>
      dsimp only
      generalize occupancyOf readable state.inputPending queued = occupancy
      have steered : ∃ smoothed ratio,
          ({ state with converter := converter } : ConsumerState F S W).steered geometry
              occupancy =
            { state with converter := converter, occupancyMilli := smoothed, ratio := ratio } := by
        unfold ConsumerState.steered
        split
        · exact ⟨_, _, rfl⟩
        · split
          · exact ⟨_, _, rfl⟩
          · exact ⟨_, _, rfl⟩
      obtain ⟨smoothed, ratio, steeredEq⟩ := steered
      rw [steeredEq]
      have moved : ({ state with converter := converter } : ConsumerState F S W).Refilling :=
        refilling
      have ready := keeps.steer smoothed ratio moved queried
      have ran := convert_cases { state with
        converter := converter, occupancyMilli := smoothed, ratio := ratio } adapter geometry
          (min geometry.capacity converterQuantum)
      exact
        { holds := keeps.convert refilling ready
          finite_eq := ran.keeps.1
          resetFailed_eq := ran.keeps.2.1
          muteHistory_eq := ran.keeps.2.2
          ready := ran.ready
          clean := ran.clean }

theorem refilled_refilled (keeps : RefillKeeps adapter geometry inv)
    (positive : 0 < geometry.capacity) (holds : inv state slots) :
    Refilled inv state (state.refilled adapter geometry slots) := by
  unfold refilled
  by_cases failed : state.resetFailed = true
  · rw [if_pos failed]
    exact ⟨holds, rfl, rfl, rfl, fun ready => (by cases ready), fun _ => rfl⟩
  rw [if_neg failed]
  by_cases pending : state.outputPending ≠ 0
  · rw [if_pos pending]
    exact ⟨holds, rfl, rfl, rfl, fun _ => pending, fun _ => rfl⟩
  rw [if_neg pending]
  have refilling : state.Refilling := ⟨Bool.eq_false_iff.mpr failed, not_not.mp pending⟩
  dsimp only
  generalize wantedEq : desiredInput geometry (min geometry.capacity converterQuantum) state -
    state.inputPending = wanted
  have spaced := state.makeInputSpace_keeps wanted geometry.capacity
  have taken := takeAll_taken keeps wanted (spaced.refilling refilling)
    (keeps.space wanted refilling holds)
  have waiting : 0 < wanted + (state.makeInputSpace wanted geometry.capacity).inputPending := by
    have same : (state.makeInputSpace wanted geometry.capacity).inputPending =
        state.inputPending := by
      unfold makeInputSpace
      split <;> rfl
    have quantum : 0 < min geometry.capacity converterQuantum :=
      Nat.lt_min.mpr ⟨positive, by decide⟩
    rw [same, ← wantedEq]
    unfold desiredInput
    split <;> omega
  have keptTaken := spaced.trans taken.keeps
  have clean : (state.makeInputSpace wanted geometry.capacity).muteFault = state.muteFault := by
    unfold makeInputSpace
    split <;> rfl
  generalize (state.makeInputSpace wanted geometry.capacity).takeAll geometry.gapCapacity wanted
    slots = taking at taken keptTaken ⊢
  obtain ⟨⟨ok, filled⟩, rest⟩ := taking
  cases ok with
  | false =>
      exact ⟨taken.holds, keptTaken.finite_eq, keptTaken.resetFailed_eq, keptTaken.muteHistory_eq,
        fun ready => (by cases ready), fun works => (works rfl).elim⟩
  | true =>
      have padded := keeps.pad (keptTaken.refilling refilling) (taken.fills rfl waiting) taken.holds
      have paddedKeeps := keptTaken.trans
        (filled.padInput_keeps (min geometry.capacity converterQuantum))
      have faultEq : (filled.padInput (min geometry.capacity converterQuantum)).muteFault =
          state.muteFault := by
        rw [← clean, ← taken.clean rfl]
        unfold padInput
        split <;> rfl
      rw [if_pos rfl]
      generalize filled.padInput (min geometry.capacity converterQuantum) = ready at *
      split
      · exact ⟨padded, paddedKeeps.finite_eq, paddedKeeps.resetFailed_eq,
          paddedKeeps.muteHistory_eq, fun ready => (by cases ready), fun _ => faultEq⟩
      · have ran := converted_refilled keeps rest.length (paddedKeeps.refilling refilling) padded
        exact
          { holds := ran.holds
            finite_eq := ran.finite_eq.trans paddedKeeps.finite_eq
            resetFailed_eq := ran.resetFailed_eq.trans paddedKeeps.resetFailed_eq
            muteHistory_eq := ran.muteHistory_eq.trans paddedKeeps.muteHistory_eq
            ready := ran.ready
            clean := fun works => (ran.clean works).trans faultEq }

theorem refilledTail_refilled (keeps : RefillKeeps adapter geometry inv)
    (positive : 0 < geometry.capacity) (limit : Nat) {before : ConsumerState F S W}
    {refill : (RefillResult × ConsumerState F S W) × List (SourceSample F)}
    (refilled : Refilled inv before refill) :
    Refilled inv before
      (refill.1.2.refilledTail adapter geometry limit refill.1.1 refill.2) := by
  induction limit generalizing refill with
  | zero => exact refilled
  | succ limit ih =>
      unfold refilledTail
      split
      · rename_i starved
        have again := refilled_refilled keeps positive refilled.holds
        refine ih
          { holds := again.holds
            finite_eq := again.finite_eq.trans refilled.finite_eq
            resetFailed_eq := again.resetFailed_eq.trans refilled.resetFailed_eq
            muteHistory_eq := again.muteHistory_eq.trans refilled.muteHistory_eq
            ready := again.ready
            clean := fun works => (again.clean works).trans (refilled.clean ?_) }
        rw [starved]
        decide
      · exact refilled

end ConsumerState

/-- What a render that keeps `inv` has at its end: no output is played while a
mute fault is latched, and no output is converted while a boundary drains. -/
def RenderExit.Meets (geometry : Geometry)
    (inv : ConsumerState F S W → List (SourceSample F) → Prop) (history : History) :
    RenderExit F S W → Prop
  | .silent slots state _ => inv state slots ∧ state.muteHistory = history
  | .completed _ _ _ _ => True
  | .released slots state boundary => inv state slots ∧ state.muteHistory = history ∧
      state.finite = some boundary ∧ state.muteFault = false ∧
      ConsumerState.remainingLookahead geometry.lookahead boundary ≠ 0
  | .emitted slots state result => inv state slots ∧ state.muteHistory = history ∧
      ¬state.Draining ∧ state.muteFault = false ∧
      (result = .ready → state.outputPending ≠ 0)

namespace ConsumerState

variable {adapter : Adapter F W S} {geometry : Geometry}
  {inv : ConsumerState F S W → List (SourceSample F) → Prop} {state : ConsumerState F S W}
  {slots : List (SourceSample F)}

omit [Binary32 F] [Binary64 W] in
theorem drainExit_meets (holds : inv state slots) (clean : state.muteFault = false)
    {boundary : Finite} (finiteEq : state.finite = some boundary) :
    (state.drainExit geometry boundary slots).Meets geometry inv state.muteHistory := by
  unfold drainExit
  split
  · rename_i remaining
    exact ⟨holds, rfl, finiteEq, clean, remaining⟩
  · trivial

theorem outputExit_meets (keeps : RefillKeeps adapter geometry inv)
    (positive : 0 < geometry.capacity) (holds : inv state slots)
    (clean : state.muteFault = false) (converting : ¬state.Draining) :
    (state.outputExit adapter geometry slots).Meets geometry inv state.muteHistory := by
  have converting' {other : ConsumerState F S W} (finiteEq : other.finite = state.finite) :
      ¬other.Draining := by
    rintro ⟨boundary, member, ends⟩
    exact converting ⟨boundary, finiteEq ▸ member, ends⟩
  have refilled := refilled_refilled keeps positive holds
  unfold outputExit
  dsimp only
  generalize state.refilled adapter geometry slots = refill at refilled ⊢
  cases finiteEq : refill.1.2.finite with
  | none =>
      dsimp only
      split
      · exact ⟨refilled.holds, refilled.muteHistory_eq⟩
      · rename_i fault
        exact ⟨refilled.holds, refilled.muteHistory_eq, converting' refilled.finite_eq,
          Bool.eq_false_iff.mpr fault, refilled.ready⟩
  | some boundary =>
      have tail := refilledTail_refilled keeps positive geometry.finiteRefillLimit refilled
      dsimp only
      generalize refill.1.2.refilledTail adapter geometry geometry.finiteRefillLimit refill.1.1
        refill.2 = tailed at tail ⊢
      unfold tailExit
      split
      · trivial
      rename_i ready
      have works : tailed.1.1 ≠ .adapterError := by
        rw [not_not.mp ready]
        decide
      have fault := (tail.clean works).trans clean
      split
      · rw [← tail.muteHistory_eq]
        exact drainExit_meets tail.holds fault
          (tail.finite_eq.trans (refilled.finite_eq.symm.trans finiteEq))
      rw [if_neg (by rw [fault]; decide)]
      exact ⟨tail.holds, tail.muteHistory_eq, converting' tail.finite_eq, fault, tail.ready⟩

theorem primedExit_meets (keeps : RefillKeeps adapter geometry inv)
    (positive : 0 < geometry.capacity) (holds : inv state slots)
    (clean : state.muteFault = false) :
    (state.primedExit adapter geometry slots).Meets geometry inv state.muteHistory := by
  unfold primedExit
  cases finiteEq : state.finite with
  | none =>
      refine outputExit_meets keeps positive holds clean ?_
      rintro ⟨boundary, member, -⟩
      rw [finiteEq] at member
      cases member
  | some boundary =>
      dsimp only
      split
      · exact drainExit_meets holds clean finiteEq
      · rename_i converting
        exact outputExit_meets keeps positive holds clean converting

/-- What every step of a refill keeps holds at the end of a render. -/
theorem readyExit_meets (keeps : RefillKeeps adapter geometry inv)
    (positive : 0 < geometry.capacity) (holds : inv state slots) :
    (state.readyExit adapter geometry slots).Meets geometry inv state.muteHistory := by
  have awake {state : ConsumerState F S W} (holds : inv state slots)
      (clean : state.muteFault = false) :
      (state.awakeExit adapter geometry slots).Meets geometry inv state.muteHistory := by
    unfold awakeExit
    split
    · exact primedExit_meets keeps positive holds clean
    · split
      · exact ⟨holds, rfl⟩
      · have primed : inv { state with primed := true } slots := keeps.flags state.quiet true holds
        exact primedExit_meets keeps positive primed clean
  unfold readyExit
  split
  · exact ⟨holds, rfl⟩
  rename_i clean
  have clean := Bool.eq_false_iff.mpr clean
  split
  · split
    · exact ⟨holds, rfl⟩
    · have woken : inv { state with quiet := false } slots := keeps.flags false state.primed holds
      exact awake woken clean
  · exact awake holds clean

end ConsumerState

end Refilling

end PcmRing
