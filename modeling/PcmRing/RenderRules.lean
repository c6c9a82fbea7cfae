import PcmRing.ConsumerRules
import PcmRing.ConsumerSteps

/-!
# Proof outlines of a render

A render is verified by giving one assertion for each of its phases and
checking every step between them.  The steps are listed once, here, and so is
the walk through the program; an invariant of the consumer is then an instance
that says what each local step does to it.
-/

namespace PcmRing

open AtomicProgram TwoLapQueue

variable {F S W β : Type} [Binary32 F] [Binary64 W] [Widening F W]

/-- The memory after the oldest slot was taken. -/
def takeSlot (geometry : Geometry) (slot : SourceSample F) (ring : Ring F S W) : Ring F S W :=
  effect geometry (.pcm (.advanceRead
    ((ring.pcm.queue.read + 1) % (geometry.capacity * 2)) slot)) ring

/-- The memory after the oldest mute record was popped. -/
def popRecord (geometry : Geometry) (interval : Interval) (ring : Ring F S W) : Ring F S W :=
  effect geometry (.mutes (.advanceRead
    ((ring.mutes.queue.read + 1) % (mailboxQueue * 2)) interval)) ring

section Consumed

variable {geometry : Geometry} {ring : Ring F S W}

omit [Binary32 F] [Binary64 W] [Widening F W] in
theorem takeSlot_passed (slot : SourceSample F) :
    (takeSlot geometry slot ring).pcm.passed = ring.pcm.passed ++ [slot] := by
  change (ring.pcm.exec geometry.capacity (.advanceRead _ slot)).2.passed = _
  exact Channel.passed_advanceRead slot

omit [Binary32 F] [Binary64 W] [Widening F W] in
theorem takeSlot_sound {slot : SourceSample F} {rest : List (SourceSample F)}
    (sound : ring.pcm.Sound geometry.capacity)
    (unreadEq : ring.pcm.unread geometry.capacity = slot :: rest) :
    (takeSlot geometry slot ring).pcm.Sound geometry.capacity :=
  Channel.sound_reader sound ⟨rfl, rest, unreadEq⟩

omit [Binary32 F] [Binary64 W] [Widening F W] in
theorem takeSlot_unread {slot : SourceSample F} {rest : List (SourceSample F)}
    (sound : ring.pcm.Sound geometry.capacity)
    (unreadEq : ring.pcm.unread geometry.capacity = slot :: rest) :
    (takeSlot geometry slot ring).pcm.unread geometry.capacity = rest :=
  Channel.unread_advanceRead sound unreadEq

end Consumed

/-- The assertions of one refill: before it, when the workspace is filled, when
the ratio is set, and for each result. -/
structure RefillOutline (F S W : Type) where
  ready : ConsumerState F S W → Ring F S W → Prop
  filled : ConsumerState F S W → Ring F S W → Prop
  steered : ConsumerState F S W → Ring F S W → Prop
  refilled : RefillResult → ConsumerState F S W → Ring F S W → Prop

/-- Every local step of a refill meets its outline. -/
structure RefillSteps (adapter : Adapter F W S) (geometry : Geometry)
    (rely : Ring F S W → Ring F S W → Prop) (outline : RefillOutline F S W) : Prop where
  readySteady : ∀ state, Steady geometry rely (outline.ready state)
  filledSteady : ∀ state, Steady geometry rely (outline.filled state)
  steeredSteady : ∀ state, Steady geometry rely (outline.steered state)
  refilledSteady : ∀ result state, Steady geometry rely (outline.refilled result state)
  refused : ∀ state ring, outline.ready state ring → state.resetFailed = true →
    outline.refilled .adapterError state ring
  cached : ∀ state ring, outline.ready state ring → state.resetFailed = false →
    state.outputPending ≠ 0 → outline.refilled .ready state ring
  space : ∀ state ring wanted, outline.ready state ring → state.Refilling →
    outline.ready (state.makeInputSpace wanted geometry.capacity) ring
  take : ∀ state ring slot rest, outline.ready state ring → state.Refilling →
    state.inputPadding = false → state.inputOffset + state.inputPending < geometry.capacity →
    ring.pcm.unread geometry.capacity = slot :: rest →
    ((state.acceptSource geometry.gapCapacity slot).1 = true →
      outline.ready (state.acceptSource geometry.gapCapacity slot).2
        (takeSlot geometry slot ring)) ∧
    ((state.acceptSource geometry.gapCapacity slot).1 = false →
      outline.refilled .adapterError (state.acceptSource geometry.gapCapacity slot).2
        (takeSlot geometry slot ring))
  fill : ∀ state ring, outline.ready state ring → state.Refilling →
    (0 < state.inputPending ∨ state.inputPadding = true ∨
      ring.pcm.unread geometry.capacity = []) → outline.filled state ring
  pad : ∀ state ring, outline.filled state ring → state.Refilling →
    outline.filled (state.padInput (min geometry.capacity converterQuantum)) ring
  stalled : ∀ state ring, outline.filled state ring → state.Refilling →
    state.inputPending = 0 → state.finite = none → state.zeroProgress = true →
    outline.refilled .starved state ring
  query : ∀ state ring, outline.filled state ring → state.Refilling →
    ((adapter.converterQueuedInput state.converter).1.isSome = true →
      outline.filled
        { state with converter := (adapter.converterQueuedInput state.converter).2 } ring) ∧
    ((adapter.converterQueuedInput state.converter).1 = none →
      outline.refilled .adapterError
        { state with converter := (adapter.converterQueuedInput state.converter).2 } ring)
  steer : ∀ state ring smoothed, outline.filled state ring → state.Refilling →
    state.finite = none →
    outline.steered { state with
      occupancyMilli := smoothed
      ratio := steeredRatio W geometry smoothed state.ratio } ring
  nominal : ∀ state ring, outline.filled state ring → state.Refilling →
    Binary64.eq state.ratio (Binary64.ofRat 0) = true →
    outline.steered { state with
      ratio := nominalRatio W geometry.outputRateHz geometry.inputRateHz } ring
  keep : ∀ state ring, outline.filled state ring → state.Refilling →
    Binary64.eq state.ratio (Binary64.ofRat 0) = false → outline.steered state ring
  convert : ∀ state ring, outline.steered state ring → state.Refilling →
    outline.refilled
      (state.convert adapter geometry (min geometry.capacity converterQuantum)).1
      (state.convert adapter geometry (min geometry.capacity converterQuantum)).2 ring

section Refill

variable {adapter : Adapter F W S} {geometry : Geometry} {resets : Prop}
  {shape : List (SourceSample F) → List SlotNote → Prop}
  {rely : Ring F S W → Ring F S W → Prop} {guar : Access F S W → Ring F S W → Prop}
  {outline : RefillOutline F S W} {post : β → Ring F S W → Prop}
  (side : ConsumerSide geometry resets shape rely guar)
  (steps : RefillSteps adapter geometry rely outline)

include side steps

omit [Widening F W] in
theorem safe_takeSources {next : Bool × ConsumerState F S W → RingProgram F S W β}
    (wanted : Nat) {state : ConsumerState F S W} {ring : Ring F S W}
    (holds : outline.ready state ring) (refilling : state.Refilling)
    (progress : 0 < wanted ∨ 0 < state.inputPending)
    (room : wanted = 0 ∨ state.inputOffset + state.inputPending + wanted ≤ geometry.capacity)
    (safe : ∀ ok taken current, ConsumerState.Keeps state taken →
      (ok = true → outline.filled taken current) →
      (ok = false → outline.refilled .adapterError taken current) →
      (next (ok, taken)).Safe (exec geometry) rely guar post current) :
    (takeSources geometry wanted state >>= next).Safe (exec geometry) rely guar post ring := by
  induction wanted generalizing state ring with
  | zero =>
      exact safe true state ring ⟨rfl, rfl, rfl, rfl⟩
        (fun _ => steps.fill state ring holds refilling
          (.inl (progress.resolve_left (Nat.lt_irrefl 0)))) (by simp)
  | succ wanted ih =>
      unfold takeSources
      cases padding : state.inputPadding with
      | true =>
          rw [if_pos rfl]
          exact safe true state ring ⟨rfl, rfl, rfl, rfl⟩
            (fun _ => steps.fill state ring holds refilling (.inr (.inl padding))) (by simp)
      | false =>
          rw [if_neg (by simp), bind_assoc]
          refine Port.safe_take (pcm_lawful geometry) side.pcmReader
            ((steps.readySteady state).pcm _ holds) ?_ ?_
          · intro current moves empty
            have currentHolds := (steps.readySteady state).stable moves holds
            exact safe true state current ⟨rfl, rfl, rfl, rfl⟩
              (fun _ => steps.fill state current currentHolds refilling (.inr (.inr empty)))
              (by simp)
          · intro current slot rest moves unreadEq
            have currentHolds := (steps.readySteady state).stable moves holds
            have taken := steps.take state current slot rest currentHolds refilling padding
              (by omega) unreadEq
            have keeps := state.acceptSource_keeps geometry.gapCapacity slot
            have pending := state.acceptSource_inputPending geometry.gapCapacity slot
            have offsetEq := state.acceptSource_inputOffset geometry.gapCapacity slot
            dsimp only
            generalize state.acceptSource geometry.gapCapacity slot = accepted
              at taken keeps pending offsetEq
            obtain ⟨ok, after⟩ := accepted
            cases ok with
            | false => exact safe false after _ keeps (by simp) (fun _ => taken.2 rfl)
            | true =>
                refine ih (taken.1 rfl) (keeps.refilling refilling) (.inr ?_) (.inr ?_) ?_
                · rw [pending rfl]
                  exact Nat.succ_pos _
                · rw [pending rfl, offsetEq]
                  omega
                · intro ok last later lastKeeps
                  exact safe ok last later (keeps.trans lastKeeps)

omit [Widening F W] in
theorem safe_steer {next : ConsumerState F S W → RingProgram F S W β} (occupancy : Nat)
    {state : ConsumerState F S W} {ring : Ring F S W} (holds : outline.filled state ring)
    (refilling : state.Refilling)
    (safe : ∀ steered current, ConsumerState.Keeps state steered →
      outline.steered steered current →
      (next steered).Safe (exec geometry) rely guar post current) :
    (steer geometry occupancy state >>= next).Safe (exec geometry) rely guar post ring := by
  unfold steer
  split
  · rename_i streaming
    have finiteEq : state.finite = none := Option.isNone_iff_eq_none.mp streaming.2
    simp only [bind_assoc]
    refine safe_access.mpr fun first firstMoves =>
      ⟨side.permits _ _ (by simp [ConsumerPermits]) trivial, ?_⟩
    have firstHolds := (steps.filledSteady state).counter _ .filteredOccupancyMilli
      (smoothedOccupancy state.occupancyMilli occupancy)
      ((steps.filledSteady state).stable firstMoves holds) (by simp)
    refine safe_access.mpr fun second secondMoves => ⟨side.permits _ _ trivial trivial, ?_⟩
    have secondHolds := (steps.filledSteady state).correction _ (correctionPpm W geometry
      (steeredRatio W geometry (smoothedOccupancy state.occupancyMilli occupancy) state.ratio))
      ((steps.filledSteady state).stable secondMoves firstHolds)
    exact safe _ _ ⟨rfl, rfl, rfl, rfl⟩ (steps.steer state _ _ secondHolds refilling finiteEq)
  · split
    · rename_i unset
      exact safe _ _ ⟨rfl, rfl, rfl, rfl⟩ (steps.nominal state ring holds refilling unset)
    · rename_i set
      exact safe _ _ ⟨rfl, rfl, rfl, rfl⟩
        (steps.keep state ring holds refilling (Bool.eq_false_iff.mpr set))

omit [Widening F W] in
theorem safe_convertOutput {next : RefillResult × ConsumerState F S W → RingProgram F S W β}
    {state : ConsumerState F S W} {ring : Ring F S W} (holds : outline.filled state ring)
    (refilling : state.Refilling)
    (safe : ∀ result converted current, converted.finite = state.finite →
      outline.refilled result converted current →
      (next (result, converted)).Safe (exec geometry) rely guar post current) :
    (convertOutput adapter geometry (min geometry.capacity converterQuantum) state >>=
      next).Safe (exec geometry) rely guar post ring := by
  have queried := steps.query state ring holds refilling
  unfold convertOutput
  generalize adapter.converterQueuedInput state.converter = reply at queried
  obtain ⟨answer, converter⟩ := reply
  cases answer with
  | none => exact safe _ _ ring rfl (queried.2 rfl)
  | some queued =>
      simp only [bind_assoc]
      refine side.safe_available (steps.filledSteady _) (queried.1 rfl)
        fun early current _ _ _ currentHolds => ?_
      refine safe_steer side steps _ currentHolds refilling
        fun steered later keeps steeredHolds => ?_
      have converted := steps.convert steered later steeredHolds (keeps.refilling refilling)
      exact safe _ _ later
        ((steered.convert_cases adapter geometry _).keeps.1.trans keeps.finite_eq) converted

omit [Widening F W] in
theorem safe_refillOutput {next : RefillResult × ConsumerState F S W → RingProgram F S W β}
    {state : ConsumerState F S W} {ring : Ring F S W} (holds : outline.ready state ring)
    (safe : ∀ result refilled current, refilled.finite = state.finite →
      outline.refilled result refilled current →
      (next (result, refilled)).Safe (exec geometry) rely guar post current) :
    (refillOutput adapter geometry state >>= next).Safe (exec geometry) rely guar post ring := by
  unfold refillOutput
  cases failed : state.resetFailed with
  | true =>
      rw [if_pos rfl]
      exact safe _ _ ring rfl (steps.refused state ring holds failed)
  | false =>
      rw [if_neg (by simp)]
      by_cases cached : state.outputPending ≠ 0
      · rw [if_pos cached]
        exact safe _ _ ring rfl (steps.cached state ring holds failed cached)
      · rw [if_neg cached]
        have refilling : state.Refilling := ⟨failed, not_not.mp cached⟩
        have positive := ((steps.readySteady state).pcm _ holds).valid.positive
        have quantumPos : 0 < min geometry.capacity converterQuantum :=
          Nat.lt_min.mpr ⟨positive, by decide⟩
        simp only [bind_assoc]
        generalize wantedEq : desiredInput geometry (min geometry.capacity converterQuantum)
          state - state.inputPending = wanted
        have spaced := steps.space state ring wanted holds refilling
        have spacedKeeps := state.makeInputSpace_keeps wanted geometry.capacity
        have pendingEq : (state.makeInputSpace wanted geometry.capacity).inputPending =
            state.inputPending := by
          unfold ConsumerState.makeInputSpace
          split <;> rfl
        have progress : 0 < wanted ∨
            0 < (state.makeInputSpace wanted geometry.capacity).inputPending := by
          rw [pendingEq, ← wantedEq]
          unfold desiredInput
          split <;> omega
        have room : wanted = 0 ∨ (state.makeInputSpace wanted geometry.capacity).inputOffset +
            (state.makeInputSpace wanted geometry.capacity).inputPending + wanted ≤
              geometry.capacity := by
          refine state.makeInputSpace_room ?_
          rw [← wantedEq]
          unfold desiredInput
          split <;> omega
        refine safe_takeSources side steps wanted spaced (spacedKeeps.refilling refilling)
          progress room fun ok taken current keeps filled dropped => ?_
        have takenKeeps := spacedKeeps.trans keeps
        have takenRefilling := takenKeeps.refilling refilling
        cases ok with
        | false => exact safe _ _ current takenKeeps.finite_eq (dropped rfl)
        | true =>
            have padded := steps.pad taken current (filled rfl) takenRefilling
            have paddedKeeps := takenKeeps.trans (taken.padInput_keeps
              (min geometry.capacity converterQuantum))
            have paddedRefilling := paddedKeeps.refilling refilling
            dsimp only
            split
            · rename_i stalled
              have finiteEq : (taken.padInput
                  (min geometry.capacity converterQuantum)).finite = none := by
                by_contra pending
                have isSome : taken.finite.isSome = true := by
                  rw [← (taken.padInput_keeps _).finite_eq]
                  exact Option.isSome_iff_ne_none.mpr pending
                have empty := stalled.1
                unfold ConsumerState.padInput at empty
                split at empty
                · exact Nat.ne_of_gt quantumPos empty
                · rename_i full
                  exact full ⟨empty, isSome⟩
              exact safe _ _ current paddedKeeps.finite_eq
                (steps.stalled _ current padded paddedRefilling stalled.1 finiteEq stalled.2)
            · refine safe_convertOutput side steps padded paddedRefilling
                fun result converted later finiteEq refilledHolds => ?_
              exact safe _ _ later (finiteEq.trans paddedKeeps.finite_eq) refilledHolds

end Refill

/-- The states in which a refilled output may be emitted. -/
def Emits (result : RefillResult) (state : ConsumerState F S W) : Prop :=
  state.muteFault = false ∧
    (state.finite = none ∨ result = .ready ∧ state.finite.isSome ∧ ¬state.PastBoundary)

/-- Every phase of a render after its mailbox drain meets its outline; `awake`
holds until the render knows that it will convert. -/
structure RenderSteps (adapter : Adapter F W S) (geometry : Geometry)
    (rely : Ring F S W → Ring F S W → Prop) (guar : Access F S W → Ring F S W → Prop)
    (post : Rendered F → Ring F S W → Prop) (awake : ConsumerState F S W → Ring F S W → Prop)
    (outline : RefillOutline F S W) : Prop
    extends RefillSteps adapter geometry rely outline where
  awakeSteady : ∀ state, Steady geometry rely (awake state)
  start : ∀ state ring, awake state ring → state.muteFault = false →
    (state.primed = true ∨ state.resetFailed = true) → ¬state.Draining →
    outline.ready state ring
  again : ∀ state ring, outline.refilled .starved state ring → state.finite.isSome →
    outline.ready state ring
  wake : ∀ state ring, awake state ring → awake { state with quiet := false } ring
  prime : ∀ state ring, awake state ring → state.resetFailed = false →
    (∀ early, awake state early → rely early ring → state.finite = none →
      geometry.reserve ≤ (early.pcm.unread geometry.capacity).length →
      awake { state with primed := true } ring) ∧
    (state.finite.isSome → awake { state with primed := true } ring)
  fault : ∀ state ring, awake state ring → state.muteFault = true →
    (reportFault state).Safe (exec geometry) rely guar post ring
  refilledFault : ∀ result state ring, outline.refilled result state ring →
    state.muteFault = true → (state.finite = none ∨ result = .ready) →
    (reportFault state).Safe (exec geometry) rely guar post ring
  idle : ∀ state early ring, awake state early → rely early ring →
    state.muteFault = false → state.quiet = true → early.pcm.unread geometry.capacity = [] →
    (leave state (0, false, state.resetFailed)).Safe (exec geometry) rely guar post ring
  unprimed : ∀ state early ring, awake state early → rely early ring →
    state.muteFault = false → state.resetFailed = false → state.finite = none →
    (early.pcm.unread geometry.capacity).length < geometry.reserve →
    (leave state (0, false, false)).Safe (exec geometry) rely guar post ring
  drain : ∀ state boundary ring, awake state ring → state.muteFault = false →
    state.finite = some boundary → state.Draining →
    (drainFinite adapter geometry boundary state).Safe (exec geometry) rely guar post ring
  past : ∀ state boundary ring, outline.refilled .ready state ring →
    state.finite = some boundary → state.PastBoundary →
    (drainFinite adapter geometry boundary state).Safe (exec geometry) rely guar post ring
  fail : ∀ result state boundary ring, outline.refilled result state ring → result ≠ .ready →
    state.finite = some boundary →
    (completeFinite adapter geometry boundary true state).Safe (exec geometry) rely guar post
      ring
  emit : ∀ result state ring, outline.refilled result state ring → Emits result state →
    (emit geometry result state).Safe (exec geometry) rely guar post ring

section Render

variable {adapter : Adapter F W S} {geometry : Geometry} {resets : Prop}
  {shape : List (SourceSample F) → List SlotNote → Prop}
  {rely : Ring F S W → Ring F S W → Prop} {guar : Access F S W → Ring F S W → Prop}
  {awake : ConsumerState F S W → Ring F S W → Prop} {outline : RefillOutline F S W}
  {post : Rendered F → Ring F S W → Prop}
  (side : ConsumerSide geometry resets shape rely guar)
  (steps : RenderSteps adapter geometry rely guar post awake outline)

include side steps

theorem safe_refillTail {next : RefillResult × ConsumerState F S W → RingProgram F S W (Rendered F)}
    (limit : Nat) (result : RefillResult) {state : ConsumerState F S W} {boundary : Finite}
    {ring : Ring F S W} (finiteEq : state.finite = some boundary)
    (holds : outline.refilled result state ring)
    (safe : ∀ last tail current, tail.finite = some boundary →
      outline.refilled last tail current →
      (next (last, tail)).Safe (exec geometry) rely guar post current) :
    (refillTail adapter geometry limit result state >>= next).Safe (exec geometry) rely guar
      post ring := by
  induction limit generalizing result state ring with
  | zero => exact safe result state ring finiteEq holds
  | succ limit ih =>
      unfold refillTail
      split
      · rename_i starved
        subst starved
        rw [bind_assoc]
        refine safe_refillOutput side steps.toRefillSteps
          (steps.again state ring holds (by simp [finiteEq])) ?_
        intro later refilled current keptEq refilledHolds
        exact ih later (keptEq.trans finiteEq) refilledHolds
      · exact safe result state ring finiteEq holds

omit side in
theorem safe_renderTail {result : RefillResult} {state : ConsumerState F S W}
    {boundary : Finite} {ring : Ring F S W} (finiteEq : state.finite = some boundary)
    (holds : outline.refilled result state ring) :
    (renderTail adapter geometry boundary result state).Safe (exec geometry) rely guar post
      ring := by
  unfold renderTail
  split
  · rename_i stalled
    exact steps.fail result state boundary ring holds stalled finiteEq
  · rename_i ready
    obtain rfl : result = .ready := not_not.mp ready
    split
    · rename_i past
      exact steps.past state boundary ring holds finiteEq past
    · rename_i inside
      split
      · rename_i fault
        exact steps.refilledFault _ state ring holds fault (.inr rfl)
      · rename_i sound
        exact steps.emit _ state ring holds ⟨Bool.eq_false_iff.mpr sound,
          .inr ⟨rfl, by simp [finiteEq], inside⟩⟩

theorem safe_renderOutput {state : ConsumerState F S W} {ring : Ring F S W}
    (holds : outline.ready state ring) :
    (renderOutput adapter geometry state).Safe (exec geometry) rely guar post ring := by
  unfold renderOutput
  refine safe_refillOutput side steps.toRefillSteps holds ?_
  intro result refilled current _ refilledHolds
  dsimp only
  cases finiteEq : refilled.finite with
  | some boundary =>
      refine safe_refillTail side steps _ result finiteEq refilledHolds ?_
      intro last tail later tailEq tailHolds
      exact safe_renderTail steps tailEq tailHolds
  | none =>
      dsimp only
      split
      · rename_i fault
        exact steps.refilledFault _ _ current refilledHolds fault (.inl finiteEq)
      · rename_i sound
        exact steps.emit _ _ current refilledHolds
          ⟨Bool.eq_false_iff.mpr sound, .inl finiteEq⟩

theorem safe_renderPrimed {state : ConsumerState F S W} {ring : Ring F S W}
    (holds : awake state ring) (sound : state.muteFault = false)
    (runs : state.primed = true ∨ state.resetFailed = true) :
    (renderPrimed adapter geometry state).Safe (exec geometry) rely guar post ring := by
  have start := steps.start state ring holds sound runs
  unfold renderPrimed
  cases finiteEq : state.finite with
  | some boundary =>
      dsimp only
      split
      · rename_i draining
        exact steps.drain state boundary ring holds sound finiteEq draining
      · rename_i converting
        exact safe_renderOutput side steps (start converting)
  | none =>
      refine safe_renderOutput side steps (start ?_)
      rintro ⟨boundary, member, -⟩
      simp [finiteEq] at member

theorem safe_renderAwake {state : ConsumerState F S W} {ring : Ring F S W}
    (holds : awake state ring) (sound : state.muteFault = false) :
    (renderAwake adapter geometry state).Safe (exec geometry) rely guar post ring := by
  unfold renderAwake
  split
  · rename_i runs
    exact safe_renderPrimed side steps holds sound runs
  · rename_i unprimed
    have works : state.resetFailed = false :=
      Bool.eq_false_iff.mpr fun failed => unprimed (.inr failed)
    refine side.safe_available (steps.awakeSteady state) holds ?_
    intro early current _ moves earlyHolds currentHolds
    have primed := steps.prime state current currentHolds works
    split
    · rename_i waiting
      exact steps.unprimed state early current earlyHolds moves sound works
        (Option.isNone_iff_eq_none.mp waiting.2) waiting.1
    · rename_i enough
      refine safe_renderPrimed side steps ?_ sound (.inl rfl)
      by_cases streaming : state.finite = none
      · exact primed.1 early earlyHolds moves streaming
          (Nat.not_lt.mp fun short => enough ⟨short, by simp [streaming]⟩)
      · exact primed.2 (Option.isSome_iff_ne_none.mpr streaming)

theorem safe_renderReady {state : ConsumerState F S W} {ring : Ring F S W}
    (holds : awake state ring) :
    (renderReady adapter geometry state).Safe (exec geometry) rely guar post ring := by
  unfold renderReady
  split
  · rename_i fault
    exact steps.fault state ring holds fault
  · rename_i faultless
    have sound : state.muteFault = false := Bool.eq_false_iff.mpr faultless
    split
    · rename_i quiet
      refine side.safe_available (steps.awakeSteady state) holds ?_
      intro early current _ moves earlyHolds currentHolds
      split
      · rename_i empty
        exact steps.idle state early current earlyHolds moves sound quiet
          (List.length_eq_zero_iff.mp empty)
      · exact safe_renderAwake side steps (steps.wake state current currentHolds) sound
    · exact safe_renderAwake side steps holds sound

end Render

/-- Taking in the boundary and the mute records meets its outline; `draining`
is indexed by the pops still allowed. -/
structure DrainSteps (geometry : Geometry) (rely : Ring F S W → Ring F S W → Prop)
    (started : ConsumerState F S W → Ring F S W → Prop)
    (draining : Nat → ConsumerState F S W → Ring F S W → Prop)
    (drained : ConsumerState F S W → Ring F S W → Prop) : Prop where
  startedSteady : ∀ state, Steady geometry rely (started state)
  drainingSteady : ∀ limit state, Steady geometry rely (draining limit state)
  capture : ∀ state ring, started state ring → FinishPending ring.finish →
    state.finite = none →
    draining (maxSpans * 2) (state.capture ring.finish
      (ring.pcm.unread geometry.capacity).length) ring
  uncaptured : ∀ state ring, started state ring →
    (FinishPending ring.finish → state.finite.isSome) → draining (maxSpans * 2) state ring
  receive : ∀ limit state ring interval rest, draining (limit + 1) state ring →
    ring.mutes.unread mailboxQueue = interval :: rest →
    draining limit (state.receive interval) (popRecord geometry interval ring)
  emptied : ∀ limit state ring, draining limit state ring →
    ring.mutes.unread mailboxQueue = [] → drained state ring
  bounded : ∀ state ring, draining 0 state ring → drained state ring

section Start

variable {geometry : Geometry} {resets : Prop}
  {shape : List (SourceSample F) → List SlotNote → Prop}
  {rely : Ring F S W → Ring F S W → Prop} {guar : Access F S W → Ring F S W → Prop}
  {started : ConsumerState F S W → Ring F S W → Prop}
  {draining : Nat → ConsumerState F S W → Ring F S W → Prop}
  {drained : ConsumerState F S W → Ring F S W → Prop} {post : β → Ring F S W → Prop}
  (side : ConsumerSide geometry resets shape rely guar)
  (steps : DrainSteps geometry rely started draining drained)

include side steps

omit [Binary32 F] [Binary64 W] [Widening F W] in
theorem safe_drainMailbox {next : ConsumerState F S W → RingProgram F S W β} (limit : Nat)
    {state : ConsumerState F S W} {ring : Ring F S W} (holds : draining limit state ring)
    (safe : ∀ received current, drained received current →
      (next received).Safe (exec geometry) rely guar post current) :
    (drainMailbox limit state >>= next).Safe (exec geometry) rely guar post ring := by
  induction limit generalizing state ring with
  | zero => exact safe state ring (steps.bounded state ring holds)
  | succ limit ih =>
      unfold drainMailbox
      rw [bind_assoc]
      refine Port.safe_take (mute_lawful geometry) side.muteReader
        ((steps.drainingSteady _ state).mutes _ holds) ?_ ?_
      · intro current moves empty
        exact safe state current (steps.emptied _ state current
          ((steps.drainingSteady _ state).stable moves holds) empty)
      · intro current interval rest moves unreadEq
        exact ih (steps.receive limit state current interval rest
          ((steps.drainingSteady _ state).stable moves holds) unreadEq)

omit [Binary32 F] [Binary64 W] [Widening F W] in
theorem safe_captureBoundary {next : ConsumerState F S W → RingProgram F S W β}
    {state : ConsumerState F S W} {ring : Ring F S W} (holds : started state ring)
    (safe : ∀ captured current, draining (maxSpans * 2) captured current →
      (next captured).Safe (exec geometry) rely guar post current) :
    (captureBoundary geometry state >>= next).Safe (exec geometry) rely guar post ring := by
  unfold captureBoundary
  rw [bind_assoc]
  refine safe_answer (.loadFinish .render) (by simp [Access.IsLoad]) fun loaded moves =>
    ⟨side.permits _ _ (by simp [ConsumerPermits]) trivial, ?_⟩
  have loadedHolds := (steps.startedSteady state).stable moves holds
  change Program.Safe (exec geometry) rely guar post
    ((if FinishPending loaded.finish ∧ state.finite.isNone = true then _ else _) >>= next) loaded
  split
  · rename_i pending
    rw [bind_assoc]
    refine side.safe_available (steps.startedSteady state) loadedHolds ?_
    intro early current earlyMoves currentMoves earlyHolds currentHolds
    -- A pending boundary keeps the word and the readable slots as they are.
    have finishEq : early.finish = loaded.finish := (side.moves earlyMoves).finish pending.1
    have earlyPending : FinishPending early.finish := finishEq ▸ pending.1
    have finishEq' : current.finish = loaded.finish :=
      ((side.moves currentMoves).finish earlyPending).trans finishEq
    have captures := steps.capture state current currentHolds (finishEq' ▸ pending.1)
      (Option.isNone_iff_eq_none.mp pending.2)
    rw [(side.moves currentMoves).unread_fixed
      ((steps.startedSteady state).pcm _ earlyHolds) earlyPending, finishEq'] at captures
    exact safe _ current captures
  · rename_i settled
    refine safe state loaded (steps.uncaptured state loaded loadedHolds fun pending => ?_)
    by_contra absent
    exact settled ⟨pending, by simpa using absent⟩

end Start

section Whole

variable {adapter : Adapter F W S} {geometry : Geometry} {resets : Prop}
  {shape : List (SourceSample F) → List SlotNote → Prop}
  {rely : Ring F S W → Ring F S W → Prop} {guar : Access F S W → Ring F S W → Prop}
  {awake : ConsumerState F S W → Ring F S W → Prop} {outline : RefillOutline F S W}
  {post : Rendered F → Ring F S W → Prop}
  {started : ConsumerState F S W → Ring F S W → Prop}
  {draining : Nat → ConsumerState F S W → Ring F S W → Prop}

theorem safe_consumerRenderSample (side : ConsumerSide geometry resets shape rely guar)
    (drainSteps : DrainSteps geometry rely started draining awake)
    (renderSteps : RenderSteps adapter geometry rely guar post awake outline)
    {ring : Ring F S W}
    (holds : started ring.consumer ring) :
    (consumerRenderSample adapter geometry).Safe (exec geometry) rely guar post ring := by
  unfold consumerRenderSample
  refine safe_answer .enter trivial fun entered moves =>
    ⟨side.permits _ _ trivial trivial, ?_⟩
  have enteredHolds := (drainSteps.startedSteady _).stable moves holds
  rw [← (side.moves moves).consumer_eq] at enteredHolds
  refine safe_captureBoundary side drainSteps enteredHolds fun captured current captures => ?_
  refine safe_drainMailbox side drainSteps _ captures fun received later receives => ?_
  exact safe_renderReady side renderSteps receives

end Whole

end PcmRing
