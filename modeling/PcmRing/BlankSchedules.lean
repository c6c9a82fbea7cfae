import PcmRing.BlankConsumer

/-!
# Samples do not steer the ring

With a converter that only counts, two schedules that differ in their samples
credit, count, time and fault alike: nothing but PCM and what concealment derives
from it tells them apart.
-/

namespace PcmRing

open AtomicProgram TwoLapQueue

variable {F S T W α : Type} {erase : S → T}

/-- The same result beside a consumer without PCM. -/
def BlankPair (erase : S → T) (value : α × ConsumerState F S W)
    (image : α × ConsumerState Blank T W) : Prop :=
  image = value.map id (ConsumerState.blank erase)

/-- The same consumer without PCM. -/
def BlankState (erase : S → T) (value : ConsumerState F S W)
    (image : ConsumerState Blank T W) : Prop :=
  image = value.blank erase

/-- Outputs with the same fault. -/
def SameFault (value : Rendered F) (image : Rendered Blank) : Prop :=
  image.2.2 = value.2.2

section Refilling

variable (geometry : Geometry)

theorem takeSources_blank (wanted : Nat) (state : ConsumerState F S W) :
    Blanks geometry erase (BlankPair erase) (takeSources geometry wanted state)
      (takeSources geometry wanted (state.blank erase)) := by
  induction wanted generalizing state with
  | zero => exact .done rfl
  | succ wanted ih =>
      apply Program.Mirrors.ite Iff.rfl
      · exact fun _ => .done rfl
      intro _
      refine (pcmPort_blank.take geometry.capacity).bind ?_
      rintro slot _ rfl
      cases slot with
      | none => exact .done rfl
      | some sample =>
          have accepted := state.acceptSource_blank erase geometry.gapCapacity sample
          dsimp only [Option.map]
          rw [accepted]
          generalize state.acceptSource geometry.gapCapacity sample = accepting
          obtain ⟨passed, after⟩ := accepting
          cases passed with
          | false => exact .done rfl
          | true => exact ih after

variable [Binary64 W]

theorem steer_blank (occupancy : Nat) (state : ConsumerState F S W) :
    Blanks geometry erase (BlankState erase) (steer geometry occupancy state)
      (steer geometry occupancy (state.blank erase)) := by
  apply Program.Mirrors.ite Iff.rfl
  · intro _
    refine (access_blank (.storeCounter .filteredOccupancyMilli _)).bind fun _ _ _ => ?_
    exact (access_blank (.storeRatioCorrection _)).bind fun _ _ _ => .done rfl
  intro _
  apply Program.Mirrors.ite Iff.rfl
  · exact fun _ => .done rfl
  · exact fun _ => .done rfl

variable {adapter : Adapter F W S} {bare : Adapter Blank W T} (forgets : adapter.Forgets bare erase)

include forgets

theorem convertOutput_blank (quantum : Nat) (state : ConsumerState F S W) :
    Blanks geometry erase (BlankPair erase) (convertOutput adapter geometry quantum state)
      (convertOutput bare geometry quantum (state.blank erase)) := by
  have asked : bare.converterQueuedInput (state.blank erase).converter = _ :=
    forgets.queuedInput state.converter
  unfold convertOutput
  rw [asked]
  generalize adapter.converterQueuedInput state.converter = answer
  obtain ⟨queued, converter⟩ := answer
  cases queued with
  | none => exact .done rfl
  | some queued =>
      refine (available_blank geometry).bind ?_
      rintro _ readable rfl
      refine (steer_blank geometry _ { state with converter := converter }).bind ?_
      rintro steered _ rfl
      exact .done (steered.convert_blank forgets geometry quantum)

theorem refillOutput_blank [Zero F] (state : ConsumerState F S W) :
    Blanks geometry erase (BlankPair erase) (refillOutput adapter geometry state)
      (refillOutput bare geometry (state.blank erase)) := by
  apply Program.Mirrors.ite Iff.rfl
  · exact fun _ => .done rfl
  intro _
  apply Program.Mirrors.ite Iff.rfl
  · exact fun _ => .done rfl
  intro _
  have spaced := state.makeInputSpace_blank erase
    (desiredInput geometry (min geometry.capacity converterQuantum) state - state.inputPending)
    geometry.capacity
  have taken : Blanks geometry erase (BlankPair erase) _ _ := takeSources_blank geometry
    (desiredInput geometry (min geometry.capacity converterQuantum) state - state.inputPending)
    (state.makeInputSpace (desiredInput geometry (min geometry.capacity converterQuantum) state -
      state.inputPending) geometry.capacity)
  rw [← spaced] at taken
  refine taken.bind ?_
  rintro ⟨passed, after⟩ _ rfl
  cases passed with
  | false => exact .done rfl
  | true =>
      have padded := after.padInput_blank erase (min geometry.capacity converterQuantum)
      dsimp only [Prod.map, id]
      rw [padded]
      apply Program.Mirrors.ite Iff.rfl
      · exact fun _ => .done rfl
      · exact fun _ => convertOutput_blank geometry forgets _ _

theorem refillTail_blank [Binary32 F] (limit : Nat) (result : RefillResult)
    (state : ConsumerState F S W) : Blanks geometry erase (BlankPair erase)
      (refillTail adapter geometry limit result state)
      (refillTail bare geometry limit result (state.blank erase)) := by
  induction limit generalizing result state with
  | zero => exact .done rfl
  | succ limit ih =>
      apply Program.Mirrors.ite Iff.rfl
      · intro _
        refine (refillOutput_blank geometry forgets state).bind ?_
        rintro ⟨refilled, after⟩ _ rfl
        exact ih refilled after
      · exact fun _ => .done rfl

end Refilling

section Rendering

variable [Binary32 F] (geometry : Geometry)

omit [Binary32 F] in
theorem leave_blank (state : ConsumerState F S W) {rendered : Rendered F}
    {image : Rendered Blank} (same : SameFault rendered image) :
    Blanks geometry erase SameFault (leave state rendered) (leave (state.blank erase) image) := by
  have left : Blanks geometry erase _ (access (.leave state rendered.2.2)) _ := access_blank _
  unfold leave
  rw [same]
  exact left.bind fun _ _ _ => .done same

omit [Binary32 F] in
theorem averageShortfall_blank [Binary64 W] (consecutive : Nat) : Blanks geometry erase Same
    (averageShortfall geometry consecutive : RingProgram F S W Unit)
    (averageShortfall geometry consecutive) := by
  refine (access_blank (.loadCounter .shortfallAverageMicro)).bind ?_
  rintro _ (average : Nat) rfl
  exact access_blank (.storeCounter .shortfallAverageMicro _)

omit [Binary32 F] in
theorem recordShortfall_blank [Binary64 W] (missing : Bool) : Blanks geometry erase Same
    (recordShortfall geometry missing : RingProgram F S W Unit)
    (recordShortfall geometry missing) := by
  apply Program.Mirrors.ite Iff.rfl
  · intro _
    refine (saturatingAddCounter_blank geometry .missing 1).bind fun _ _ _ => ?_
    refine (saturatingAddCounter_blank geometry .consecutiveShortfall 1).bind ?_
    rintro _ consecutive rfl
    exact averageShortfall_blank geometry consecutive
  · intro _
    refine (access_blank (.storeCounter .consecutiveShortfall 0)).bind fun _ _ _ => ?_
    exact averageShortfall_blank geometry 0

theorem reportFault_blank (state : ConsumerState F S W) : Blanks geometry erase SameFault
    (reportFault state) (reportFault (state.blank erase)) := by
  refine (saturatingAddCounter_blank geometry .adapterErrorCount 1).bind fun _ _ _ => ?_
  exact leave_blank geometry state rfl

omit [Binary32 F] in
theorem discardBurst_blank : Blanks geometry erase Same
    (discardBurst : RingProgram F S W Unit) discardBurst := by
  refine pcmPort_blank.discard.bind fun _ _ _ => ?_
  refine mutePort_blank.discard.bind fun _ _ _ => ?_
  exact (saturatingAddCounter_blank geometry .adapterErrorCount 1).bind fun _ _ _ => .done rfl

omit [Binary32 F] in
theorem countFailure_blank (failed : Bool) : Blanks geometry erase Same
    (countFailure failed : RingProgram F S W Unit) (countFailure failed) := by
  apply Program.Mirrors.ite Iff.rfl
  · intro _
    exact (saturatingAddCounter_blank geometry .adapterErrorCount 1).bind fun _ _ _ => .done rfl
  · exact fun _ => .done rfl

variable [Binary64 W] {adapter : Adapter F W S} {bare : Adapter Blank W T}
  (forgets : adapter.Forgets bare erase)

section Draining

include forgets

theorem completeFinite_blank (boundary : Finite) (failed : Bool) (state : ConsumerState F S W) :
    Blanks geometry erase SameFault (completeFinite adapter geometry boundary failed state)
      (completeFinite bare geometry boundary failed (state.blank erase)) := by
  have reset : (state.blank erase).reset bare = _ := state.reset_blank forgets
  unfold completeFinite
  rw [reset]
  generalize state.reset adapter = result
  obtain ⟨succeeded, after⟩ := result
  refine (access_blank (.retire state)).bind fun _ _ _ => ?_
  refine (access_blank .fetchAddResetSerial).bind fun _ _ _ => ?_
  refine (recordShortfall_blank geometry false).bind fun _ _ _ => ?_
  apply Program.Mirrors.ite Iff.rfl
  · intro _
    refine (discardBurst_blank geometry).bind fun _ _ _ => ?_
    refine (access_blank (.storeFinish _)).bind fun _ _ _ => ?_
    exact leave_blank geometry { after with quiet := true } rfl
  · intro _
    refine (access_blank (.storeFinish _)).bind fun _ _ _ => ?_
    exact leave_blank geometry { after with quiet := true } rfl

theorem drainFinite_blank (boundary : Finite) (state : ConsumerState F S W) :
    Blanks geometry erase SameFault (drainFinite adapter geometry boundary state)
      (drainFinite bare geometry boundary (state.blank erase)) := by
  apply Program.Mirrors.ite Iff.rfl
  · intro _
    have drained := state.drainLookahead_blank erase geometry.lookahead boundary
    refine (access_blank .release).bind fun _ _ _ => ?_
    refine (access_blank (.lookup state.muteHistory _)).bind ?_
    rintro _ (silenced : Bool) rfl
    rw [drained]
    exact leave_blank geometry ((state.drainLookahead geometry.lookahead boundary).2.retirePosition
      (state.plcPositions state.plcPosition)) rfl
  · intro _
    exact completeFinite_blank geometry forgets { boundary with plcRemaining := some 0 } false
      { state with finite := some { boundary with plcRemaining := some 0 } }

end Draining

variable [Widening F W]

/-- Where the program of an output stands afterwards, without its PCM. -/
def BlankOutput (erase : S → T) (value : (F × Bool) × ConsumerState F S W)
    (image : (Blank × Bool) × ConsumerState Blank T W) : Prop :=
  image.2 = value.2.blank erase

theorem emitOutput_blank (input : Option F) (state : ConsumerState F S W) :
    Blanks geometry erase (BlankOutput erase) (emitOutput input state)
      (emitOutput (blankInput input) (state.blank erase)) := by
  apply Program.Mirrors.ite Iff.rfl
  · exact fun _ => .done rfl
  · intro _
    refine (access_blank (.feed input)).bind fun _ _ _ => ?_
    exact .done (state.concealed_blank erase input)

theorem emit_blank (result : RefillResult) (state : ConsumerState F S W) :
    Blanks geometry erase SameFault (emit geometry result state)
      (emit geometry result (state.blank erase)) := by
  have cached := state.popped_blank erase result
  unfold emit
  rw [cached]
  generalize state.popped result = popping
  obtain ⟨sample, after⟩ := popping
  refine (access_blank (.lookup state.muteHistory _)).bind ?_
  rintro _ (muted : Bool) rfl
  have inputEq : (if muted then some 0 else (blankInput sample : Option Blank)) =
      blankInput (if muted then some 0 else sample) := by
    cases muted <;> rfl
  have countEq : (blankInput (if muted then some 0 else sample)).isNone =
      (if muted then some 0 else sample).isNone := Option.isNone_map
  dsimp only [Access.blankResponse, Prod.map, id]
  rw [inputEq, countEq]
  refine (recordShortfall_blank geometry _).bind fun _ _ _ => ?_
  refine (countFailure_blank geometry _).bind fun _ _ _ => ?_
  refine (emitOutput_blank geometry _ after).bind ?_
  rintro ⟨output, emitted⟩ ⟨output', _⟩ rfl
  have delayed := emitted.delayPosition_blank erase geometry.lookahead
    (if result = .ready then state.cachePosition else none)
  dsimp only
  rw [show (if result = .ready then (state.blank erase).cachePosition else none) =
    (if result = .ready then state.cachePosition else none) from rfl, delayed]
  generalize emitted.delayPosition geometry.lookahead _ = delaying
  obtain ⟨position, last⟩ := delaying
  refine (access_blank (.lookup state.muteHistory position)).bind ?_
  rintro _ (silenced : Bool) rfl
  exact leave_blank geometry (last.retirePosition position) rfl

section Rendered

include forgets

theorem renderTail_blank (boundary : Finite) (result : RefillResult)
    (state : ConsumerState F S W) : Blanks geometry erase SameFault
      (renderTail adapter geometry boundary result state)
      (renderTail bare geometry boundary result (state.blank erase)) := by
  apply Program.Mirrors.ite Iff.rfl
  · exact fun _ => completeFinite_blank geometry forgets boundary true state
  intro _
  apply Program.Mirrors.ite (state.pastBoundary_blank erase)
  · exact fun _ => drainFinite_blank geometry forgets boundary state
  intro _
  apply Program.Mirrors.ite Iff.rfl
  · exact fun _ => reportFault_blank geometry state
  · exact fun _ => emit_blank geometry result state

theorem renderOutput_blank (state : ConsumerState F S W) : Blanks geometry erase SameFault
    (renderOutput adapter geometry state) (renderOutput bare geometry (state.blank erase)) := by
  refine (refillOutput_blank geometry forgets state).bind ?_
  rintro ⟨refilled, after⟩ _ rfl
  cases found : after.finite with
  | some boundary =>
      have found' : (after.blank erase).finite = some boundary := found
      dsimp only [Prod.map, id]
      rw [found']
      refine (refillTail_blank geometry forgets _ refilled after).bind ?_
      rintro ⟨result, last⟩ _ rfl
      exact renderTail_blank geometry forgets boundary result last
  | none =>
      have found' : (after.blank erase).finite = none := found
      dsimp only [Prod.map, id]
      rw [found']
      apply Program.Mirrors.ite Iff.rfl
      · exact fun _ => reportFault_blank geometry after
      · exact fun _ => emit_blank geometry refilled after

theorem renderPrimed_blank (state : ConsumerState F S W) : Blanks geometry erase SameFault
    (renderPrimed adapter geometry state) (renderPrimed bare geometry (state.blank erase)) := by
  unfold renderPrimed
  cases found : state.finite with
  | some boundary =>
      have found' : (state.blank erase).finite = some boundary := found
      rw [found']
      apply Program.Mirrors.ite (state.draining_blank erase)
      · exact fun _ => drainFinite_blank geometry forgets boundary state
      · exact fun _ => renderOutput_blank geometry forgets state
  | none =>
      have found' : (state.blank erase).finite = none := found
      rw [found']
      exact renderOutput_blank geometry forgets state

theorem renderAwake_blank (state : ConsumerState F S W) : Blanks geometry erase SameFault
    (renderAwake adapter geometry state) (renderAwake bare geometry (state.blank erase)) := by
  apply Program.Mirrors.ite Iff.rfl
  · exact fun _ => renderPrimed_blank geometry forgets state
  intro _
  refine (available_blank geometry).bind ?_
  rintro _ readable rfl
  apply Program.Mirrors.ite Iff.rfl
  · exact fun _ => leave_blank geometry state rfl
  · exact fun _ => renderPrimed_blank geometry forgets { state with primed := true }

theorem renderReady_blank (state : ConsumerState F S W) : Blanks geometry erase SameFault
    (renderReady adapter geometry state) (renderReady bare geometry (state.blank erase)) := by
  apply Program.Mirrors.ite Iff.rfl
  · exact fun _ => reportFault_blank geometry state
  intro _
  apply Program.Mirrors.ite Iff.rfl
  · intro _
    refine (available_blank geometry).bind ?_
    rintro _ readable rfl
    apply Program.Mirrors.ite Iff.rfl
    · exact fun _ => leave_blank geometry state rfl
    · exact fun _ => renderAwake_blank geometry forgets { state with quiet := false }
  · exact fun _ => renderAwake_blank geometry forgets state

end Rendered

end Rendering

section Calls

variable (geometry : Geometry)

theorem drainMailbox_blank (limit : Nat) (state : ConsumerState F S W) :
    Blanks geometry erase (BlankState erase) (drainMailbox limit state)
      (drainMailbox limit (state.blank erase)) := by
  induction limit generalizing state with
  | zero => exact .done rfl
  | succ limit ih =>
      refine (mutePort_blank.take mailboxQueue).bind ?_
      rintro popped _ rfl
      cases popped with
      | none => exact .done rfl
      | some interval => exact ih (state.receive interval)

theorem captureBoundary_blank (state : ConsumerState F S W) :
    Blanks geometry erase (BlankState erase) (captureBoundary geometry state)
      (captureBoundary geometry (state.blank erase)) := by
  refine (access_blank (.loadFinish .render)).bind ?_
  rintro _ (finish : Nat) rfl
  apply Program.Mirrors.ite Iff.rfl
  · intro _
    refine (available_blank geometry).bind ?_
    rintro _ readable rfl
    exact .done rfl
  · exact fun _ => .done rfl

theorem cancelFinish_blank : Blanks geometry erase Same
    (cancelFinish : RingProgram F S W Unit) cancelFinish := by
  refine (access_blank (.loadFinish .reset)).bind ?_
  rintro _ (finish : Nat) rfl
  apply Program.Mirrors.ite Iff.rfl
  · exact fun _ => access_blank (.storeFinish _)
  · exact fun _ => .done rfl

variable [Binary32 F] [Binary64 W] {adapter : Adapter F W S} {bare : Adapter Blank W T}
  (forgets : adapter.Forgets bare erase)

include forgets

theorem consumerReset_blank : Blanks geometry erase Same
    (consumerReset adapter : RingProgram F S W Bool) (consumerReset bare) := by
  refine pcmPort_blank.discard.bind fun _ _ _ => ?_
  refine (access_blank .enter).bind ?_
  rintro (state : ConsumerState F S W) _ rfl
  refine mutePort_blank.discard.bind fun _ _ _ => ?_
  refine (access_blank .fetchAddResetSerial).bind fun _ _ _ => ?_
  refine (cancelFinish_blank geometry).bind fun _ _ _ => ?_
  have reset : (state.blank erase).reset bare = _ := state.reset_blank forgets
  dsimp only [Access.blankResponse]
  rw [reset]
  refine (access_blank (.leave (state.reset adapter).2 false)).bind fun _ _ _ => ?_
  exact .done rfl

variable [Widening F W]

theorem consumerRenderSample_blank : Blanks geometry erase SameFault
    (consumerRenderSample adapter geometry : RingProgram F S W (Rendered F))
    (consumerRenderSample bare geometry) := by
  refine (access_blank .enter).bind ?_
  rintro (state : ConsumerState F S W) _ rfl
  refine (captureBoundary_blank geometry state).bind ?_
  rintro captured _ rfl
  refine (drainMailbox_blank geometry _ captured).bind ?_
  rintro informed _ rfl
  exact renderReady_blank geometry forgets informed

end Calls

/-- What a consumer call reports beside PCM: its fault flag, or its success. -/
def ConsumerResult.verdict : ConsumerResult F → ConsumerCall × Bool
  | rendered output => (.render, output.2.2)
  | reset succeeded => (.reset, succeeded)

/-- A call of either endpoint without its samples. -/
def Party.blank : (party : Party) → party.Call F → party.Call Blank
  | producer, call => call.blank
  | consumer, call => call

/-- Both calls report the same. -/
def Party.Alike : (party : Party) → party.Call F → party.Ret F → party.Ret Blank → Prop
  | producer, _, result, image => image = result
  | consumer, _, result, image => image.verdict = result.verdict

/-- Two configurations that nothing but PCM tells apart. -/
structure Unsteered (erase : S → T) (one two : RingConfig F S W) : Prop where
  memory : one.memory.blank erase = two.memory.blank erase
  exits : ∀ party, (one.returned party).map (fun record => record.exit.blank erase) =
    (two.returned party).map fun record => record.exit.blank erase
  answers : (one.returned .producer).map Returned.result =
    (two.returned .producer).map Returned.result
  verdicts : (one.returned .consumer).map (fun record => record.result.verdict) =
    (two.returned .consumer).map fun record => record.result.verdict

section System

variable [Binary32 F] [Binary64 W] {adapter : Adapter F W S} {bare : Adapter Blank W T}
  (forgets : adapter.Forgets bare erase)

/-- Configurations with and without PCM. -/
abbrev BlankConfig (geometry : Geometry) (erase : S → T) :
    RingConfig F S W → RingConfig Blank T W → Prop :=
  Config.Mirrors (blankMirror erase geometry) Party.blank Party.Alike

omit [Binary32 F] [Binary64 W] in
private theorem sights_eq {geometry : Geometry} {party : Party} {α : Type}
    {config : RingConfig F S W} {image : RingConfig Blank T W}
    (same : BlankConfig geometry erase config image)
    {sight : Returned (Ring F S W) (party.Call F) (party.Ret F) → α}
    {sight' : Returned (Ring Blank T W) (party.Call Blank) (party.Ret Blank) → α}
    (agree : ∀ record record', Returned.Mirrors (blankMirror erase geometry) Party.blank
      Party.Alike party record record' → sight record = sight' record') :
    (config.returned party).map sight = (image.returned party).map sight' := by
  have listed := same.returned party
  generalize config.returned party = records at listed
  generalize image.returned party = records' at listed
  induction listed with
  | nil => rfl
  | cons first _ ih => exact congrArg₂ List.cons (agree _ _ first) ih

omit [Binary32 F] [Binary64 W] in
theorem BlankConfig.unsteered {geometry : Geometry} {one two : RingConfig F S W}
    {image : RingConfig Blank T W} (first : BlankConfig geometry erase one image)
    (second : BlankConfig geometry erase two image) : Unsteered erase one two where
  memory := first.memory_eq.symm.trans second.memory_eq
  exits party := by
    have sees : ∀ {config : RingConfig F S W}, BlankConfig geometry erase config image →
        (config.returned party).map (fun record => record.exit.blank erase) =
          (image.returned party).map Returned.exit := fun same =>
      sights_eq same fun _ _ returned => returned.exit_eq.symm
    exact (sees first).trans (sees second).symm
  answers := by
    have sees : ∀ {config : RingConfig F S W}, BlankConfig geometry erase config image →
        (config.returned .producer).map Returned.result =
          (image.returned .producer).map Returned.result := fun same =>
      sights_eq same fun _ _ returned => Eq.symm returned.result
    exact (sees first).trans (sees second).symm
  verdicts := by
    have sees : ∀ {config : RingConfig F S W}, BlankConfig geometry erase config image →
        (config.returned .consumer).map (fun record => record.result.verdict) =
          (image.returned .consumer).map fun record => record.result.verdict := fun same =>
      sights_eq same fun _ _ returned => Eq.symm returned.result
    exact (sees first).trans (sees second).symm

include forgets

variable [Widening F W]

/-- Every call performs the accesses that it performs without its samples. -/
theorem body_blank (geometry : Geometry) (party : Party) (call : party.Call F) :
    Blanks geometry erase (Party.Alike party call) (body adapter geometry party call)
      (body bare geometry party (Party.blank party call)) := by
  cases party with
  | producer => exact producerBody_blank geometry call
  | consumer =>
      cases call with
      | render =>
          refine (consumerRenderSample_blank geometry forgets).bind ?_
          intro output image same
          exact .done (congrArg (Prod.mk ConsumerCall.render) same)
      | reset =>
          refine (consumerReset_blank geometry forgets).bind ?_
          rintro _ succeeded rfl
          exact .done rfl

/-- Schedules that differ in their samples only: both can be carried out or neither,
and every counter, credit, token, cursor, boundary and fault is the same. -/
theorem schedules_unsteered (settings : Settings) {first second : List (Choice (Party.Call F))}
    (alike : first.map (Choice.lower Party.blank) = second.map (Choice.lower Party.blank)) :
    Option.Rel (fun one two => one.1 = two.1 ∧ Unsteered erase one.2 two.2)
      (playRing adapter settings first) (playRing adapter settings second) := by
  unfold playRing
  cases Ring.create adapter settings with
  | error error => exact .none
  | ok created =>
      obtain ⟨geometry, ring⟩ := created
      have one := Config.Mirrors.playAll (body_blank forgets geometry) first
        (Config.Mirrors.start ring)
      have two := Config.Mirrors.playAll (body_blank forgets geometry) second
        (Config.Mirrors.start ring)
      rw [← alike] at two
      dsimp only
      revert one two
      generalize playAll (body adapter geometry) _ first _ = last
      generalize playAll (body adapter geometry) _ second _ = last'
      generalize playAll (body bare geometry) _ _ _ = image
      intro one two
      cases one with
      | none =>
          cases two
          exact .none
      | some same =>
          cases two with
          | some same' => exact .some ⟨rfl, BlankConfig.unsteered same same'⟩

end System

/-- Two samples that the converter remembers, and that render differently. -/
theorem schedules_unsteered_of_two_samples :
    let schedule (sample : ℚ) : List (Choice (Party.Call ℚ)) :=
      uninterrupted .producer (.push [sample]) ++ uninterrupted .consumer .render
    let play (sample : ℚ) := playRing (unitConverter (F := ℚ) (W := ℚ)).recording smallSettings
      (schedule sample)
    Option.Rel (fun one two => one.1 = two.1 ∧ Unsteered Prod.fst one.2 two.2)
        (play (1 / 2)) (play (1 / 4)) ∧
      (play (1 / 2)).any (fun played => played.2.memory.consumer.converter.2 = [1 / 2]) = true ∧
      (play (1 / 4)).any (fun played => played.2.memory.consumer.converter.2 = [1 / 4]) = true :=
  ⟨schedules_unsteered Adapter.recording_forgets smallSettings rfl, by decide +kernel,
    by decide +kernel⟩

end PcmRing
