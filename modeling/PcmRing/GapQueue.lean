import PcmRing.ConverterContent

/-!
# The gap queue

The spans of missing slots that the converter has not passed are disjoint and
never touch.  A bound on the reported delay bounds how far behind the newest
slot they can lie, so the reserved queue never fills.
-/

namespace PcmRing

open AtomicProgram TwoLapQueue

variable {F S W : Type}

/-- Nonempty spans in order, with a received slot between any two, that end by
`taken`. -/
structure GapsOrdered (taken : Nat) (gaps : List GapSpan) : Prop where
  each : ∀ span ∈ gaps, span.start < span.stop ∧ span.stop ≤ taken
  apart : gaps.Pairwise fun first second => first.stop < second.start

namespace GapsOrdered

variable {taken : Nat} {gaps : List GapSpan}

theorem nil : GapsOrdered taken [] :=
  ⟨fun _ member => (List.not_mem_nil member).elim, .nil⟩

theorem mono {more : Nat} (ordered : GapsOrdered taken gaps) (le : taken ≤ more) :
    GapsOrdered more gaps :=
  ⟨fun span member => ⟨(ordered.each span member).1, (ordered.each span member).2.trans le⟩,
    ordered.apart⟩

theorem sublist {fewer : List GapSpan} (ordered : GapsOrdered taken gaps)
    (inside : fewer.Sublist gaps) : GapsOrdered taken fewer :=
  ⟨fun span member => ordered.each span (inside.subset member), ordered.apart.sublist inside⟩

/-- Each span takes up its slots and the one behind it. -/
theorem length_le {low : Nat} (ordered : GapsOrdered taken gaps)
    (behind : ∀ span ∈ gaps, low < span.stop) (some : gaps ≠ []) :
    2 * gaps.length + low ≤ taken + 1 := by
  induction gaps generalizing low with
  | nil => exact (some rfl).elim
  | cons span rest ih =>
      have first := ordered.each span List.mem_cons_self
      have above := behind span List.mem_cons_self
      rw [List.length_cons]
      by_cases last : rest = []
      · subst last
        rw [List.length_nil]
        omega
      · have next : 2 * rest.length + (span.stop + 1) ≤ taken + 1 := by
          refine ih (ordered.sublist (List.sublist_cons_self _ _)) (fun later member => ?_) last
          have start := (List.pairwise_cons.mp ordered.apart).1 later member
          have nonempty := (ordered.each later (List.mem_cons_of_mem _ member)).1
          omega
        omega

/-- One more missing slot lengthens the last span or starts a new one. -/
theorem extend {gapCapacity : Nat} {extended : List GapSpan} (ordered : GapsOrdered taken gaps)
    (extendedEq : ConsumerState.extendGaps gapCapacity taken gaps = some extended) :
    GapsOrdered (taken + 1) extended := by
  have appended (apart : ∀ span ∈ gaps, span.stop ≠ taken) :
      GapsOrdered (taken + 1) (gaps ++ [⟨taken, taken + 1⟩]) := by
    refine ⟨fun span member => ?_, List.pairwise_append.mpr
      ⟨ordered.apart, List.pairwise_singleton _ _, fun span member last lastMember => ?_⟩⟩
    · rcases List.mem_append.mp member with earlier | last
      · exact ⟨(ordered.each span earlier).1, (ordered.each span earlier).2.trans (Nat.le_succ _)⟩
      · rw [List.mem_singleton.mp last]
        exact ⟨Nat.lt_succ_self _, Nat.le_refl _⟩
    · rw [List.mem_singleton.mp lastMember]
      exact Nat.lt_of_le_of_ne (ordered.each span member).2 (apart span member)
  unfold ConsumerState.extendGaps at extendedEq
  cases lastEq : gaps.getLast? with
  | none =>
      rw [lastEq] at extendedEq
      have empty := List.getLast?_eq_none_iff.mp lastEq
      dsimp only at extendedEq
      split at extendedEq
      · cases extendedEq
      · cases extendedEq
        exact appended fun span member => by rw [empty] at member; cases member
  | some last =>
      obtain ⟨front, rfl⟩ := List.getLast?_eq_some_iff.mp lastEq
      rw [lastEq] at extendedEq
      dsimp only at extendedEq
      obtain ⟨frontApart, -, beforeLast⟩ := List.pairwise_append.mp ordered.apart
      have lastSpan := ordered.each last (by simp)
      split at extendedEq
      · rename_i touches
        cases extendedEq
        rw [List.dropLast_concat]
        refine ⟨fun span member => ?_, List.pairwise_append.mpr
          ⟨frontApart, List.pairwise_singleton _ _, fun span member other otherMember => ?_⟩⟩
        · rcases List.mem_append.mp member with earlier | same
          · have bounds := ordered.each span (List.mem_append_left _ earlier)
            exact ⟨bounds.1, bounds.2.trans (Nat.le_succ _)⟩
          · rw [List.mem_singleton.mp same, touches]
            exact ⟨(touches ▸ lastSpan.1).trans (Nat.lt_succ_self _), Nat.le_refl _⟩
        · rw [List.mem_singleton.mp otherMember]
          exact beforeLast span member last (List.mem_singleton_self _)
      · rename_i detached
        split at extendedEq
        · cases extendedEq
        · cases extendedEq
          refine appended fun span member same => ?_
          rcases List.mem_append.mp member with earlier | atLast
          · have before := beforeLast span earlier last (List.mem_singleton_self _)
            omega
          · exact detached (List.mem_singleton.mp atLast ▸ same)

/-- The spans that are not passed all end behind the position. -/
theorem unpassed (ordered : GapsOrdered taken gaps) (position : Nat) :
    ∀ span ∈ gaps.dropWhile (fun span => span.stop ≤ position), position < span.stop := by
  induction gaps with
  | nil => exact fun span member => (List.not_mem_nil member).elim
  | cons first rest ih =>
      rw [List.dropWhile_cons]
      split
      · exact ih (ordered.sublist (List.sublist_cons_self _ _))
      · rename_i kept
        have behind : position < first.stop := by simpa using kept
        intro span member
        rcases List.mem_cons.mp member with rfl | later
        · exact behind
        · have start := (List.pairwise_cons.mp ordered.apart).1 span later
          have nonempty := (ordered.each span (List.mem_cons_of_mem _ later)).1
          omega

end GapsOrdered

theorem extendGaps_mem {gapCapacity taken : Nat} {gaps extended : List GapSpan}
    (extendedEq : ConsumerState.extendGaps gapCapacity taken gaps = some extended)
    {span : GapSpan} (member : span ∈ extended) : span ∈ gaps ∨ span.stop = taken + 1 := by
  unfold ConsumerState.extendGaps at extendedEq
  split at extendedEq
  · rename_i last lastEq
    split at extendedEq
    · rename_i touches
      cases extendedEq
      rcases List.mem_append.mp member with earlier | grown
      · exact .inl (List.dropLast_subset _ earlier)
      · rw [List.mem_singleton.mp grown]
        exact .inr (congrArg (· + 1) touches)
    · split at extendedEq
      · cases extendedEq
      · cases extendedEq
        rcases List.mem_append.mp member with earlier | added
        · exact .inl earlier
        · rw [List.mem_singleton.mp added]
          exact .inr rfl
  · split at extendedEq
    · cases extendedEq
    · cases extendedEq
      rcases List.mem_append.mp member with earlier | added
      · exact .inl earlier
      · rw [List.mem_singleton.mp added]
        exact .inr rfl

/-- The queue refuses a span only when it is full. -/
theorem extendGaps_none {gapCapacity taken : Nat} {gaps : List GapSpan}
    (full : ConsumerState.extendGaps gapCapacity taken gaps = none) :
    gaps.length = gapCapacity := by
  unfold ConsumerState.extendGaps at full
  split at full
  · split at full
    · cases full
    · split at full
      · assumption
      · cases full
  · split at full
    · assumption
    · cases full

/-- One conversion accepted `used` samples, and unless it accepted none every
span left ends within the reported delay of where it began. -/
structure Sifts (limit used : Nat) (before after : ConsumerState F S W) : Prop where
  used_le : used ≤ before.inputPending
  gaps : after.gaps.Sublist before.gaps
  near : used = 0 ∨ ∀ span ∈ after.gaps, before.converterAccepted < span.stop + limit
  taken_eq : after.sourceTaken = before.sourceTaken
  accepted_eq : after.converterAccepted = before.converterAccepted + used
  pending_eq : after.inputPending = before.inputPending - used
  fault : after.muteFault = false → before.muteFault = false

section Conversion

variable [Binary64 W] (adapter : Adapter F W S) (geometry : Geometry)
  (state : ConsumerState F S W) {limit : Nat}

theorem ceilDiv_le_of_le {count divisor bound : Nat} (positive : 0 < divisor)
    (le : count ≤ bound * divisor) : ceilDiv count divisor ≤ bound := by
  unfold ceilDiv
  rw [Nat.div_le_iff_le_mul_add_pred positive, Nat.mul_comm]
  omega

omit [Binary64 W] in
theorem classifyGaps_sifts
    (delays : ∀ handle delay, (adapter.converterInputDelay handle).1 = some delay →
      delay ≤ ((limit * frameUnit : Nat) : Int))
    (ordered : GapsOrdered state.sourceTaken state.gaps) :
    ∃ gaps missing converter, (state.classifyGaps adapter).2 = { state with
        gaps := gaps, outputMissing := missing, converter := converter } ∧
      gaps.Sublist state.gaps ∧ ((state.classifyGaps adapter).1 = true →
        ∀ span ∈ gaps, state.converterAccepted < span.stop + limit) := by
  unfold ConsumerState.classifyGaps
  dsimp only
  split
  · rename_i none
    refine ⟨state.gaps, false, state.converter, rfl, .refl _, fun _ span member => ?_⟩
    rw [none] at member
    cases member
  · generalize replyEq : adapter.converterInputDelay state.converter = reply
    obtain ⟨answer, converter⟩ := reply
    cases answer with
    | none => exact ⟨state.gaps, false, converter, rfl, .refl _, fun failed => by cases failed⟩
    | some delay =>
        have bounded := delays state.converter delay (congrArg Prod.fst replyEq)
        have frames : ceilDiv delay.toNat frameUnit ≤ limit :=
          ceilDiv_le_of_le (by decide) (by omega)
        dsimp only
        split
        · rename_i before
          change state.converterAccepted < ceilDiv delay.toNat frameUnit at before
          refine ⟨state.gaps, false, converter, rfl, .refl _, fun _ span member => ?_⟩
          omega
        · rename_i reached
          change ¬state.converterAccepted < ceilDiv delay.toNat frameUnit at reached
          refine ⟨_, _, converter, rfl, List.dropWhile_sublist _, fun _ span member => ?_⟩
          have behind := ordered.unpassed _ span member
          change state.converterAccepted - ceilDiv delay.toNat frameUnit < span.stop at behind
          omega

omit [Binary64 W] in
theorem recordCache_sifts (sourceStart : Int) (generated : Nat) :
    ∃ converter cacheStart cacheEnd cacheCount fault,
      (state.recordCache adapter sourceStart generated).2 = { state with
        converter := converter, cacheStart := cacheStart, cacheEnd := cacheEnd
        cacheCount := cacheCount, muteFault := fault } ∧
      (fault = false → state.muteFault = false) := by
  unfold ConsumerState.recordCache
  split
  · exact ⟨_, _, _, _, _, rfl, id⟩
  · split
    · exact ⟨_, _, _, _, _, rfl, id⟩
    · dsimp only
      split
      · exact ⟨_, _, _, _, true, rfl, fun clear => by cases clear⟩
      · exact ⟨_, _, _, _, _, rfl, id⟩

omit [Binary64 W] in
theorem finishConversion_sifts (used generated : Nat) :
    ∃ inputOffset outputOffset outputPending zeroProgress,
      (state.finishConversion geometry used generated).2 = { state with
        inputOffset := inputOffset, outputOffset := outputOffset
        outputPending := outputPending, zeroProgress := zeroProgress } := by
  unfold ConsumerState.finishConversion
  dsimp only
  split
  · exact ⟨_, _, _, _, rfl⟩
  · split <;> exact ⟨_, _, _, _, rfl⟩

theorem runConverter_sifts (quantum : Nat)
    (near : ∀ span ∈ state.gaps, state.converterAccepted < span.stop + limit) :
    ∃ used, Sifts limit used state (state.runConverter adapter geometry quantum).2 := by
  have nothing (converter : S) : Sifts limit 0 state { state with converter := converter } :=
    ⟨Nat.zero_le _, .refl _, .inl rfl, rfl, rfl, rfl, id⟩
  unfold ConsumerState.runConverter
  dsimp only
  split
  · exact ⟨0, nothing _⟩
  rename_i delay converter asked
  split
  · exact ⟨0, nothing _⟩
  rename_i converted converter' processed
  have usedLe := (adapter.converterProcess_bounds (congrArg Prod.fst processed)).1
  rw [ConsumerState.offered_length] at usedLe
  refine ⟨converted.inputUsed, ?_⟩
  generalize outputEq : (fun index => if index < converted.outputGenerated then
    converted.output index else state.output index) = output
  have fed : Sifts limit converted.inputUsed state (ConsumerState.consumeInput
      converted.inputUsed { state with converter := converter', output := output }) :=
    { used_le := usedLe, gaps := .refl _, near := .inr near, taken_eq := rfl
      accepted_eq := by
        rw [ConsumerState.converterAccepted_consumeInput]
        rfl
      pending_eq := rfl, fault := id }
  generalize ConsumerState.consumeInput _ _ = accepted at fed ⊢
  obtain ⟨converter'', cacheStart, cacheEnd, cacheCount, fault, recordedEq, latched⟩ :=
    recordCache_sifts adapter accepted
      ((state.converterAccepted : Int) * frameUnit - delay) converted.outputGenerated
  have placed : Sifts limit converted.inputUsed state (accepted.recordCache adapter
      ((state.converterAccepted : Int) * frameUnit - delay) converted.outputGenerated).2 := by
    rw [recordedEq]
    exact { fed with fault := fun clear => fed.fault (latched clear) }
  split
  · rename_i recorded resultEq
    rw [resultEq] at placed
    exact placed
  · rename_i recorded resultEq
    rw [resultEq] at placed
    obtain ⟨inputOffset, outputOffset, outputPending, zeroProgress, finishedEq⟩ :=
      finishConversion_sifts geometry recorded converted.inputUsed
        converted.outputGenerated
    rw [finishedEq]
    exact { placed with }

/-- What a conversion leaves in the queue ends within the reported delay. -/
theorem convert_sifts (quantum : Nat)
    (delays : ∀ handle delay, (adapter.converterInputDelay handle).1 = some delay →
      delay ≤ ((limit * frameUnit : Nat) : Int))
    (ordered : GapsOrdered state.sourceTaken state.gaps) :
    ∃ used, Sifts limit used state (state.convert adapter geometry quantum).2 := by
  obtain ⟨gaps, missing, converter, classifiedEq, sublist, near⟩ :=
    classifyGaps_sifts adapter state delays ordered
  unfold ConsumerState.convert
  generalize state.classifyGaps adapter = classified at classifiedEq near ⊢
  obtain ⟨ok, after⟩ := classified
  dsimp only at classifiedEq near
  subst classifiedEq
  cases ok with
  | false => exact ⟨0, Nat.zero_le _, sublist, .inl rfl, rfl, rfl, rfl, id⟩
  | true =>
      obtain ⟨used, sifts⟩ := runConverter_sifts adapter geometry
        { state with gaps := gaps, outputMissing := missing, converter := converter } quantum
        (near rfl)
      exact ⟨used, { sifts with gaps := sifts.gaps.trans sublist }⟩

end Conversion

/-- The gap queue is in order and within what was reserved, and every slot taken
while no fault is latched is in the workspace or was accepted. -/
structure GapQueue (geometry : Geometry) (history : Nat) (state : ConsumerState F S W)
    (ring : Ring F S W) : Prop where
  ordered : GapsOrdered state.sourceTaken state.gaps
  recent : ∀ span ∈ state.gaps,
    state.converterAccepted < span.stop + (geometry.capacity * 2 + history)
  pending_le : state.inputPending ≤ geometry.capacity
  whole : state.muteFault = false →
    ring.pcm.passed.length = ring.ledger.streamStart + state.sourceTaken

namespace GapQueue

variable {geometry : Geometry} {history : Nat} {state : ConsumerState F S W} {ring : Ring F S W}

theorem agree {other : ConsumerState F S W} (queue : GapQueue geometry history state ring)
    (gapsEq : other.gaps = state.gaps) (takenEq : other.sourceTaken = state.sourceTaken)
    (acceptedEq : other.converterAccepted = state.converterAccepted)
    (pendingLe : other.inputPending ≤ geometry.capacity)
    (fault : other.muteFault = false → state.muteFault = false) :
    GapQueue geometry history other ring where
  ordered := by
    rw [gapsEq, takenEq]
    exact queue.ordered
  recent := by
    rw [gapsEq, acceptedEq]
    exact queue.recent
  pending_le := pendingLe
  whole clear := by
    rw [takenEq]
    exact queue.whole (fault clear)

theorem same {after : Ring F S W} (queue : GapQueue geometry history state ring)
    (passedEq : after.pcm.passed = ring.pcm.passed)
    (startEq : after.ledger.streamStart = ring.ledger.streamStart) :
    GapQueue geometry history state after :=
  { queue with
    whole := fun clear => by
      rw [passedEq, startEq]
      exact queue.whole clear }

/-- The spans lie between the newest slot and what the delay and one workspace
reach back. -/
theorem length_lt {slack : Nat} (queue : GapQueue geometry history state ring)
    (accounts : Accounts geometry slack state ring)
    (reserved : geometry.gapCapacity = geometry.capacity * 2 + history + 2) :
    state.gaps.length < geometry.gapCapacity := by
  by_cases empty : state.gaps = []
  · rw [empty, List.length_nil]
    omega
  have taken : state.sourceTaken ≤ state.converterAccepted + geometry.capacity := by
    have room := queue.pending_le
    unfold ConsumerState.converterAccepted
    cases padding : state.inputPadding with
    | false =>
        have sum := (accounts.unpadded padding).1
        omega
    | true =>
        have accepted := (accounts.padded padding).1
        omega
  have bound : 2 * state.gaps.length +
      (state.converterAccepted - (geometry.capacity * 2 + history)) ≤
        state.sourceTaken + 1 := by
    refine queue.ordered.length_le (fun span member => ?_) empty
    have recent := queue.recent span member
    have nonempty := (queue.ordered.each span member).1
    omega
  omega

theorem acceptSource {slot : SourceSample F} (queue : GapQueue geometry history state ring)
    (accounts : Accounts geometry 0 state ring) (unpadded : state.inputPadding = false)
    (room : state.inputPending < geometry.capacity)
    (reserved : geometry.gapCapacity = geometry.capacity * 2 + history + 2) :
    GapQueue geometry history (state.acceptSource geometry.gapCapacity slot).2
      (takeSlot geometry slot ring) := by
  have below : state.converterAccepted ≤ state.sourceTaken := by
    have sum := accounts.unpadded unpadded
    unfold ConsumerState.converterAccepted
    omega
  have startEq : (takeSlot geometry slot ring).ledger.streamStart = ring.ledger.streamStart := rfl
  have passedEq : (takeSlot geometry slot ring).pcm.passed.length = ring.pcm.passed.length + 1 := by
    rw [takeSlot_passed, List.length_append, List.length_singleton]
  have fenced : ∃ base fault, (state.fence slot.stamp).2 = { state with
      sourceBase := base, muteFault := fault } ∧
      ((state.fence slot.stamp).1 = true → fault = state.muteFault) ∧
      ((state.fence slot.stamp).1 = false → fault = true) := by
    rcases state.fence_cases slot.stamp with
      ⟨-, fenced⟩ | ⟨mark, -, -, fenced⟩ | ⟨mark, -, -, fenced⟩ <;> rw [fenced]
    · exact ⟨_, _, rfl, fun _ => rfl, fun failed => by cases failed⟩
    · exact ⟨_, _, rfl, fun _ => rfl, fun failed => by cases failed⟩
    · exact ⟨_, _, rfl, fun works => (by cases works), fun _ => rfl⟩
  obtain ⟨base, fault, fencedEq, passes, stops⟩ := fenced
  rcases state.acceptSource_cases geometry.gapCapacity slot with
    ⟨gaps, continues, grows, accepted⟩ | ⟨stopped, accepted⟩ | ⟨-, -, full, -⟩
  · rw [accepted, fencedEq, passes continues]
    have grown : GapsOrdered (state.sourceTaken + 1) gaps ∧
        ∀ span ∈ gaps, span ∈ state.gaps ∨ span.stop = state.sourceTaken + 1 := by
      split at grows
      · exact ⟨queue.ordered.extend grows, fun span member => extendGaps_mem grows member⟩
      · rw [grows]
        exact ⟨queue.ordered.mono (Nat.le_succ _), fun span member => .inl member⟩
    refine ⟨grown.1, fun span member => ?_, room, fun clear => ?_⟩
    · rcases grown.2 span member with earlier | last
      · exact queue.recent span earlier
      · change state.converterAccepted < _
        omega
    · have whole := queue.whole clear
      change _ = _ + (state.sourceTaken + 1)
      omega
  · rw [accepted, fencedEq, stops stopped]
    exact ⟨queue.ordered, queue.recent, queue.pending_le, fun clear => by cases clear⟩
  · exact absurd (extendGaps_none full) (queue.length_lt accounts reserved).ne

/-- A conversion passes what lies behind the delay before it accepts a workspace. -/
theorem sifts {used limit : Nat} {after : ConsumerState F S W}
    (queue : GapQueue geometry history state ring) (step : Sifts limit used state after)
    (limitLe : limit ≤ geometry.capacity + history) : GapQueue geometry history after ring where
  ordered := step.taken_eq ▸ queue.ordered.sublist step.gaps
  recent span member := by
    have room := queue.pending_le
    have usedLe := step.used_le
    rw [step.accepted_eq]
    rcases step.near with none | near
    · have earlier := queue.recent span (step.gaps.subset member)
      omega
    · have later := near span member
      omega
  pending_le := by
    rw [step.pending_eq]
    exact (Nat.sub_le _ _).trans queue.pending_le
  whole clear := by
    rw [step.taken_eq]
    exact queue.whole (step.fault clear)

end GapQueue

section Runs

variable [Binary32 F] [Binary64 W] [Widening F W] {adapter : Adapter F W S}
  {geometry : Geometry} {history : Nat}

theorem gapQueueKept {shape : List (SourceSample F) → List SlotNote → Prop}
    (reserved : geometry.gapCapacity = geometry.capacity * 2 + history + 2)
    (delays : ∀ handle delay, (adapter.converterInputDelay handle).1 = some delay →
      delay ≤ (((geometry.capacity + history) * frameUnit : Nat) : Int)) :
    LocalInvariant adapter geometry shape (GapQueue (F := F) (S := S) (W := W) geometry history) where
  published accounts moves queue :=
    queue.same (moves.passed_eq accounts.pcm) moves.streamStart_eq
  same same queue := queue.same (by rw [same.pcm_eq]) same.start_eq
  capture _ _ _ queue := queue.agree rfl rfl rfl queue.pending_le id
  receive {state ring interval rest} _ _ queue := by
    have received : GapQueue geometry history (state.receive interval) ring :=
      queue.agree rfl rfl rfl queue.pending_le fun clear => by
        have both : (state.muteFault || !(state.muteHistory.insert interval).1) = false := clear
        exact (Bool.or_eq_false_iff.mp both).1
    exact received.same rfl rfl
  flags _ _ queue := queue.agree rfl rfl rfl queue.pending_le id
  space {state ring} wanted _ _ queue := by
    unfold ConsumerState.makeInputSpace
    split
    · exact queue
    · exact queue.agree rfl rfl rfl queue.pending_le id
  take accounts _ unpadded room _ queue :=
    queue.acceptSource accounts unpadded (Nat.lt_of_le_of_lt (Nat.le_add_left _ _) room) reserved
  pad _ _ _ queue := by
    unfold ConsumerState.padInput
    split
    · exact queue.agree rfl rfl rfl (Nat.min_le_left _ _) id
    · exact queue
  query _ _ queue := queue.agree rfl rfl rfl queue.pending_le id
  steer _ _ _ queue := queue.agree rfl rfl rfl queue.pending_le id
  convert _ _ queue := by
    obtain ⟨used, sifts⟩ := convert_sifts adapter geometry _
      (min geometry.capacity converterQuantum) delays queue.ordered
    exact queue.sifts sifts (Nat.le_refl _)
  emit {slack result state ring} _ _ _ queue := by
    obtain ⟨plc, plcPositions, plcPosition, muteHistory, emissionEq⟩ :=
      state.emission_state geometry result
    rw [emissionEq]
    unfold ConsumerState.popped
    split
    · exact queue.agree rfl rfl rfl queue.pending_le id
    · exact queue.agree rfl rfl rfl queue.pending_le id
  release {state boundary ring} _ _ _ queue := by
    obtain ⟨plc, releaseEq⟩ := release_cases geometry state boundary
    rw [releaseEq]
    exact queue.agree rfl rfl rfl queue.pending_le id
  reset _ _ completed :=
    ⟨.nil, fun _ member => (List.not_mem_nil member).elim, Nat.zero_le _,
      fun _ => completed.start_eq.symm⟩

end Runs

/-- The queue of missing spans between two steps of the consumer: disjoint spans
that do not touch, in order, ending by the newest slot taken; not full; and no
slot taken was dropped unless a mute fault is latched. -/
structure GapQueueFits (reserved : Nat) (state : ConsumerState F S W) (ring : Ring F S W) :
    Prop where
  ordered : GapsOrdered state.sourceTaken state.gaps
  fits : state.gaps.length < reserved
  whole : state.muteFault = false →
    ring.pcm.passed.length = ring.ledger.streamStart + state.sourceTaken

/-- Whole source frames of the delay that the warmed converter first reports. -/
def Adapter.history (adapter : Adapter F W S) (settings : Settings) : Nat :=
  let created := adapter.createConverter settings.inputRateHz settings.outputRateHz
    settings.capacity converterQuantum
  (created.bind fun made => (adapter.converterInputDelay made.1).1).elim 0 fun delay =>
    ceilDiv delay.toNat frameUnit

section Runs

variable [Binary32 F] [Binary64 W] {adapter : Adapter F W S} {geometry : Geometry}

theorem create_warmed {settings : Settings} {ring : Ring F S W}
    (created : Ring.create adapter settings = .ok (geometry, ring)) :
    ∃ converter outputDelay delay,
      adapter.createConverter settings.inputRateHz settings.outputRateHz settings.capacity
        converterQuantum = some (converter, outputDelay) ∧
      (adapter.converterInputDelay converter).1 = some delay ∧
      geometry = settings.geometry outputDelay delay.toNat := by
  unfold Ring.create at created
  split at created
  · cases created
  split at created
  · cases created
  rename_i converter outputDelay createdEq
  split at created
  · cases created
  rename_i delay converter' delayedEq
  cases created
  exact ⟨converter, outputDelay, delay, createdEq, congrArg Prod.fst delayedEq, rfl⟩

theorem create_reserved {settings : Settings} {ring : Ring F S W}
    (created : Ring.create adapter settings = .ok (geometry, ring)) :
    geometry.gapCapacity = settings.capacity * 2 + adapter.history settings + 2 := by
  obtain ⟨converter, outputDelay, delay, createdEq, reported, rfl⟩ := create_warmed created
  have frames : adapter.history settings = ceilDiv delay.toNat frameUnit := by
    unfold Adapter.history
    dsimp only
    rw [createdEq, Option.bind_some, reported, Option.elim_some]
  rw [frames]
  rfl

variable [Widening F W]

/-- Whatever the converter answers within its delay, the reserved gap queue never
fills, so no slot is dropped for want of an entry: neither in what a call leaves
behind nor in what a boundary retires. -/
theorem gap_queue_never_fills {settings : Settings} {config : RingConfig F S W}
    (reached : RingReachable adapter settings (fun _ _ => True) geometry config)
    (delays : ∀ handle delay, (adapter.converterInputDelay handle).1 = some delay →
      delay ≤ ((settings.capacity + adapter.history settings : Nat) : Int) * frameUnit) :
    (config.thread .consumer = .idle →
      GapQueueFits (settings.capacity * 2 + adapter.history settings + 2) config.memory.consumer
        config.memory) ∧
    ∀ call entry state next,
      config.thread .consumer = .running call entry (.act (.retire state) next) →
      GapQueueFits (settings.capacity * 2 + adapter.history settings + 2) state
        config.memory := by
  obtain ⟨ring, created, steps⟩ := reached
  have reserved := create_reserved created
  obtain ⟨-, outputDelay, delay, converter, geometryEq, initial⟩ := create_cases created
  have capacityEq : geometry.capacity = settings.capacity := by rw [geometryEq]; rfl
  rw [← capacityEq] at reserved delays ⊢
  have keeps : LocalInvariant adapter geometry (SingleLine none)
      (GapQueue geometry (adapter.history settings)) :=
    gapQueueKept reserved fun handle delay accepted => by
      have bound := delays handle delay accepted
      push_cast at bound ⊢
      exact bound
  have fits {slack : Nat} {state : ConsumerState F S W} {ring : Ring F S W}
      (accounts : Accounts geometry slack state ring)
      (queue : GapQueue geometry (adapter.history settings) state ring) :
      GapQueueFits (geometry.capacity * 2 + adapter.history settings + 2) state ring :=
    ⟨queue.ordered, reserved ▸ queue.length_lt accounts reserved, queue.whole⟩
  have answers : SteeredInvariant.Answers adapter geometry
      (GapQueue geometry (adapter.history settings)) (fun _ _ => True)
      (GapQueueFits (geometry.capacity * 2 + adapter.history settings + 2)) :=
    { silent := fun _ _ => trivial
      emit := fun _ _ _ _ => trivial
      release := fun _ _ _ _ => trivial
      retire := fun finite accounts queue =>
        ⟨queue.ordered, (fits accounts queue).fits, queue.whole⟩ }
  have start : GapQueue geometry (adapter.history settings) ring.consumer ring := by
    rw [initial]
    exact ⟨.nil, fun _ member => (List.not_mem_nil member).elim, Nat.zero_le _, fun _ => rfl⟩
  have holds := invariant_holds keeps.steered answers created start steps .consumer
  refine ⟨fun idle => ?_, fun call entry state next running => ?_⟩
  · obtain ⟨drained, queue⟩ := Outline.inv_of_idle _ holds idle
    exact fits drained.1 queue
  · exact (Outline.guar_of_running _ holds running).2 state rfl

end Runs

/-- A received sample, a gap and another sample are published and one is rendered. -/
theorem gap_queue_never_fills_after_a_render :
    ∃ (geometry : Geometry) (config : RingConfig ℚ Unit ℚ),
      RingReachable (unitConverter (F := ℚ) (W := ℚ)) smallSettings (fun _ _ => True)
        geometry config ∧ config.memory.consumer.gaps = [⟨1, 2⟩] ∧
      GapQueueFits 1026 config.memory.consumer config.memory := by
  let shown (_ : Geometry) (config : RingConfig ℚ Unit ℚ) : Bool :=
    config.resting .consumer && decide (config.memory.consumer.gaps = [⟨1, 2⟩])
  have played : (playRing (unitConverter (F := ℚ) (W := ℚ)) smallSettings
      (uninterrupted .producer (.push [1 / 2]) ++ uninterrupted .producer (.gap 1) ++
        uninterrupted .producer (.push [1 / 4]) ++ uninterrupted .consumer .render)).any
      (fun played => shown played.1 played.2) = true := by decide +kernel
  obtain ⟨geometry, config, reached, shows⟩ :=
    reachable_of_plays _ _ _ shown (admitted_any _) played
  obtain ⟨resting, gapsEq⟩ := Bool.and_eq_true_iff.mp shows
  have fits := (gap_queue_never_fills reached fun _ delay accepted => by
    cases accepted
    decide).1 (Config.idle_of_resting resting)
  exact ⟨geometry, config, reached, of_decide_eq_true gapsEq, fits⟩

end PcmRing
