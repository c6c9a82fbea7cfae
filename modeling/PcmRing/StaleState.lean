import PcmRing.AtomicRing
import PcmRing.ConsumerSteps
import PcmRing.StaleConcealment

/-!
# What the consumer forgets

The workspace outside what is pending, the position of an empty cache, the
token of a boundary and the waveform of an ended loss are never read.  Two
consumers that differ in nothing else behave alike.
-/

namespace PcmRing

open TwoLapQueue

variable {F S W : Type}

namespace ConsumerState

/-- What an earlier stream may leave behind. -/
structure Leftover (F : Type) where
  input : Nat → F
  output : Nat → F
  cacheStart : Int
  cacheEnd : Int
  token : Nat
  plc : Option (Plc F)

def withLeftover (left : Leftover F) (state : ConsumerState F S W) : ConsumerState F S W :=
  { state with
    input := left.input
    output := left.output
    cacheStart := left.cacheStart
    cacheEnd := left.cacheEnd
    finite := state.finite.map fun boundary => { boundary with token := left.token }
    plc := left.plc }

/-- The leftover agrees wherever it is read. -/
structure Hides (state : ConsumerState F S W) (left : Leftover F) : Prop where
  input : ∀ index < state.inputPending,
    left.input (state.inputOffset + index) = state.input (state.inputOffset + index)
  output : ∀ index < state.outputPending,
    left.output (state.outputOffset + index) = state.output (state.outputOffset + index)
  cache : state.outputPending ≠ 0 →
    left.cacheStart = state.cacheStart ∧ left.cacheEnd = state.cacheEnd
  plc : Option.Rel Plc.Alike state.plc left.plc

/-- Two consumers that behave alike. -/
inductive Alike (state : ConsumerState F S W) : ConsumerState F S W → Prop where
  | mk (left : Leftover F) (hides : state.Hides left) : Alike state (state.withLeftover left)

variable {state other : ConsumerState F S W}

theorem Alike.finite_isNone (alike : state.Alike other) :
    other.finite.isNone = state.finite.isNone := by
  cases alike with
  | mk left hides =>
      simp only [withLeftover]
      cases state.finite <;> rfl

theorem Alike.capture (alike : state.Alike other) (word word' readable : Nat) :
    (state.capture word readable).Alike (other.capture word' readable) := by
  cases alike with
  | mk left hides =>
      exact .mk { left with token := word' / 4 } ⟨hides.input, hides.output, hides.cache, hides.plc⟩

theorem Alike.receive (alike : state.Alike other) (interval : Interval) :
    (state.receive interval).Alike (other.receive interval) := by
  cases alike with
  | mk left hides => exact .mk left ⟨hides.input, hides.output, hides.cache, hides.plc⟩

theorem Alike.receiveAll (alike : state.Alike other) (records : List Interval) :
    (state.receiveAll records).Alike (other.receiveAll records) := by
  unfold ConsumerState.receiveAll
  induction records generalizing state other with
  | nil => exact alike
  | cons interval records ih => exact ih (alike.receive interval)

theorem Alike.flags (alike : state.Alike other) (quiet primed : Bool) :
    Alike { state with quiet := quiet, primed := primed }
      { other with quiet := quiet, primed := primed } := by
  cases alike with
  | mk left hides => exact .mk left ⟨hides.input, hides.output, hides.cache, hides.plc⟩

theorem Alike.woken (alike : state.Alike other) :
    Alike { state with quiet := false } { other with quiet := false } := by
  cases alike with
  | mk left hides => exact .mk left ⟨hides.input, hides.output, hides.cache, hides.plc⟩

theorem Alike.muteFault_eq (alike : state.Alike other) : other.muteFault = state.muteFault := by
  cases alike with
  | mk left hides => rfl

theorem Alike.makeInputSpace (alike : state.Alike other) (additional capacity : Nat) :
    (state.makeInputSpace additional capacity).Alike
      (other.makeInputSpace additional capacity) := by
  cases alike with
  | mk left hides =>
      unfold ConsumerState.makeInputSpace
      by_cases fits : state.inputOffset = 0 ∨
          state.inputOffset + state.inputPending + additional ≤ capacity
      · have fitsToo : (state.withLeftover left).inputOffset = 0 ∨
            (state.withLeftover left).inputOffset + (state.withLeftover left).inputPending +
              additional ≤ capacity := fits
        rw [if_pos fits, if_pos fitsToo]
        exact .mk left hides
      · have fitsToo : ¬((state.withLeftover left).inputOffset = 0 ∨
            (state.withLeftover left).inputOffset + (state.withLeftover left).inputPending +
              additional ≤ capacity) := fits
        rw [if_neg fits, if_neg fitsToo]
        let moved (index : Nat) : F :=
          if index < state.inputPending then left.input (state.inputOffset + index)
          else left.input index
        refine .mk { left with input := moved }
          ⟨fun index inside => ?_, hides.output, hides.cache, hides.plc⟩
        simp only [moved, Nat.zero_add, if_pos (show index < state.inputPending from inside)]
        exact hides.input index inside

theorem Alike.fence (alike : state.Alike other) (stamp : Option Stamp) :
    (other.fence stamp).1 = (state.fence stamp).1 ∧
      (state.fence stamp).2.Alike (other.fence stamp).2 := by
  cases alike with
  | mk left hides =>
      unfold ConsumerState.fence
      cases stamp with
      | none => exact ⟨rfl, .mk left hides⟩
      | some stamp =>
          dsimp only
          by_cases continues : state.Continues stamp
          · have continuesToo : (state.withLeftover left).Continues stamp := continues
            rw [if_pos continues, if_pos continuesToo]
            exact ⟨rfl, .mk left ⟨hides.input, hides.output, hides.cache, hides.plc⟩⟩
          · have continuesToo : ¬(state.withLeftover left).Continues stamp := continues
            rw [if_neg continues, if_neg continuesToo]
            exact ⟨rfl, .mk left ⟨hides.input, hides.output, hides.cache, hides.plc⟩⟩

theorem Alike.appendInput (alike : state.Alike other) (pcm : F) :
    (state.appendInput pcm).Alike (other.appendInput pcm) := by
  cases alike with
  | mk left hides =>
      refine .mk { left with
        input := Function.update left.input (state.inputOffset + state.inputPending) pcm }
        ⟨fun index inside => ?_, hides.output, hides.cache, hides.plc⟩
      simp only [ConsumerState.appendInput] at inside ⊢
      rcases Nat.lt_succ_iff_lt_or_eq.mp inside with before | rfl
      · rw [Function.update_of_ne (by omega), Function.update_of_ne (by omega)]
        exact hides.input index before
      · rw [Function.update_self, Function.update_self]

theorem Alike.acceptSource (alike : state.Alike other) (gapCapacity : Nat)
    (sample : SourceSample F) :
    (other.acceptSource gapCapacity sample).1 = (state.acceptSource gapCapacity sample).1 ∧
      (state.acceptSource gapCapacity sample).2.Alike
        (other.acceptSource gapCapacity sample).2 := by
  obtain ⟨same, fenced⟩ := alike.fence sample.stamp
  unfold ConsumerState.acceptSource
  dsimp only
  rw [same]
  generalize (state.fence sample.stamp).2 = first at fenced ⊢
  generalize (other.fence sample.stamp).2 = second at fenced ⊢
  cases fenced with
  | mk left hides =>
      have gaps : extendGaps gapCapacity (first.withLeftover left).sourceTaken
        (first.withLeftover left).gaps = extendGaps gapCapacity first.sourceTaken first.gaps := rfl
      rw [gaps]
      split
      · split
        · split
          · exact ⟨rfl, .mk left { hides with }⟩
          · rename_i extended _
            have extends' : Alike { first with gaps := extended }
                { first.withLeftover left with gaps := extended } :=
              .mk left ⟨hides.input, hides.output, hides.cache, hides.plc⟩
            exact ⟨rfl, extends'.appendInput sample.pcm⟩
        · exact ⟨rfl, Alike.appendInput (.mk left hides) sample.pcm⟩
      · exact ⟨rfl, .mk left { hides with }⟩

theorem Alike.takeAll (alike : state.Alike other) (gapCapacity wanted : Nat)
    (slots : List (SourceSample F)) :
    (other.takeAll gapCapacity wanted slots).2 = (state.takeAll gapCapacity wanted slots).2 ∧
      (other.takeAll gapCapacity wanted slots).1.1 =
        (state.takeAll gapCapacity wanted slots).1.1 ∧
      (state.takeAll gapCapacity wanted slots).1.2.Alike
        (other.takeAll gapCapacity wanted slots).1.2 := by
  have padding {first second : ConsumerState F S W} (alike : first.Alike second) :
      second.inputPadding = first.inputPadding := by
    cases alike with
    | mk left hides => rfl
  induction wanted generalizing state other slots with
  | zero => exact ⟨rfl, rfl, alike⟩
  | succ wanted ih =>
      cases slots with
      | nil => exact ⟨rfl, rfl, alike⟩
      | cons sample rest =>
          obtain ⟨same, accepted⟩ := alike.acceptSource gapCapacity sample
          simp only [ConsumerState.takeAll, padding alike]
          split
          · exact ⟨rfl, rfl, alike⟩
          · rw [same]
            split
            · exact ih accepted rest
            · exact ⟨rfl, same, accepted⟩

theorem Alike.padInput [Zero F] (alike : state.Alike other) (quantum : Nat) :
    (state.padInput quantum).Alike (other.padInput quantum) := by
  cases alike with
  | mk left hides =>
      unfold ConsumerState.padInput
      by_cases empties : state.inputPending = 0 ∧ state.finite.isSome
      · have emptiesToo : (state.withLeftover left).inputPending = 0 ∧
            (state.withLeftover left).finite.isSome := by
          simpa [withLeftover] using empties
        rw [if_pos empties, if_pos emptiesToo]
        let padded (index : Nat) : F := if index < quantum then 0 else left.input index
        refine .mk { left with input := padded }
          ⟨fun index inside => ?_, hides.output, hides.cache, hides.plc⟩
        have lt : 0 + index < quantum := by
          simpa using inside
        simp only [padded, if_pos lt]
      · have emptiesToo : ¬((state.withLeftover left).inputPending = 0 ∧
            (state.withLeftover left).finite.isSome) := by
          simpa [withLeftover] using empties
        rw [if_neg empties, if_neg emptiesToo]
        exact .mk left hides

theorem Hides.offered {left : Leftover F} (hides : state.Hides left) :
    (state.withLeftover left).offered = state.offered :=
  List.map_congr_left fun index inside => hides.input index (List.mem_range.mp inside)

section Conversion

variable [Binary64 W] {adapter : Adapter F W S} {geometry : Geometry}

theorem Alike.steered (alike : state.Alike other) (occupancy : Nat) :
    (state.steered geometry occupancy).Alike (other.steered geometry occupancy) := by
  have streaming := alike.finite_isNone
  unfold ConsumerState.steered
  rw [streaming]
  cases alike with
  | mk left hides =>
      have ratio : (state.withLeftover left).ratio = state.ratio := rfl
      rw [ratio]
      by_cases steers : occupancy ≠ 0 ∧ state.finite.isNone
      · rw [if_pos steers, if_pos steers]
        exact .mk left ⟨hides.input, hides.output, hides.cache, hides.plc⟩
      · rw [if_neg steers, if_neg steers]
        by_cases unset : Binary64.eq state.ratio (Binary64.ofRat 0) = true
        · rw [if_pos unset, if_pos unset]
          exact .mk left ⟨hides.input, hides.output, hides.cache, hides.plc⟩
        · rw [if_neg unset, if_neg unset]
          exact .mk left hides

omit [Binary64 W] in
theorem Alike.classifyGaps (adapter : Adapter F W S) (alike : state.Alike other) :
    (other.classifyGaps adapter).1 = (state.classifyGaps adapter).1 ∧
      (state.classifyGaps adapter).2.Alike (other.classifyGaps adapter).2 := by
  cases alike with
  | mk left hides =>
      unfold ConsumerState.classifyGaps
      dsimp only [withLeftover, converterAccepted]
      generalize adapter.converterInputDelay state.converter = reply
      obtain ⟨answer, converter⟩ := reply
      by_cases none : state.gaps = []
      · rw [if_pos none, if_pos none]
        exact ⟨rfl, .mk left ⟨hides.input, hides.output, hides.cache, hides.plc⟩⟩
      · rw [if_neg none, if_neg none]
        cases answer with
        | none => exact ⟨rfl, .mk left ⟨hides.input, hides.output, hides.cache, hides.plc⟩⟩
        | some delay =>
            dsimp only
            by_cases startup : state.sourceAccepted + state.paddingAccepted <
                ceilDiv delay.toNat frameUnit
            · simp only [startup, if_true]
              exact ⟨trivial, .mk left ⟨hides.input, hides.output, hides.cache, hides.plc⟩⟩
            · simp only [startup, if_false]
              exact ⟨trivial, .mk left ⟨hides.input, hides.output, hides.cache, hides.plc⟩⟩

omit [Binary64 W] in
theorem Alike.consumeInput (alike : state.Alike other) (used : Nat) :
    (state.consumeInput used).Alike (other.consumeInput used) := by
  cases alike with
  | mk left hides =>
      refine .mk left ⟨fun index inside => ?_, hides.output, hides.cache, hides.plc⟩
      simp only [ConsumerState.consumeInput] at inside ⊢
      rw [Nat.add_assoc]
      exact hides.input (used + index) (by omega)

omit [Binary64 W] in
/-- Converted samples replace the same part of both caches. -/
theorem Alike.convertedOutput (alike : state.Alike other) (samples : Nat → F) (generated : Nat)
    (converter : S) :
    Alike
      { state with
        converter := converter
        output := fun index => if index < generated then samples index else state.output index }
      { other with
        converter := converter
        output := fun index =>
          if index < generated then samples index else other.output index } := by
  cases alike with
  | mk left hides =>
      let output (index : Nat) : F := if index < generated then samples index else left.output index
      refine .mk { left with output := output }
        ⟨hides.input, fun index inside => ?_, hides.cache, hides.plc⟩
      simp only [output]
      split
      · rfl
      · exact hides.output index inside

omit [Binary64 W] in
theorem Alike.recordCache (adapter : Adapter F W S) (alike : state.Alike other)
    (sourceStart : Int) (generated : Nat) :
    (other.recordCache adapter sourceStart generated).1 =
        (state.recordCache adapter sourceStart generated).1 ∧
      (state.recordCache adapter sourceStart generated).2.Alike
        (other.recordCache adapter sourceStart generated).2 ∧
      ((state.recordCache adapter sourceStart generated).1 = true → generated ≠ 0 →
        (other.recordCache adapter sourceStart generated).2.cacheStart =
            (state.recordCache adapter sourceStart generated).2.cacheStart ∧
          (other.recordCache adapter sourceStart generated).2.cacheEnd =
            (state.recordCache adapter sourceStart generated).2.cacheEnd) := by
  cases alike with
  | mk left hides =>
      unfold ConsumerState.recordCache
      dsimp only [withLeftover, converterAccepted]
      generalize adapter.converterInputDelay state.converter = reply
      obtain ⟨answer, converter⟩ := reply
      by_cases none : generated = 0
      · rw [if_pos none, if_pos none]
        exact ⟨rfl, .mk left hides, fun _ some => (some none).elim⟩
      · rw [if_neg none, if_neg none]
        cases answer with
        | none =>
            exact ⟨rfl, .mk left ⟨hides.input, hides.output, hides.cache, hides.plc⟩,
              fun ok => nomatch ok⟩
        | some delay =>
            let placed : Leftover F := { left with
              cacheStart := sourceStart
              cacheEnd := ((state.sourceAccepted + state.paddingAccepted : Nat) : Int) *
                frameUnit - delay }
            dsimp only
            by_cases backwards : ((state.sourceAccepted + state.paddingAccepted : Nat) : Int) *
                frameUnit - delay < sourceStart
            · simp only [backwards, if_true]
              exact ⟨trivial,
                .mk placed ⟨hides.input, hides.output, fun _ => ⟨rfl, rfl⟩, hides.plc⟩,
                fun ok => nomatch ok⟩
            · simp only [backwards, if_false]
              exact ⟨trivial,
                .mk placed ⟨hides.input, hides.output, fun _ => ⟨rfl, rfl⟩, hides.plc⟩,
                fun _ _ => ⟨trivial, trivial⟩⟩

omit [Binary64 W] in
theorem recordCache_output (adapter : Adapter F W S) (state : ConsumerState F S W)
    (sourceStart : Int) (generated : Nat) :
    (state.recordCache adapter sourceStart generated).2.output = state.output := by
  unfold ConsumerState.recordCache
  split
  · rfl
  · split
    · rfl
    · dsimp only
      split <;> rfl

omit [Binary64 W] in
theorem Alike.finishConversion (alike : state.Alike other) (used generated : Nat)
    (cache : generated ≠ 0 →
      other.cacheStart = state.cacheStart ∧ other.cacheEnd = state.cacheEnd)
    (output : ∀ index < generated, other.output index = state.output index) :
    (other.finishConversion geometry used generated).1 =
        (state.finishConversion geometry used generated).1 ∧
      (state.finishConversion geometry used generated).2.Alike
        (other.finishConversion geometry used generated).2 := by
  cases alike with
  | mk left hides =>
      have input (index : Nat) (inside : index < state.inputPending) :
          left.input ((if state.inputPending = 0 then 0 else state.inputOffset) + index) =
            state.input ((if state.inputPending = 0 then 0 else state.inputOffset) + index) := by
        rw [if_neg (Nat.ne_of_gt (Nat.zero_lt_of_lt inside))]
        exact hides.input index inside
      have fresh (index : Nat) (inside : index < generated) :
          left.output (0 + index) = state.output (0 + index) := by
        rw [Nat.zero_add]
        exact output index inside
      unfold ConsumerState.finishConversion
      dsimp only [withLeftover]
      by_cases none : generated = 0
      · simp only [none, ne_eq, not_true_eq_false, if_false]
        by_cases stuck : decide (used = 0) = true ∧ state.inputPending = geometry.capacity
        · rw [if_pos stuck, if_pos stuck]
          exact ⟨rfl, .mk left ⟨input, fun index inside => (Nat.not_lt_zero _ inside).elim,
            fun some => (some rfl).elim, hides.plc⟩⟩
        · rw [if_neg stuck, if_neg stuck]
          exact ⟨rfl, .mk left ⟨input, fun index inside => (Nat.not_lt_zero _ inside).elim,
            fun some => (some rfl).elim, hides.plc⟩⟩
      · simp only [ne_eq, none, not_false_eq_true, if_true]
        exact ⟨trivial, .mk left ⟨input, fresh, fun _ => cache none, hides.plc⟩⟩

theorem Alike.runConverter (alike : state.Alike other) (quantum : Nat) :
    (other.runConverter adapter geometry quantum).1 =
        (state.runConverter adapter geometry quantum).1 ∧
      (state.runConverter adapter geometry quantum).2.Alike
        (other.runConverter adapter geometry quantum).2 := by
  cases alike with
  | mk left hides =>
      have moved (converter : S) : Alike { state with converter := converter }
          { state.withLeftover left with converter := converter } :=
        .mk left ⟨hides.input, hides.output, hides.cache, hides.plc⟩
      have count : (if (state.withLeftover left).gaps = [] then quantum else 1) =
        if state.gaps = [] then quantum else 1 := rfl
      have accepted : (state.withLeftover left).converterAccepted = state.converterAccepted := rfl
      have handle : (state.withLeftover left).converter = state.converter := rfl
      have processing (converter : S) (count : Nat) :
          adapter.converterProcess converter state.offered count (state.withLeftover left).ratio =
            adapter.converterProcess converter state.offered count state.ratio := rfl
      unfold ConsumerState.runConverter
      rw [hides.offered, count, accepted, handle]
      generalize adapter.converterInputDelay state.converter = reply
      obtain ⟨delay, converter⟩ := reply
      cases delay with
      | none => exact ⟨rfl, moved converter⟩
      | some delay =>
          dsimp only
          rw [processing]
          generalize adapter.converterProcess converter state.offered _ state.ratio = processed
          obtain ⟨converted, converter'⟩ := processed
          cases converted with
          | none => exact ⟨rfl, moved converter'⟩
          | some converted =>
              dsimp only
              generalize (state.converterAccepted : Int) * frameUnit - delay = sourceStart
              have consumed := ((Alike.mk left hides).convertedOutput converted.output
                converted.outputGenerated converter').consumeInput converted.inputUsed
              have batch (before : ConsumerState F S W) (index : Nat)
                  (inside : index < converted.outputGenerated) :
                  (ConsumerState.recordCache adapter sourceStart converted.outputGenerated
                    (ConsumerState.consumeInput converted.inputUsed { before with
                      converter := converter'
                      output := fun index => if index < converted.outputGenerated
                        then converted.output index else before.output index })).2.output index =
                    converted.output index := by
                rw [recordCache_output]
                exact if_pos inside
              have first := batch state
              have second := batch (state.withLeftover left)
              obtain ⟨sameRecord, recorded, cache⟩ :=
                consumed.recordCache adapter sourceStart converted.outputGenerated
              generalize ConsumerState.recordCache adapter sourceStart converted.outputGenerated
                (ConsumerState.consumeInput converted.inputUsed { state with
                  converter := converter'
                  output := fun index => if index < converted.outputGenerated
                    then converted.output index else state.output index }) = one
                at first sameRecord recorded cache ⊢
              generalize ConsumerState.recordCache adapter sourceStart converted.outputGenerated
                (ConsumerState.consumeInput converted.inputUsed { state.withLeftover left with
                  converter := converter'
                  output := fun index => if index < converted.outputGenerated
                    then converted.output index else (state.withLeftover left).output index }) = two
                at second sameRecord recorded cache ⊢
              obtain ⟨placed, one⟩ := one
              obtain ⟨placed', two⟩ := two
              obtain rfl : placed' = placed := sameRecord
              cases placed' with
              | false => exact ⟨rfl, recorded⟩
              | true =>
                  exact recorded.finishConversion _ _ (cache rfl) fun index inside =>
                    (second index inside).trans (first index inside).symm

theorem Alike.convert (alike : state.Alike other) (quantum : Nat) :
    (other.convert adapter geometry quantum).1 = (state.convert adapter geometry quantum).1 ∧
      (state.convert adapter geometry quantum).2.Alike
        (other.convert adapter geometry quantum).2 := by
  obtain ⟨same, classified⟩ := alike.classifyGaps adapter
  unfold ConsumerState.convert
  generalize state.classifyGaps adapter = one at same classified ⊢
  generalize other.classifyGaps adapter = two at same classified ⊢
  obtain ⟨ok, one⟩ := one
  obtain ⟨ok', two⟩ := two
  obtain rfl : ok' = ok := same
  cases ok' with
  | false => exact ⟨rfl, classified⟩
  | true => exact classified.runConverter quantum

theorem Alike.converted (alike : state.Alike other) (quantum readable : Nat) :
    (other.converted adapter geometry quantum readable).1 =
        (state.converted adapter geometry quantum readable).1 ∧
      (state.converted adapter geometry quantum readable).2.Alike
        (other.converted adapter geometry quantum readable).2 := by
  cases alike with
  | mk left hides =>
      have moved (converter : S) : Alike { state with converter := converter }
          { state.withLeftover left with converter := converter } :=
        .mk left ⟨hides.input, hides.output, hides.cache, hides.plc⟩
      have handle : (state.withLeftover left).converter = state.converter := rfl
      have waiting : (state.withLeftover left).inputPending = state.inputPending := rfl
      unfold ConsumerState.converted
      rw [handle]
      generalize adapter.converterQueuedInput state.converter = reply
      obtain ⟨queued, converter⟩ := reply
      cases queued with
      | none => exact ⟨rfl, moved converter⟩
      | some queued => exact ((moved converter).steered _).convert quantum

theorem Alike.refilled [Zero F] (adapter : Adapter F W S) (geometry : Geometry)
    (alike : state.Alike other) (slots : List (SourceSample F)) :
    (other.refilled adapter geometry slots).2 = (state.refilled adapter geometry slots).2 ∧
      (other.refilled adapter geometry slots).1.1 =
        (state.refilled adapter geometry slots).1.1 ∧
      (state.refilled adapter geometry slots).1.2.Alike
        (other.refilled adapter geometry slots).1.2 := by
  have flags {first second : ConsumerState F S W} (alike : first.Alike second) :
      second.resetFailed = first.resetFailed ∧ second.outputPending = first.outputPending ∧
        second.inputPending = first.inputPending ∧ second.zeroProgress = first.zeroProgress := by
    cases alike with
    | mk left hides => exact ⟨rfl, rfl, rfl, rfl⟩
  have wanted : desiredInput geometry (min geometry.capacity converterQuantum) other -
      other.inputPending =
        desiredInput geometry (min geometry.capacity converterQuantum) state -
          state.inputPending := by
    simp only [desiredInput, flags alike]
  unfold ConsumerState.refilled
  simp only [wanted, (flags alike).1, (flags alike).2.1]
  by_cases failed : state.resetFailed = true
  · rw [if_pos failed, if_pos failed]
    exact ⟨rfl, rfl, alike⟩
  rw [if_neg failed, if_neg failed]
  by_cases pending : state.outputPending ≠ 0
  · rw [if_pos pending, if_pos pending]
    exact ⟨rfl, rfl, alike⟩
  rw [if_neg pending, if_neg pending]
  generalize desiredInput geometry (min geometry.capacity converterQuantum) state -
    state.inputPending = wanted
  obtain ⟨sameSlots, sameTaken, taken⟩ :=
    (alike.makeInputSpace wanted geometry.capacity).takeAll geometry.gapCapacity wanted slots
  rw [sameSlots, sameTaken]
  generalize (state.makeInputSpace wanted geometry.capacity).takeAll geometry.gapCapacity wanted
    slots = one at taken ⊢
  generalize (other.makeInputSpace wanted geometry.capacity).takeAll geometry.gapCapacity wanted
    slots = two at taken ⊢
  have padded := taken.padInput (min geometry.capacity converterQuantum)
  by_cases ok : one.1.1 = true
  · rw [if_pos ok, if_pos ok]
    simp only [(flags padded).2.2.1, (flags padded).2.2.2]
    by_cases starved : (one.1.2.padInput (min geometry.capacity converterQuantum)).inputPending
        = 0 ∧ (one.1.2.padInput (min geometry.capacity converterQuantum)).zeroProgress = true
    · rw [if_pos starved, if_pos starved]
      exact ⟨rfl, rfl, padded⟩
    · rw [if_neg starved, if_neg starved]
      exact ⟨rfl, padded.converted _ _⟩
  · rw [if_neg ok, if_neg ok]
    exact ⟨rfl, rfl, taken⟩

theorem Alike.refilledTail [Zero F] (adapter : Adapter F W S) (geometry : Geometry)
    (alike : state.Alike other) (limit : Nat)
    (result : RefillResult) (slots : List (SourceSample F)) :
    (other.refilledTail adapter geometry limit result slots).2 =
        (state.refilledTail adapter geometry limit result slots).2 ∧
      (other.refilledTail adapter geometry limit result slots).1.1 =
        (state.refilledTail adapter geometry limit result slots).1.1 ∧
      (state.refilledTail adapter geometry limit result slots).1.2.Alike
        (other.refilledTail adapter geometry limit result slots).1.2 := by
  induction limit generalizing state other result slots with
  | zero => exact ⟨rfl, rfl, alike⟩
  | succ limit ih =>
      unfold ConsumerState.refilledTail
      by_cases starved : result = .starved
      · rw [if_pos starved, if_pos starved]
        obtain ⟨sameSlots, same, again⟩ := alike.refilled adapter geometry slots
        dsimp only
        rw [sameSlots, same]
        exact ih again _ _
      · rw [if_neg starved, if_neg starved]
        exact ⟨rfl, rfl, alike⟩

theorem converted_ready (quantum readable : Nat)
    (ready : (state.converted adapter geometry quantum readable).1 = .ready) :
    (state.converted adapter geometry quantum readable).2.outputPending ≠ 0 := by
  unfold ConsumerState.converted at ready ⊢
  generalize adapter.converterQueuedInput state.converter = reply at ready ⊢
  obtain ⟨queued, converter⟩ := reply
  cases queued with
  | none => cases ready
  | some queued =>
      have ran := (({ state with converter := converter } : ConsumerState F S W).steered geometry
        (occupancyOf readable state.inputPending queued)).convert_cases adapter geometry quantum
      dsimp only at ready ⊢
      generalize ConsumerState.convert adapter geometry quantum _ = converted at ready ran ⊢
      obtain ⟨result, converted⟩ := converted
      cases ran with
      | rejected | unplaced => cases ready
      | absorbed result stuck => exact (stuck ready).elim
      | generated gaps missing converter output used usedLe count positive => exact positive.ne'

theorem refilled_ready [Zero F] {slots : List (SourceSample F)}
    (ready : (state.refilled adapter geometry slots).1.1 = .ready) :
    (state.refilled adapter geometry slots).1.2.outputPending ≠ 0 := by
  unfold ConsumerState.refilled at ready ⊢
  by_cases failed : state.resetFailed = true
  · rw [if_pos failed] at ready
    cases ready
  rw [if_neg failed] at ready ⊢
  by_cases pending : state.outputPending ≠ 0
  · rw [if_pos pending]
    exact pending
  rw [if_neg pending] at ready ⊢
  dsimp only at ready ⊢
  generalize ConsumerState.takeAll geometry.gapCapacity _ _ slots = taken at ready ⊢
  by_cases ok : taken.1.1 = true
  · rw [if_pos ok] at ready ⊢
    split at ready
    · cases ready
    · rename_i runs
      rw [if_neg runs]
      exact converted_ready _ _ ready
  · rw [if_neg ok] at ready
    cases ready

theorem refilledTail_ready [Zero F] (limit : Nat) {result : RefillResult}
    {slots : List (SourceSample F)} (cached : result = .ready → state.outputPending ≠ 0)
    (ready : (state.refilledTail adapter geometry limit result slots).1.1 = .ready) :
    (state.refilledTail adapter geometry limit result slots).1.2.outputPending ≠ 0 := by
  induction limit generalizing state result slots with
  | zero => exact cached ready
  | succ limit ih =>
      unfold ConsumerState.refilledTail at ready ⊢
      by_cases starved : result = .starved
      · rw [if_pos starved] at ready ⊢
        exact ih refilled_ready ready
      · rw [if_neg starved] at ready ⊢
        exact cached ready

end Conversion

theorem Hides.cacheSourcePosition {left : Leftover F} (hides : state.Hides left)
    (cached : state.outputPending ≠ 0) :
    (state.withLeftover left).cacheSourcePosition = state.cacheSourcePosition := by
  obtain ⟨start, stop⟩ := hides.cache cached
  unfold ConsumerState.cacheSourcePosition
  simp only [withLeftover, start, stop]

theorem Alike.cachePosition (alike : state.Alike other) (cached : state.outputPending ≠ 0) :
    other.cachePosition = state.cachePosition := by
  cases alike with
  | mk left hides =>
      unfold ConsumerState.cachePosition
      rw [hides.cacheSourcePosition cached]
      rfl

theorem Alike.draining (alike : state.Alike other) : other.Draining ↔ state.Draining := by
  cases alike with
  | mk left hides =>
      unfold Draining
      cases finiteEq : state.finite <;> simp [withLeftover, finiteEq]

theorem Alike.pastBoundary (alike : state.Alike other) (cached : state.outputPending ≠ 0) :
    other.PastBoundary ↔ state.PastBoundary := by
  cases alike with
  | mk left hides =>
      unfold PastBoundary
      rw [hides.cacheSourcePosition cached]
      cases finiteEq : state.finite <;> simp [withLeftover, finiteEq]

section Ends

variable [Binary32 F]

theorem Alike.popped (alike : state.Alike other) {result : RefillResult}
    (cached : result = .ready → state.outputPending ≠ 0) :
    (other.popped result).1 = (state.popped result).1 ∧
      (state.popped result).2.Alike (other.popped result).2 := by
  cases alike with
  | mk left hides =>
      unfold ConsumerState.popped
      by_cases ready : result = .ready
      · rw [if_pos ready, if_pos ready]
        have pending := cached ready
        have oldest := hides.output 0 (Nat.pos_of_ne_zero pending)
        rw [Nat.add_zero] at oldest
        unfold ConsumerState.nextCached
        dsimp only [withLeftover]
        refine ⟨by rw [oldest]; rfl, .mk left ⟨hides.input, fun index inside => ?_, fun _ =>
          hides.cache pending, hides.plc⟩⟩
        have more : state.outputPending - 1 ≠ 0 := Nat.ne_of_gt (Nat.zero_lt_of_lt inside)
        dsimp only at inside ⊢
        rw [if_neg more, Nat.add_assoc]
        exact hides.output (1 + index) (by omega)
      · rw [if_neg ready, if_neg ready]
        exact ⟨rfl, .mk left hides⟩

variable [Binary64 W] [Widening F W]

omit [Binary32 F] [Binary64 W] [Widening F W] in
theorem Alike.withPlc {left : Leftover F} (hides : state.Hides left)
    {plc plc' : Option (Plc F)} (same : Option.Rel Plc.Alike plc plc') :
    Alike { state with plc := plc } { state.withLeftover left with plc := plc' } :=
  .mk { left with plc := plc' } ⟨hides.input, hides.output, hides.cache, same⟩

theorem Alike.concealed (alike : state.Alike other) (input : Option F) :
    (other.concealed input).1 = (state.concealed input).1 ∧
      (state.concealed input).2.Alike (other.concealed input).2 := by
  cases alike with
  | mk left hides =>
      unfold ConsumerState.concealed
      have leftPlc : (state.withLeftover left).plc = left.plc := rfl
      have related := hides.plc
      rw [leftPlc]
      generalize left.plc = first at related ⊢
      generalize state.plc = second at related ⊢
      cases related with
      | none => exact ⟨rfl, .mk left hides⟩
      | some plcs =>
          obtain ⟨same, later⟩ := plcs.process (W := W) input
          exact ⟨same, Alike.withPlc hides (.some later)⟩

theorem Alike.emission (geometry : Geometry) (alike : state.Alike other) {result : RefillResult}
    (cached : result = .ready → state.outputPending ≠ 0) :
    (other.emission geometry result).input = (state.emission geometry result).input ∧
      (other.emission geometry result).rendered = (state.emission geometry result).rendered ∧
      (state.emission geometry result).state.Alike (other.emission geometry result).state := by
  have position : (if result = .ready then other.cachePosition else none) =
      if result = .ready then state.cachePosition else none := by
    split
    · rename_i ready
      exact alike.cachePosition (cached ready)
    · rfl
  have history {first second : ConsumerState F S W} (alike : first.Alike second) :
      second.muteHistory = first.muteHistory ∧ second.resetFailed = first.resetFailed := by
    cases alike with
    | mk left hides => exact ⟨rfl, rfl⟩
  obtain ⟨samePopped, popped⟩ := alike.popped cached
  unfold ConsumerState.emission
  dsimp only
  rw [position, (history alike).1, samePopped, (history popped).2]
  generalize (if result = .ready then state.cachePosition else none) = position
  generalize (if state.muteHistory.muted position then some 0 else (state.popped result).1) = input
  have output : ∃ sample : F × Bool, ∃ first second : ConsumerState F S W, first.Alike second ∧
      (if (state.popped result).2.resetFailed then ((0, false), (state.popped result).2)
        else (state.popped result).2.concealed input) = (sample, first) ∧
      (if (state.popped result).2.resetFailed then ((0, false), (other.popped result).2)
        else (other.popped result).2.concealed input) = (sample, second) := by
    obtain ⟨sameOutput, concealed⟩ := popped.concealed input
    split
    · exact ⟨_, _, _, popped, rfl, rfl⟩
    · exact ⟨_, _, _, concealed, rfl, Prod.ext sameOutput rfl⟩
  obtain ⟨sample, first, second, outputs, firstEq, secondEq⟩ := output
  rw [firstEq, secondEq]
  dsimp only
  cases outputs with
  | mk left hides =>
      unfold ConsumerState.delayPosition
      by_cases direct : geometry.lookahead = 0
      · rw [if_pos direct, if_pos direct]
        exact ⟨rfl, rfl, .mk left ⟨hides.input, hides.output, hides.cache, hides.plc⟩⟩
      · rw [if_neg direct, if_neg direct]
        exact ⟨rfl, rfl, .mk left ⟨hides.input, hides.output, hides.cache, hides.plc⟩⟩

omit [Binary64 W] [Widening F W] in
theorem Alike.release (geometry : Geometry) (alike : state.Alike other) (boundary : Finite)
    (token : Nat) :
    (other.release geometry { boundary with token := token }).1 =
        (state.release geometry boundary).1 ∧
      (state.release geometry boundary).2.Alike
        (other.release geometry { boundary with token := token }).2 := by
  cases alike with
  | mk left hides =>
      unfold ConsumerState.release drainLookahead
      dsimp only
      have leftPlc : (state.withLeftover left).plc = left.plc := rfl
      have related := hides.plc
      rw [leftPlc]
      generalize left.plc = first at related ⊢
      generalize state.plc = second at related ⊢
      cases related with
      | none =>
          exact ⟨rfl, .mk { left with token := token, plc := none }
            ⟨hides.input, hides.output, hides.cache, .none⟩⟩
      | some plcs =>
          obtain ⟨same, later⟩ := plcs.drainSample
          exact ⟨by rw [same]; rfl, .mk { left with token := token, plc := some _ }
            ⟨hides.input, hides.output, hides.cache, .some later⟩⟩

omit [Widening F W] in
theorem Alike.reset (alike : state.Alike other) (adapter : Adapter F W S) :
    (other.reset adapter).1 = (state.reset adapter).1 ∧
      (state.reset adapter).2.Alike (other.reset adapter).2 := by
  cases alike with
  | mk left hides =>
      refine ⟨rfl, .mk { left with plc := left.plc.map Plc.reset } ⟨fun index inside =>
        (Nat.not_lt_zero _ inside).elim, fun index inside => (Nat.not_lt_zero _ inside).elim,
          fun some => (some rfl).elim, ?_⟩⟩
      have related := hides.plc
      change Option.Rel Plc.Alike (state.plc.map Plc.reset) (left.plc.map Plc.reset)
      generalize left.plc = first at related ⊢
      generalize state.plc = second at related ⊢
      cases related with
      | none => exact .none
      | some plcs =>
          refine .some (Plc.alike_reset ?_)
          cases plcs <;> rfl

end Ends

end ConsumerState

end PcmRing
