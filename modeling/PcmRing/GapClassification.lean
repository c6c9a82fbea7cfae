import PcmRing.AtomicExits
import PcmRing.GapQueue

/-!
# Gap classification

Each output of a batch is mapped to a source position by interpolation.  A batch
is flagged as missing exactly when the slot at its position is a gap, as long as
the converter never moves its position back and no output reaches the input that
was not accepted yet.
-/

namespace PcmRing

open AtomicProgram TwoLapQueue

variable {F S W : Type}

/-- The slot at an index of a stream is a gap. -/
def MissingAt (line : List (SourceSample F)) (index : Nat) : Prop :=
  ∃ slot, (line)[index]? = some slot ∧ slot.missing = true

/-- The slot that a position lies in is a gap. -/
def MissingFrom (line : List (SourceSample F)) (position : Int) : Prop :=
  ∃ index : Nat, position / frameUnit = index ∧ MissingAt line index

theorem MissingAt.lt {line : List (SourceSample F)} {index : Nat} (missing : MissingAt line index) :
    index < line.length := by
  obtain ⟨slot, slotAt, -⟩ := missing
  exact (List.getElem?_eq_some_iff.mp slotAt).1

theorem missingAt_append {line : List (SourceSample F)} (more : List (SourceSample F))
    {index : Nat} (below : index < line.length) :
    MissingAt (line ++ more) index ↔ MissingAt line index := by
  unfold MissingAt
  rw [List.getElem?_append_left below]

/-- Whole delay frames take a position down to the frame it lies in. -/
theorem position_floor (accepted : Nat) {delay : Int} (nonneg : 0 ≤ delay) :
    ((accepted : Int) * frameUnit - delay) / frameUnit =
      (accepted : Int) - ceilDiv delay.toNat frameUnit := by
  unfold ceilDiv frameUnit
  push_cast
  omega

namespace ConsumerState

/-- Source position of an output of the cached batch. -/
def outputPosition (index : Nat) (state : ConsumerState F S W) : Int :=
  state.cacheStart + ((state.cacheEnd - state.cacheStart) * index).tdiv state.cacheCount

theorem cacheSourcePosition_eq (state : ConsumerState F S W) :
    state.cacheSourcePosition = state.outputPosition state.outputOffset := rfl

/-- The source frame that the converter stands in. -/
def frame (delay : S → Int) (state : ConsumerState F S W) : Int :=
  ((state.converterAccepted : Int) * frameUnit - delay state.converter) / frameUnit

end ConsumerState

/-- The delay behind a handle changes only while input is processed; then the
position does not move back, and every generated output is mapped below the
input accepted by then. -/
structure Adapter.Places [Binary64 W] (adapter : Adapter F W S) (delay : S → Int) : Prop where
  reports : ∀ handle answered, (adapter.converterInputDelay handle).1 = some answered →
    answered = delay handle
  inputDelay : ∀ handle, delay (adapter.converterInputDelay handle).2 = delay handle
  queuedInput : ∀ handle, delay (adapter.converterQueuedInput handle).2 = delay handle
  rejected : ∀ handle input outputLength ratio after,
    adapter.converterProcess handle input outputLength ratio = (none, after) →
      delay after ≤ delay handle
  forward : ∀ handle input outputLength ratio converted after,
    adapter.converterProcess handle input outputLength ratio = (some converted, after) →
      delay after ≤ delay handle + (converted.inputUsed : Int) * frameUnit
  below : ∀ handle input outputLength ratio converted after,
    adapter.converterProcess handle input outputLength ratio = (some converted, after) →
      ∀ index < converted.outputGenerated,
        (((converted.inputUsed : Int) * frameUnit + delay handle - delay after) * index).tdiv
          converted.outputGenerated < (converted.inputUsed : Int) * frameUnit + delay handle

/-- Some span of the queue holds an index. -/
def Listed (gaps : List GapSpan) (index : Nat) : Prop :=
  ∃ span ∈ gaps, span.start ≤ index ∧ index < span.stop

theorem listed_append (gaps more : List GapSpan) (index : Nat) :
    Listed (gaps ++ more) index ↔ Listed gaps index ∨ Listed more index := by
  simp only [Listed, List.mem_append, or_and_right, exists_or]

theorem listed_singleton (span : GapSpan) (index : Nat) :
    Listed [span] index ↔ span.start ≤ index ∧ index < span.stop := by
  simp only [Listed, List.mem_singleton, exists_eq_left]

theorem listed_extend {gapCapacity taken : Nat} {gaps extended : List GapSpan}
    (ordered : GapsOrdered taken gaps)
    (extendedEq : ConsumerState.extendGaps gapCapacity taken gaps = some extended)
    (index : Nat) : Listed extended index ↔ Listed gaps index ∨ index = taken := by
  have fresh : Listed [⟨taken, taken + 1⟩] index ↔ index = taken := by
    rw [listed_singleton]
    dsimp only
    omega
  unfold ConsumerState.extendGaps at extendedEq
  split at extendedEq
  · rename_i last lastEq
    obtain ⟨front, rfl⟩ := List.getLast?_eq_some_iff.mp lastEq
    have lastSpan := ordered.each last (by simp)
    split at extendedEq
    · rename_i touches
      cases extendedEq
      rw [List.dropLast_concat, listed_append, listed_append, listed_singleton, listed_singleton,
        or_assoc]
      refine or_congr_right ?_
      dsimp only
      omega
    · split at extendedEq
      · cases extendedEq
      · cases extendedEq
        rw [listed_append, fresh]
  · split at extendedEq
    · cases extendedEq
    · cases extendedEq
      rw [listed_append, fresh]

/-- The queue lists the gaps at and behind the converter's position, and every
cached output is classified by the slot it lies in. -/
structure Classified (delay : S → Int) (line : List (SourceSample F))
    (state : ConsumerState F S W) : Prop where
  taken_le : state.sourceTaken ≤ line.length
  unpadded : state.inputPadding = false →
    state.sourceAccepted + state.inputPending = state.sourceTaken ∧ state.paddingAccepted = 0
  padded : state.inputPadding = true → line.length = state.sourceTaken
  ordered : GapsOrdered state.sourceTaken state.gaps
  listed : ∀ index < state.sourceTaken, state.frame delay ≤ index →
    (MissingAt line index ↔ Listed state.gaps index)
  batch : ∀ index, state.outputOffset ≤ index →
    index < state.outputOffset + state.outputPending →
    state.outputPosition index < (state.converterAccepted : Int) * frameUnit ∧
      (state.outputMissing = true ↔ MissingFrom line (state.outputPosition index))

namespace Classified

variable {delay : S → Int} {line : List (SourceSample F)} {state : ConsumerState F S W}

/-- Only the counts, the queue, the cache and the reported delay matter. -/
theorem agree {other : ConsumerState F S W} (classified : Classified delay line state)
    (countsEq : other.sourceTaken = state.sourceTaken ∧
      other.sourceAccepted = state.sourceAccepted ∧
      other.paddingAccepted = state.paddingAccepted ∧
      other.inputPending = state.inputPending ∧ other.inputPadding = state.inputPadding)
    (delayEq : delay other.converter = delay state.converter) (gapsEq : other.gaps = state.gaps)
    (cacheEq : other.outputOffset = state.outputOffset ∧
      other.outputPending = state.outputPending ∧ other.outputMissing = state.outputMissing ∧
      other.cacheStart = state.cacheStart ∧ other.cacheEnd = state.cacheEnd ∧
      other.cacheCount = state.cacheCount) : Classified delay line other := by
  obtain ⟨takenEq, acceptedEq, paddingEq, pendingEq, flagEq⟩ := countsEq
  obtain ⟨offsetEq, cachedEq, missingEq, startEq, endEq, countEq⟩ := cacheEq
  have acceptedSame : other.converterAccepted = state.converterAccepted := by
    unfold ConsumerState.converterAccepted
    rw [acceptedEq, paddingEq]
  have frameSame : other.frame delay = state.frame delay := by
    unfold ConsumerState.frame
    rw [acceptedSame, delayEq]
  have positionSame (index : Nat) : other.outputPosition index = state.outputPosition index := by
    unfold ConsumerState.outputPosition
    rw [startEq, endEq, countEq]
  refine ⟨?_, ?_, ?_, ?_, ?_, ?_⟩
  · rw [takenEq]
    exact classified.taken_le
  · rw [flagEq, acceptedEq, pendingEq, takenEq, paddingEq]
    exact classified.unpadded
  · rw [flagEq, takenEq]
    exact classified.padded
  · rw [takenEq, gapsEq]
    exact classified.ordered
  · rw [takenEq, frameSame, gapsEq]
    exact classified.listed
  · rw [offsetEq, cachedEq, acceptedSame, missingEq]
    intro index low high
    rw [positionSame]
    exact classified.batch index low high

/-- Slots that are not taken yet change nothing, unless zeros follow. -/
theorem extend (classified : Classified delay line state) (unpadded : state.inputPadding = false)
    (more : List (SourceSample F)) : Classified delay (line ++ more) state := by
  have inside {index : Nat} (below : index < state.sourceTaken) : index < line.length :=
    below.trans_le classified.taken_le
  have accepted : state.converterAccepted ≤ state.sourceTaken := by
    have sum := classified.unpadded unpadded
    unfold ConsumerState.converterAccepted
    omega
  refine
    { classified with
      taken_le := classified.taken_le.trans (by simp)
      padded := fun padding => (Bool.noConfusion (unpadded.symm.trans padding))
      listed := fun index below reached => ?_
      batch := fun index low high => ?_ }
  · rw [missingAt_append more (inside below)]
    exact classified.listed index below reached
  · obtain ⟨behind, flag⟩ := classified.batch index low high
    refine ⟨behind, flag.trans ?_⟩
    unfold MissingFrom
    refine exists_congr fun place => and_congr_right fun placeEq => ?_
    refine (missingAt_append more (inside ?_)).symm
    have lower := Int.ediv_mul_le (state.outputPosition index)
      (show (frameUnit : Int) ≠ 0 by decide)
    rw [placeEq] at lower
    have below : (place : Int) * frameUnit < (state.converterAccepted : Int) * frameUnit :=
      Int.lt_of_le_of_lt lower behind
    have frames := Int.lt_of_mul_lt_mul_right below (by decide)
    omega

theorem acceptSource (classified : Classified delay line state)
    (unpadded : state.inputPadding = false) {gapCapacity : Nat} {slot : SourceSample F}
    (slotAt : (line)[state.sourceTaken]? = some slot)
    (accepted : (state.acceptSource gapCapacity slot).1 = true) :
    Classified delay line (state.acceptSource gapCapacity slot).2 := by
  have fenced : ∃ base fault, (state.fence slot.stamp).2 = { state with
      sourceBase := base, muteFault := fault } := by
    rcases state.fence_cases slot.stamp with
      ⟨-, fenced⟩ | ⟨mark, -, -, fenced⟩ | ⟨mark, -, -, fenced⟩ <;> rw [fenced] <;>
      exact ⟨_, _, rfl⟩
  obtain ⟨base, fault, fencedEq⟩ := fenced
  rcases state.acceptSource_cases gapCapacity slot with
    ⟨gaps, -, grows, resultEq⟩ | ⟨-, resultEq⟩ | ⟨-, -, -, resultEq⟩
  · rw [resultEq, fencedEq]
    have missing : MissingAt line state.sourceTaken ↔ slot.missing = true := by
      unfold MissingAt
      rw [slotAt]
      exact ⟨fun ⟨other, same, flag⟩ => Option.some.inj same ▸ flag, fun flag => ⟨slot, rfl, flag⟩⟩
    have unlisted : ¬Listed state.gaps state.sourceTaken := by
      rintro ⟨span, member, -, beyond⟩
      exact Nat.not_lt.mpr (classified.ordered.each span member).2 beyond
    obtain ⟨ordered, lists⟩ : GapsOrdered (state.sourceTaken + 1) gaps ∧ ∀ index,
        Listed gaps index ↔
          Listed state.gaps index ∨ index = state.sourceTaken ∧ slot.missing = true := by
      split at grows
      · rename_i flag
        refine ⟨classified.ordered.extend grows, fun index => ?_⟩
        rw [listed_extend classified.ordered grows, flag]
        simp only [and_true]
      · rename_i flag
        rw [grows]
        refine ⟨classified.ordered.mono (Nat.le_succ _), fun index => ?_⟩
        simp only [flag, and_false, or_false, Bool.false_eq_true]
    refine
      { taken_le := (List.getElem?_eq_some_iff.mp slotAt).1
        unpadded := fun _ => ?_
        padded := fun padding => (Bool.noConfusion (unpadded.symm.trans padding))
        ordered := ordered, listed := fun index below reached => ?_
        batch := classified.batch }
    · obtain ⟨sum, none⟩ := classified.unpadded unpadded
      exact ⟨congrArg (· + 1) sum, none⟩
    · change index < state.sourceTaken + 1 at below
      change _ ↔ Listed gaps index
      rw [lists]
      rcases Nat.lt_succ_iff_lt_or_eq.mp below with earlier | rfl
      · rw [classified.listed index earlier reached]
        exact ⟨.inl, fun either => either.resolve_right fun last => earlier.ne last.1⟩
      · rw [missing]
        exact ⟨fun flag => .inr ⟨rfl, flag⟩, fun either => (either.resolve_left unlisted).2⟩
  · rw [resultEq] at accepted
    cases accepted
  · rw [resultEq] at accepted
    cases accepted

end Classified

section Conversion

variable [Binary64 W] {adapter : Adapter F W S} {delay : S → Int}
  {line : List (SourceSample F)} {state : ConsumerState F S W}

omit [Binary64 W] in
/-- With an empty cache only the counts and the queue have to be judged. -/
theorem Classified.uncached {other : ConsumerState F S W}
    (classified : Classified delay line state) (empty : other.outputPending = 0)
    (countsEq : other.sourceTaken = state.sourceTaken ∧
      other.sourceAccepted = state.sourceAccepted ∧
      other.paddingAccepted = state.paddingAccepted ∧
      other.inputPending = state.inputPending ∧ other.inputPadding = state.inputPadding)
    (delayLe : delay other.converter ≤ delay state.converter)
    (fewer : other.gaps.Sublist state.gaps)
    (kept : ∀ index : Nat, state.frame delay ≤ index → Listed state.gaps index →
      Listed other.gaps index) : Classified delay line other := by
  obtain ⟨takenEq, acceptedEq, paddingEq, pendingEq, flagEq⟩ := countsEq
  have frameLe : state.frame delay ≤ other.frame delay := by
    unfold ConsumerState.frame ConsumerState.converterAccepted
    rw [acceptedEq, paddingEq]
    exact Int.ediv_le_ediv (by decide) (by omega)
  refine ⟨?_, ?_, ?_, ?_, fun index below reached => ?_, fun index low high => ?_⟩
  · rw [takenEq]
    exact classified.taken_le
  · rw [flagEq, acceptedEq, pendingEq, takenEq, paddingEq]
    exact classified.unpadded
  · rw [flagEq, takenEq]
    exact classified.padded
  · rw [takenEq]
    exact classified.ordered.sublist fewer
  · rw [takenEq] at below
    have before := frameLe.trans reached
    rw [classified.listed index below before]
    refine ⟨kept index before, ?_⟩
    rintro ⟨span, member, inside⟩
    exact ⟨span, fewer.subset member, inside⟩
  · omega

omit [Binary64 W] in
theorem listed_unpassed (gaps : List GapSpan) {position index : Nat} (reached : position ≤ index)
    (listed : Listed gaps index) :
    Listed (gaps.dropWhile fun span => span.stop ≤ position) index := by
  induction gaps with
  | nil => exact listed
  | cons first rest ih =>
      obtain ⟨span, member, low, high⟩ := listed
      rw [List.dropWhile_cons]
      split
      · rename_i passed
        have passed : first.stop ≤ position := by simpa using passed
        rcases List.mem_cons.mp member with rfl | later
        · omega
        · exact ih ⟨span, later, low, high⟩
      · exact ⟨span, member, low, high⟩

omit [Binary64 W] in
/-- Among what is not passed only the first span can hold the position. -/
theorem head_holds {taken position : Nat} {gaps : List GapSpan}
    (ordered : GapsOrdered taken gaps) :
    ((gaps.dropWhile fun span => span.stop ≤ position).head?.any fun span =>
        decide (span.start ≤ position)) = true ↔
      ∃ span ∈ gaps.dropWhile (fun span => span.stop ≤ position),
        (span.start : Int) ≤ position ∧ (position : Int) < span.stop := by
  have behind := ordered.unpassed position
  have left := ordered.sublist (List.dropWhile_sublist fun span => decide (span.stop ≤ position))
  generalize gaps.dropWhile (fun span => decide (span.stop ≤ position)) = rest at behind left ⊢
  cases rest with
  | nil => simp
  | cons first later =>
      rw [List.head?_cons, Option.any_some, decide_eq_true_iff]
      constructor
      · intro low
        exact ⟨first, List.mem_cons_self, Int.ofNat_le.mpr low,
          Int.ofNat_lt.mpr (behind first List.mem_cons_self)⟩
      · rintro ⟨span, member, low, -⟩
        rcases List.mem_cons.mp member with rfl | inside
        · exact Int.ofNat_le.mp low
        · have start := (List.pairwise_cons.mp left.apart).1 span inside
          have stop := behind first List.mem_cons_self
          omega

omit [Binary64 W] in
/-- The flag says whether the converter stands in a listed slot. -/
def FlagExact (delay : S → Int) (state : ConsumerState F S W) : Prop :=
  state.outputMissing = true ↔
    ∃ span ∈ state.gaps, (span.start : Int) ≤ state.frame delay ∧ state.frame delay < span.stop

theorem classifyGaps_classified (places : adapter.Places delay)
    (classified : Classified delay line state) (empty : state.outputPending = 0) :
    Classified delay line (state.classifyGaps adapter).2 ∧
      (state.classifyGaps adapter).2.outputPending = 0 ∧
      ((state.classifyGaps adapter).1 = true → FlagExact delay (state.classifyGaps adapter).2) := by
  have same := places.inputDelay state.converter
  have reported := places.reports state.converter
  have nonneg {answered : Int} : (adapter.converterInputDelay state.converter).1 = some answered →
      0 ≤ answered := adapter.converterInputDelay_nonneg
  unfold ConsumerState.classifyGaps
  dsimp only
  split
  · rename_i none
    refine ⟨classified.uncached empty ⟨rfl, rfl, rfl, rfl, rfl⟩ le_rfl (.refl _)
      fun _ _ listed => listed, empty, fun _ => ?_⟩
    unfold FlagExact
    rw [none]
    simp
  · generalize replyEq : adapter.converterInputDelay state.converter = reply at same reported nonneg
    obtain ⟨answer, converter⟩ := reply
    cases answer with
    | none =>
        exact ⟨classified.uncached empty ⟨rfl, rfl, rfl, rfl, rfl⟩ same.le (.refl _)
          fun _ _ listed => listed, empty, fun failed => by cases failed⟩
    | some answered =>
        have exact := reported answered rfl
        have floor : state.frame delay =
            (state.converterAccepted : Int) - ceilDiv answered.toNat frameUnit := by
          unfold ConsumerState.frame
          rw [← exact, position_floor _ (nonneg rfl)]
        have still (gaps : List GapSpan) (missing : Bool) : ConsumerState.frame delay { state with
            converter := converter, gaps := gaps, outputMissing := missing } =
              state.frame delay := by
          change ((state.converterAccepted : Int) * frameUnit - delay converter) / frameUnit = _
          rw [same]
          rfl
        dsimp only
        split
        · rename_i before
          change state.converterAccepted < ceilDiv answered.toNat frameUnit at before
          refine ⟨classified.uncached empty ⟨rfl, rfl, rfl, rfl, rfl⟩ same.le (.refl _)
            fun _ _ listed => listed, empty, fun _ => ?_⟩
          unfold FlagExact
          rw [still state.gaps false, floor]
          refine ⟨fun flag => Bool.noConfusion flag, ?_⟩
          rintro ⟨span, -, low, -⟩
          omega
        · rename_i reached
          change ¬state.converterAccepted < ceilDiv answered.toNat frameUnit at reached
          have position : state.frame delay =
              ((state.converterAccepted - ceilDiv answered.toNat frameUnit : Nat) : Int) := by
            omega
          refine ⟨classified.uncached empty ⟨rfl, rfl, rfl, rfl, rfl⟩ same.le
            (List.dropWhile_sublist _) fun index behind listed => ?_, empty, fun _ => ?_⟩
          · rw [position] at behind
            exact listed_unpassed state.gaps (Int.ofNat_le.mp behind) listed
          · unfold FlagExact
            rw [still, position]
            exact head_holds classified.ordered

omit [Binary64 W] in
theorem Classified.consumeInput (classified : Classified delay line state)
    (empty : state.outputPending = 0) {used : Nat} (usedLe : used ≤ state.inputPending)
    {converter : S} {output : Nat → F}
    (delayLe : delay converter ≤ delay state.converter + (used : Int) * frameUnit) :
    Classified delay line (ConsumerState.consumeInput used
      { state with converter := converter, output := output }) := by
  have frameLe : state.frame delay ≤ (ConsumerState.consumeInput used
      { state with converter := converter, output := output }).frame delay := by
    unfold ConsumerState.frame
    rw [ConsumerState.converterAccepted_consumeInput]
    refine Int.ediv_le_ediv (by decide) ?_
    change (state.converterAccepted : Int) * frameUnit - delay state.converter ≤
      ((state.converterAccepted + used : Nat) : Int) * frameUnit - delay converter
    push_cast
    rw [Int.add_mul]
    omega
  refine ⟨classified.taken_le, fun unpadded => ?_, classified.padded, classified.ordered,
    fun index below reached => classified.listed index below (frameLe.trans reached),
    fun index low high => ?_⟩
  · change state.inputPadding = false at unpadded
    obtain ⟨sum, none⟩ := classified.unpadded unpadded
    simp only [ConsumerState.consumeInput, unpadded, Bool.false_eq_true, if_false]
    exact ⟨by omega, none⟩
  · change index < state.outputOffset + state.outputPending at high
    change state.outputOffset ≤ index at low
    omega

omit [Binary64 W] in
/-- Slots behind the accepted input are not in the stream while zeros follow it. -/
theorem Classified.missing_lt (classified : Classified delay line state) {index : Nat}
    (accepted : index < state.converterAccepted + state.inputPending)
    (missing : MissingAt line index) : index < state.sourceTaken := by
  cases padding : state.inputPadding with
  | false =>
      have sum := classified.unpadded padding
      unfold ConsumerState.converterAccepted at accepted
      omega
  | true =>
      rw [← classified.padded padding]
      exact missing.lt

omit [Binary64 W] in
/-- Every output of a batch is classified by the flag it was generated under. -/
theorem FlagExact.batch (flag : FlagExact delay state) (classified : Classified delay line state)
    {used count : Nat} (usedLe : used ≤ state.inputPending) {after : Int}
    (countLe : state.gaps ≠ [] → count ≤ 1)
    (forward : after ≤ delay state.converter + (used : Int) * frameUnit) {index : Nat}
    (inside : index < count)
    (below : (((used : Int) * frameUnit + delay state.converter - after) * index).tdiv count <
      (used : Int) * frameUnit + delay state.converter) :
    let position := (state.converterAccepted : Int) * frameUnit - delay state.converter +
      (((used : Int) * frameUnit + delay state.converter - after) * index).tdiv count
    position < ((state.converterAccepted + used : Nat) : Int) * frameUnit ∧
      (state.outputMissing = true ↔ MissingFrom line position) := by
  intro position
  unfold FlagExact at flag
  have step : 0 ≤ (((used : Int) * frameUnit + delay state.converter - after) *
      index).tdiv count :=
    Int.tdiv_nonneg (Int.mul_nonneg (by omega) (Int.natCast_nonneg _)) (Int.natCast_nonneg _)
  have reached : position < ((state.converterAccepted + used : Nat) : Int) * frameUnit := by
    push_cast
    rw [Int.add_mul]
    omega
  have frameLe : state.frame delay ≤ position / frameUnit :=
    Int.ediv_le_ediv (by decide) (by omega)
  -- A slot at the position was taken, so the queue knows about it.
  have known {place : Nat} (placeEq : position / frameUnit = place)
      (missing : MissingAt line place) : place < state.sourceTaken := by
    refine classified.missing_lt ?_ missing
    have lower := Int.ediv_mul_le position (show (frameUnit : Int) ≠ 0 by decide)
    rw [placeEq] at lower
    have frames := Int.lt_of_mul_lt_mul_right (Int.lt_of_le_of_lt lower reached) (by decide)
    omega
  refine ⟨reached, ?_⟩
  by_cases none : state.gaps = []
  · have clear : ¬state.outputMissing = true := by
      rw [flag, none]
      rintro ⟨span, member, -⟩
      cases member
    refine ⟨fun missing => (clear missing).elim, ?_⟩
    rintro ⟨place, placeEq, missing⟩
    obtain ⟨span, member, -⟩ := (classified.listed place (known placeEq missing)
      (placeEq ▸ frameLe)).mp missing
    rw [none] at member
    cases member
  · have single : index = 0 := by
      have one := countLe none
      omega
    have stands : position / frameUnit = state.frame delay := by
      subst single
      change ((state.converterAccepted : Int) * frameUnit - delay state.converter +
        (((used : Int) * frameUnit + delay state.converter - after) * ((0 : Nat) : Int)).tdiv
          count) / frameUnit = _
      rw [Int.natCast_zero, Int.mul_zero, Int.zero_tdiv, Int.add_zero]
      rfl
    rw [flag]
    constructor
    · rintro ⟨span, member, low, high⟩
      obtain ⟨place, placeEq⟩ := Int.eq_ofNat_of_zero_le
        (Int.le_trans (Int.natCast_nonneg span.start) low)
      have taken := (classified.ordered.each span member).2
      rw [placeEq] at low high
      refine ⟨place, stands.trans placeEq, (classified.listed place (by omega) placeEq.le).mpr
        ⟨span, member, by omega, by omega⟩⟩
    · rintro ⟨place, placeEq, missing⟩
      obtain ⟨span, member, low, high⟩ := (classified.listed place (known placeEq missing)
        (placeEq ▸ frameLe)).mp missing
      rw [← stands, placeEq]
      exact ⟨span, member, by omega, by omega⟩

variable {geometry : Geometry}

omit [Binary64 W] in
theorem Classified.unready (classified : Classified delay line state) {used generated : Nat}
    (none : generated = 0) :
    Classified delay line (state.finishConversion geometry used generated).2 := by
  unfold ConsumerState.finishConversion
  dsimp only
  rw [if_neg (not_not.mpr none)]
  split
  · exact classified.uncached none ⟨rfl, rfl, rfl, rfl, rfl⟩ le_rfl (.refl _)
      fun _ _ listed => listed
  · exact classified.uncached none ⟨rfl, rfl, rfl, rfl, rfl⟩ le_rfl (.refl _)
      fun _ _ listed => listed

/-- The batch that one conversion generates is classified, whatever its size. -/
theorem runConverter_classified (places : adapter.Places delay)
    (classified : Classified delay line state) (flag : FlagExact delay state)
    (empty : state.outputPending = 0) (quantum : Nat) :
    Classified delay line (state.runConverter adapter geometry quantum).2 := by
  have same := places.inputDelay state.converter
  have reported := places.reports state.converter
  unfold ConsumerState.runConverter
  dsimp only
  generalize replyEq : adapter.converterInputDelay state.converter = reply at same reported
  obtain ⟨answer, converter⟩ := reply
  cases answer with
  | none =>
      exact classified.uncached empty ⟨rfl, rfl, rfl, rfl, rfl⟩ same.le (.refl _)
        fun _ _ listed => listed
  | some answered =>
      have answeredEq := reported answered rfl
      dsimp only at same ⊢
      generalize processedEq : adapter.converterProcess converter state.offered
        (if state.gaps = [] then quantum else 1) state.ratio = processed
      obtain ⟨answer, converter'⟩ := processed
      cases answer with
      | none =>
          have delayLe := (places.rejected _ _ _ _ _ processedEq).trans same.le
          exact classified.uncached empty ⟨rfl, rfl, rfl, rfl, rfl⟩ delayLe (.refl _)
            fun _ _ listed => listed
      | some converted =>
          have forward := places.forward _ _ _ _ _ _ processedEq
          have below := places.below _ _ _ _ _ _ processedEq
          obtain ⟨usedLe, countLe⟩ :=
            adapter.converterProcess_bounds (congrArg Prod.fst processedEq)
          rw [ConsumerState.offered_length] at usedLe
          rw [same] at forward below
          dsimp only
          generalize (fun index => if index < converted.outputGenerated then
            converted.output index else state.output index) = output
          have fed : Classified delay line (ConsumerState.consumeInput converted.inputUsed
              { state with converter := converter', output := output }) :=
            classified.consumeInput empty usedLe forward
          have fedEmpty : (ConsumerState.consumeInput converted.inputUsed
              { state with converter := converter', output := output }).outputPending = 0 := empty
          have handleEq : (ConsumerState.consumeInput converted.inputUsed
              { state with converter := converter', output := output }).converter =
                converter' := rfl
          have acceptedEq := ConsumerState.converterAccepted_consumeInput
            { state with converter := converter', output := output } converted.inputUsed
          have gapsEq : (ConsumerState.consumeInput converted.inputUsed
              { state with converter := converter', output := output }).gaps = state.gaps := rfl
          have flagEq : (ConsumerState.consumeInput converted.inputUsed
              { state with converter := converter', output := output }).outputMissing =
                state.outputMissing := rfl
          generalize ConsumerState.consumeInput converted.inputUsed
            { state with converter := converter', output := output } = accepted
              at fed fedEmpty handleEq acceptedEq gapsEq flagEq ⊢
          unfold ConsumerState.recordCache
          by_cases none : converted.outputGenerated = 0
          · rw [if_pos none]
            exact fed.unready none
          rw [if_neg none]
          have again := places.inputDelay accepted.converter
          have reportedAgain := places.reports accepted.converter
          generalize againEq : adapter.converterInputDelay accepted.converter = reply
            at again reportedAgain
          obtain ⟨answer, converter''⟩ := reply
          cases answer with
          | none =>
              exact fed.uncached fedEmpty ⟨rfl, rfl, rfl, rfl, rfl⟩ again.le (.refl _)
                fun _ _ listed => listed
          | some answered' =>
              have answeredEq' := (reportedAgain answered' rfl).trans (congrArg delay handleEq)
              dsimp only
              split
              · rename_i placed placedEq
                split at placedEq
                · cases placedEq
                  exact fed.uncached fedEmpty ⟨rfl, rfl, rfl, rfl, rfl⟩ again.le (.refl _)
                    fun _ _ listed => listed
                · cases placedEq
              · rename_i placed placedEq
                split at placedEq
                · cases placedEq
                · cases placedEq
                  unfold ConsumerState.finishConversion
                  dsimp only
                  rw [if_pos none]
                  have frameEq : accepted.frame delay =
                      ((accepted.converterAccepted : Int) * frameUnit - delay converter'') /
                        frameUnit := by
                    unfold ConsumerState.frame
                    rw [again]
                  refine ⟨fed.taken_le, fed.unpadded, fed.padded, fed.ordered,
                    fun index under reached => fed.listed index under (frameEq.le.trans reached),
                    fun index low high => ?_⟩
                  have inside : index < converted.outputGenerated := by
                    change index < 0 + converted.outputGenerated at high
                    omega
                  have exact := flag.batch classified usedLe (fun some => by
                    rw [if_neg some] at countLe
                    exact countLe) forward inside (below index inside)
                  have acceptedEq : accepted.converterAccepted =
                      state.converterAccepted + converted.inputUsed := acceptedEq
                  have span : (accepted.converterAccepted : Int) * frameUnit - answered' -
                      ((state.converterAccepted : Int) * frameUnit - answered) =
                        (converted.inputUsed : Int) * frameUnit + delay state.converter -
                          delay converter' := by
                    rw [acceptedEq, answeredEq, answeredEq']
                    push_cast
                    rw [Int.add_mul]
                    omega
                  have positionEq : (state.converterAccepted : Int) * frameUnit - answered +
                      (((accepted.converterAccepted : Int) * frameUnit - answered' -
                        ((state.converterAccepted : Int) * frameUnit - answered)) *
                          index).tdiv converted.outputGenerated =
                      (state.converterAccepted : Int) * frameUnit - delay state.converter +
                        (((converted.inputUsed : Int) * frameUnit + delay state.converter -
                          delay converter') * index).tdiv converted.outputGenerated := by
                    rw [span, answeredEq]
                  change (state.converterAccepted : Int) * frameUnit - answered +
                      (((accepted.converterAccepted : Int) * frameUnit - answered' -
                        ((state.converterAccepted : Int) * frameUnit - answered)) *
                          index).tdiv converted.outputGenerated <
                        (accepted.converterAccepted : Int) * frameUnit ∧
                    (accepted.outputMissing = true ↔ MissingFrom line
                      ((state.converterAccepted : Int) * frameUnit - answered +
                        (((accepted.converterAccepted : Int) * frameUnit - answered' -
                          ((state.converterAccepted : Int) * frameUnit - answered)) *
                            index).tdiv converted.outputGenerated))
                  rw [positionEq, acceptedEq, flagEq]
                  exact exact

theorem convert_classified (places : adapter.Places delay)
    (classified : Classified delay line state) (empty : state.outputPending = 0) (quantum : Nat) :
    Classified delay line (state.convert adapter geometry quantum).2 := by
  obtain ⟨kept, emptied, flag⟩ := classifyGaps_classified places classified empty
  unfold ConsumerState.convert
  generalize state.classifyGaps adapter = reply at kept emptied flag ⊢
  obtain ⟨ok, after⟩ := reply
  cases ok with
  | false => exact kept
  | true => exact runConverter_classified places kept (flag rfl) emptied quantum

end Conversion

namespace Classified

variable {delay : S → Int} {line : List (SourceSample F)} {state : ConsumerState F S W}

theorem makeInputSpace (classified : Classified delay line state) (additional capacity : Nat) :
    Classified delay line (state.makeInputSpace additional capacity) := by
  unfold ConsumerState.makeInputSpace
  split
  · exact classified
  · exact classified.agree ⟨rfl, rfl, rfl, rfl, rfl⟩ rfl rfl ⟨rfl, rfl, rfl, rfl, rfl, rfl⟩

theorem padInput [Zero F] (classified : Classified delay line state)
    (last : line.length = state.sourceTaken) (quantum : Nat) :
    Classified delay line (state.padInput quantum) := by
  unfold ConsumerState.padInput
  split
  · exact
      { classified with
        unpadded := fun unpadded => Bool.noConfusion unpadded
        padded := fun _ => last }
  · exact classified

theorem popped [Binary32 F] (classified : Classified delay line state) (result : RefillResult) :
    Classified delay line (state.popped result).2 := by
  unfold ConsumerState.popped
  split
  · refine { classified with batch := fun index low high => ?_ }
    unfold ConsumerState.nextCached at low high
    dsimp only at low high
    split at low
    · rename_i emptied
      rw [if_pos emptied] at high
      omega
    · rename_i left
      rw [if_neg left] at high
      exact classified.batch index (by omega) (by omega)
  · exact classified

end Classified

section Kept

variable [Binary32 F] [Binary64 W] {adapter : Adapter F W S} {geometry : Geometry}
  {delay : S → Int}

/-- The slots taken since the last reset. -/
def Ring.takenLine (ring : Ring F S W) : List (SourceSample F) :=
  ring.pcm.passed.drop ring.ledger.streamStart

/-- Unless a slot was refused, what was taken is classified. -/
def TakenClassified (delay : S → Int) (state : ConsumerState F S W) (ring : Ring F S W) : Prop :=
  ring.pcm.passed.length = ring.ledger.streamStart + state.sourceTaken →
    Classified delay ring.takenLine state

omit [Binary32 F] [Binary64 W] in
theorem takenLine_takeSlot (slot : SourceSample F) {ring : Ring F S W}
    (startLe : ring.ledger.streamStart ≤ ring.pcm.passed.length) :
    (takeSlot geometry slot ring).takenLine = ring.takenLine ++ [slot] := by
  unfold Ring.takenLine
  rw [takeSlot_passed]
  exact List.drop_append_of_le_length startLe

omit [Binary32 F] [Binary64 W] in
theorem takenLine_length {ring : Ring F S W} {taken : Nat}
    (whole : ring.pcm.passed.length = ring.ledger.streamStart + taken) :
    ring.takenLine.length = taken := by
  unfold Ring.takenLine
  rw [List.length_drop, whole, Nat.add_sub_cancel_left]

variable [Widening F W]

theorem classifiedKept (places : adapter.Places delay)
    {shape : List (SourceSample F) → List SlotNote → Prop} :
    LocalInvariant adapter geometry shape (TakenClassified (F := F) (S := S) (W := W) delay) where
  published {slack state before after} accounts moves holds whole := by
    have passedEq := moves.passed_eq accounts.pcm
    have startEq := moves.streamStart_eq
    rw [passedEq, startEq] at whole
    have classified := holds whole
    unfold Ring.takenLine at classified ⊢
    rw [passedEq, startEq]
    exact classified
  same {state before after} same holds whole := by
    rw [same.pcm_eq, same.start_eq] at whole
    have classified := holds whole
    unfold Ring.takenLine at classified ⊢
    rw [same.pcm_eq, same.start_eq]
    exact classified
  capture _ _ _ holds whole :=
    (holds whole).agree ⟨rfl, rfl, rfl, rfl, rfl⟩ rfl rfl ⟨rfl, rfl, rfl, rfl, rfl, rfl⟩
  receive _ _ holds whole :=
    (holds whole).agree ⟨rfl, rfl, rfl, rfl, rfl⟩ rfl rfl ⟨rfl, rfl, rfl, rfl, rfl, rfl⟩
  flags _ _ holds whole :=
    (holds whole).agree ⟨rfl, rfl, rfl, rfl, rfl⟩ rfl rfl ⟨rfl, rfl, rfl, rfl, rfl, rfl⟩
  space {state ring} wanted _ _ holds whole := by
    rw [(state.makeInputSpace_count _ _).taken_eq] at whole
    exact (holds whole).makeInputSpace wanted geometry.capacity
  take {state ring slot rest} accounts _ unpadded _ _ holds whole := by
    have startLe : ring.ledger.streamStart + state.sourceTaken ≤ ring.pcm.passed.length :=
      accounts.taken_le
    have passedEq : (takeSlot geometry slot ring).pcm.passed.length =
        ring.pcm.passed.length + 1 := by
      rw [takeSlot_passed, List.length_append, List.length_singleton]
    have startEq : (takeSlot geometry slot ring).ledger.streamStart =
        ring.ledger.streamStart := rfl
    rw [(state.acceptSource_count _ slot).1, passedEq, startEq] at whole
    split at whole
    · rename_i accepted
      have earlier : ring.pcm.passed.length = ring.ledger.streamStart + state.sourceTaken := by
        omega
      rw [takenLine_takeSlot slot (by omega)]
      refine ((holds earlier).extend unpadded [slot]).acceptSource unpadded ?_ accepted
      rw [List.getElem?_append_right (takenLine_length earlier).le, takenLine_length earlier,
        Nat.sub_self]
      rfl
    · omega
  pad {state ring} _ _ _ holds whole := by
    rw [(state.padInput_count _).taken_eq] at whole
    exact (holds whole).padInput (takenLine_length whole) _
  query {state ring} _ _ holds whole :=
    (holds whole).agree ⟨rfl, rfl, rfl, rfl, rfl⟩ (places.queuedInput state.converter) rfl
      ⟨rfl, rfl, rfl, rfl, rfl, rfl⟩
  steer _ _ _ holds whole :=
    (holds whole).agree ⟨rfl, rfl, rfl, rfl, rfl⟩ rfl rfl ⟨rfl, rfl, rfl, rfl, rfl, rfl⟩
  convert {state ring} _ refilling holds whole := by
    rw [(state.convert_count adapter geometry _).taken_eq] at whole
    exact convert_classified places (holds whole) refilling.2 _
  emit {slack result state ring} _ _ _ holds := by
    obtain ⟨plc, plcPositions, plcPosition, muteHistory, emissionEq⟩ :=
      state.emission_state geometry result
    rw [emissionEq]
    intro whole
    have takenEq : (state.popped result).2.sourceTaken = state.sourceTaken := by
      unfold ConsumerState.popped
      split <;> rfl
    have whole : ring.pcm.passed.length = ring.ledger.streamStart + state.sourceTaken :=
      takenEq ▸ whole
    exact ((holds whole).popped result).agree ⟨rfl, rfl, rfl, rfl, rfl⟩ rfl rfl
      ⟨rfl, rfl, rfl, rfl, rfl, rfl⟩
  release {state boundary ring} _ _ _ holds := by
    obtain ⟨plc, releaseEq⟩ := release_cases geometry state boundary
    rw [releaseEq]
    intro whole
    exact (holds whole).agree ⟨rfl, rfl, rfl, rfl, rfl⟩ rfl rfl ⟨rfl, rfl, rfl, rfl, rfl, rfl⟩
  reset _ _ _ _ := by
    refine ⟨Nat.zero_le _, fun _ => ⟨rfl, rfl⟩, fun flag => Bool.noConfusion flag, .nil,
      fun index below => (Nat.not_lt_zero index below).elim, fun index low high => ?_⟩
    change index < 0 + 0 at high
    omega

omit [Binary32 F] [Binary64 W] [Widening F W] in
/-- Within one render the stream is fixed: unless a slot was refused, what was
taken is classified and the rest can be read. -/
structure LineClassified (delay : S → Int) (line : List (SourceSample F))
    (state : ConsumerState F S W) (slots : List (SourceSample F)) : Prop where
  counted : line.length = state.sourceTaken + state.refused + slots.length
  classified : state.NothingRefused → Classified delay line state
  rest : state.NothingRefused → line.drop state.sourceTaken = slots

omit [Binary32 F] [Binary64 W] [Widening F W] in
/-- A step that takes nothing only has to keep the classification. -/
theorem LineClassified.still {line slots : List (SourceSample F)}
    {state other : ConsumerState F S W} (holds : LineClassified delay line state slots)
    (same : SameCount state other)
    (kept : line.length = state.sourceTaken + slots.length → Classified delay line state →
      Classified delay line other) : LineClassified delay line other slots := by
  have earlier (nothing : other.NothingRefused) : state.NothingRefused :=
    same.refused_eq.symm.trans nothing
  refine ⟨?_, fun nothing => kept ?_ (holds.classified (earlier nothing)), fun nothing => ?_⟩
  · rw [same.taken_eq, same.refused_eq]
    exact holds.counted
  · rw [holds.counted, show state.refused = 0 from earlier nothing, Nat.add_zero]
  · rw [same.taken_eq]
    exact holds.rest (earlier nothing)

omit [Widening F W] in
theorem lineClassifiedKept (places : adapter.Places delay) (line : List (SourceSample F)) :
    RefillKeeps adapter geometry (LineClassified (S := S) (W := W) delay line) where
  flags _ _ holds := holds.still ⟨rfl, rfl⟩ fun _ classified =>
    classified.agree ⟨rfl, rfl, rfl, rfl, rfl⟩ rfl rfl ⟨rfl, rfl, rfl, rfl, rfl, rfl⟩
  space {state slots} wanted _ holds :=
    holds.still (state.makeInputSpace_count _ _) fun _ classified =>
      classified.makeInputSpace wanted geometry.capacity
  take {state slot rest} _ unpadded holds := by
    have counted := holds.counted
    rw [List.length_cons] at counted
    obtain ⟨takenEq, sum⟩ := state.acceptSource_count geometry.gapCapacity slot
    cases accepted : (state.acceptSource geometry.gapCapacity slot).1 with
    | false =>
        -- A refused slot is on the note.
        rw [accepted, if_neg (by decide)] at takenEq
        have refused (nothing : (state.acceptSource geometry.gapCapacity slot).2.refused = 0) :
            False := by omega
        exact ⟨by omega, fun nothing => (refused nothing).elim,
          fun nothing => (refused nothing).elim⟩
    | true =>
        rw [accepted, if_pos rfl] at takenEq
        have earlier (nothing : (state.acceptSource geometry.gapCapacity slot).2.refused = 0) :
            state.refused = 0 := by omega
        refine ⟨by omega, fun nothing => ?_, fun nothing => ?_⟩
        · refine (holds.classified (earlier nothing)).acceptSource unpadded ?_ accepted
          rw [← List.head?_drop, holds.rest (earlier nothing)]
          rfl
        · rw [takenEq, ← List.drop_drop, holds.rest (earlier nothing)]
          rfl
  pad {state slots} _ waiting holds := by
    refine holds.still (state.padInput_count _) fun whole classified => ?_
    by_cases pads : state.inputPending = 0 ∧ state.finite.isSome
    · refine classified.padInput ?_ _
      cases padding : state.inputPadding with
      | true => exact classified.padded padding
      | false =>
          rcases waiting with some | flag | none
          · omega
          · exact Bool.noConfusion (padding.symm.trans flag)
          · rw [whole, none]
            rfl
    · unfold ConsumerState.padInput
      rw [if_neg pads]
      exact classified
  query {state slots} _ holds := holds.still ⟨rfl, rfl⟩ fun _ classified =>
    classified.agree ⟨rfl, rfl, rfl, rfl, rfl⟩ (places.queuedInput state.converter) rfl
      ⟨rfl, rfl, rfl, rfl, rfl, rfl⟩
  steer _ _ _ holds := holds.still ⟨rfl, rfl⟩ fun _ classified =>
    classified.agree ⟨rfl, rfl, rfl, rfl, rfl⟩ rfl rfl ⟨rfl, rfl, rfl, rfl, rfl, rfl⟩
  convert {state slots} refilling holds :=
    holds.still (state.convert_count adapter geometry _) fun _ classified =>
      convert_classified places classified refilling.2 _

end Kept

/-- Receiving records only touches the history and the fault. -/
theorem receiveAll_cases (records : List Interval) (state : ConsumerState F S W) :
    ∃ history fault, state.receiveAll records =
      { state with muteHistory := history, muteFault := fault } := by
  unfold ConsumerState.receiveAll
  induction records generalizing state with
  | nil => exact ⟨_, _, rfl⟩
  | cons interval records ih =>
      obtain ⟨history, fault, receivedEq⟩ := ih (state.receive interval)
      exact ⟨history, fault, receivedEq⟩

/-- Every output left in the cache is flagged as the slot it lies in, and every
gap that a later output can still lie in is queued. -/
structure GapsExact (delay : S → Int) (line : List (SourceSample F))
    (state : ConsumerState F S W) : Prop where
  flagged : ∀ index, state.outputOffset ≤ index →
    index < state.outputOffset + state.outputPending →
    (state.outputMissing = true ↔ MissingFrom line (state.outputPosition index))
  queued : ∀ index < state.sourceTaken, state.frame delay ≤ index →
    (MissingAt line index ↔ Listed state.gaps index)

theorem Classified.exact {delay : S → Int} {line : List (SourceSample F)}
    {state : ConsumerState F S W} (classified : Classified delay line state) :
    GapsExact delay line state :=
  ⟨fun index low high => (classified.batch index low high).2, classified.listed⟩

/-- The slots accepted since the last reset. -/
def Ring.streamLine (ring : Ring F S W) : List (SourceSample F) :=
  ring.pcm.published.drop ring.ledger.streamStart

section Runs

variable [Binary32 F] [Binary64 W] {adapter : Adapter F W S} {geometry : Geometry}
  {delay : S → Int} {ring : Ring F S W}

omit [Binary32 F] [Binary64 W] in
theorem streamLine_eq {slack : Nat} {state : ConsumerState F S W}
    (accounts : Accounts geometry slack state ring) :
    ring.streamLine = ring.takenLine ++ ring.pcm.unread geometry.capacity := by
  have taken := accounts.taken_le
  unfold Ring.streamLine Ring.takenLine
  rw [accounts.pcm.published_eq]
  apply List.drop_append_of_le_length
  omega

omit [Binary32 F] [Binary64 W] in
/-- What holds of the taken slots holds of the whole stream. -/
theorem TakenClassified.whole {state : ConsumerState F S W}
    (classified : TakenClassified delay state ring) (accounts : Accounts geometry 0 state ring)
    (counted : Counted state ring) (nothing : state.NothingRefused) :
    Classified delay ring.streamLine state := by
  have passed := counted.passed_eq nothing
  rw [streamLine_eq accounts]
  cases padding : state.inputPadding with
  | false => exact (classified passed).extend padding _
  | true =>
      rw [(accounts.padded padding).2.2, List.append_nil]
      exact classified passed

omit [Binary32 F] [Binary64 W] in
theorem TakenClassified.started
    (classified : TakenClassified delay ring.consumer ring)
    (accounts : Accounts geometry 0 ring.consumer ring) (counted : Counted ring.consumer ring) :
    LineClassified delay ring.streamLine (ring.view geometry).started
      (ring.pcm.unread geometry.capacity) := by
  have takenLength : ring.takenLine.length =
      ring.pcm.passed.length - ring.ledger.streamStart := List.length_drop
  have passedEq : ring.pcm.passed.length =
      ring.ledger.streamStart + ring.consumer.sourceTaken + ring.consumer.refused := counted
  have start : LineClassified delay ring.streamLine ring.consumer
      (ring.pcm.unread geometry.capacity) := by
    refine ⟨?_, fun nothing => classified.whole accounts counted nothing, fun nothing => ?_⟩
    · rw [streamLine_eq accounts, List.length_append]
      omega
    · have none : ring.consumer.refused = 0 := nothing
      rw [streamLine_eq accounts, show ring.consumer.sourceTaken = ring.takenLine.length by omega]
      exact List.drop_left
  have captured : ∃ captured : ConsumerState F S W,
      (ring.view geometry).started = captured.receiveAll (ring.mutes.unread mailboxQueue) ∧
      LineClassified delay ring.streamLine captured (ring.pcm.unread geometry.capacity) := by
    refine ⟨_, rfl, ?_⟩
    split
    · exact start.still ⟨rfl, rfl⟩ fun _ still =>
        still.agree ⟨rfl, rfl, rfl, rfl, rfl⟩ rfl rfl ⟨rfl, rfl, rfl, rfl, rfl, rfl⟩
    · exact start
  obtain ⟨captured, startedEq, holds⟩ := captured
  obtain ⟨history, fault, receivedEq⟩ := receiveAll_cases (ring.mutes.unread mailboxQueue) captured
  rw [startedEq, receivedEq]
  exact holds.still ⟨rfl, rfl⟩ fun _ still =>
    still.agree ⟨rfl, rfl, rfl, rfl, rfl⟩ rfl rfl ⟨rfl, rfl, rfl, rfl, rfl, rfl⟩

variable [Widening F W] {settings : Settings} {config : RingConfig F S W}

/-- Whatever ran before, unless a slot was refused: the cache that a call leaves
behind is flagged exactly, and so is what the next render converts and emits.
Batches and single outputs make no difference, and no gap leaves the queue while
an output can still lie in it. -/
theorem gaps_classified_exactly (places : adapter.Places delay)
    (reached : RingReachable adapter settings (fun _ _ => True) geometry config)
    (idle : config.thread .consumer = .idle) :
    (config.memory.consumer.NothingRefused →
      GapsExact delay config.memory.streamLine config.memory.consumer) ∧
    ∀ slots state, config.thread .producer = .idle →
      (config.memory.view geometry).exit adapter geometry = .emitted slots state .ready →
      state.NothingRefused →
      (config.memory.perform adapter geometry ⟨.consumer, .render⟩).1 =
          ⟨.consumer, .rendered (state.emission geometry .ready).rendered⟩ ∧
        GapsExact delay config.memory.streamLine state ∧
        (state.outputMissing = true ↔
          MissingFrom config.memory.streamLine state.cacheSourcePosition) := by
  have counted := counted_of_idle reached idle
  obtain ⟨ring, created, steps⟩ := id reached
  have positive : 0 < geometry.capacity :=
    Nat.lt_of_lt_of_le (by decide) (create_capacity created)
  have start : TakenClassified delay ring.consumer ring := by
    obtain ⟨-, outputDelay, answered, converter, -, initial⟩ := create_cases created
    rw [initial]
    intro _
    refine ⟨Nat.zero_le _, fun _ => ⟨rfl, rfl⟩, fun flag => Bool.noConfusion flag, .nil,
      fun index below => (Nat.not_lt_zero index below).elim, fun index low high => ?_⟩
    change index < 0 + 0 at high
    omega
  obtain ⟨drained, classified⟩ :=
    invariant_of_idle (classifiedKept places).steered created start steps idle
  refine ⟨fun nothing => (classified.whole drained.1 counted nothing).exact,
    fun slots state resting exitEq nothing => ?_⟩
  have ended := ConsumerState.readyExit_meets (lineClassifiedKept places config.memory.streamLine)
    positive (classified.started drained.1 counted)
  change ((config.memory.view geometry).exit adapter geometry).Meets geometry _ _ at ended
  rw [exitEq] at ended
  obtain ⟨holds, -, -, -, ready⟩ := ended
  have kept := holds.classified nothing
  have pending := Nat.pos_of_ne_zero (ready rfl)
  have rendered := (perform_view adapter (producerHolds_of_idle reached resting)
    ⟨.consumer, .render⟩).2
  refine ⟨?_, kept.exact, ?_⟩
  · have reply := congrArg Prod.fst rendered
    refine reply.trans ?_
    change (⟨.consumer, .rendered ((config.memory.view geometry).render adapter geometry).1⟩ :
      RingReply F) = _
    rw [RingView.render_eq_close, exitEq]
    rfl
  · rw [ConsumerState.cacheSourcePosition_eq]
    exact kept.exact.flagged _ le_rfl (by omega)

end Runs

theorem unitConverter_places [Binary32 F] [Binary64 W] :
    (unitConverter (F := F) (W := W)).Places fun _ => 0 where
  reports handle answered accepted := by
    cases accepted
    rfl
  inputDelay _ := rfl
  queuedInput _ := rfl
  rejected _ _ _ _ _ _ := le_rfl
  forward handle input outputLength ratio converted after _ :=
    Int.add_nonneg le_rfl (Int.mul_nonneg (Int.natCast_nonneg _) (by decide))
  below handle input outputLength ratio converted after processed index inside := by
    have usedEq : converted.outputGenerated = converted.inputUsed := by
      unfold Adapter.converterProcess at processed
      split at processed
      · cases processed
      · rename_i valid
        obtain ⟨-, finite, positive⟩ := not_or.mp valid |>.imp_right not_or.mp
        dsimp only [unitConverter] at processed
        rw [if_neg (not_or.mpr ⟨finite, positive⟩)] at processed
        dsimp only at processed
        rw [if_neg (by omega)] at processed
        cases processed
        rfl
    rw [usedEq] at inside ⊢
    rw [show (converted.inputUsed : Int) * frameUnit + 0 - 0 = frameUnit * converted.inputUsed by
      rw [Int.add_zero, Int.sub_zero, Int.mul_comm], Int.mul_right_comm, Int.mul_tdiv_cancel _
        (by omega), Int.add_zero, Int.mul_comm]
    exact Int.mul_lt_mul_of_pos_right (Int.ofNat_lt.mpr inside) (by decide)

/-- Behind a received sample the next render emits a gap. -/
theorem gaps_classified_after_a_render :
    ∃ (geometry : Geometry) (config : RingConfig ℚ Unit ℚ) (state : ConsumerState ℚ Unit ℚ),
      RingReachable (unitConverter (F := ℚ) (W := ℚ)) smallSettings (fun _ _ => True)
        geometry config ∧ GapsExact (fun _ => 0) config.memory.streamLine state ∧
      MissingFrom config.memory.streamLine state.cacheSourcePosition := by
  let shown (geometry : Geometry) (config : RingConfig ℚ Unit ℚ) : Bool :=
    config.resting .consumer && config.resting .producer &&
      match (config.memory.view geometry).exit unitConverter geometry with
      | .emitted _ state .ready => state.outputMissing && decide state.NothingRefused
      | _ => false
  have played : (playRing (unitConverter (F := ℚ) (W := ℚ)) smallSettings
      (uninterrupted .producer (.push [1 / 2]) ++ uninterrupted .producer (.gap 1) ++
        uninterrupted .producer (.push [1 / 4]) ++ uninterrupted .consumer .render)).any
      (fun played => shown played.1 played.2) = true := by decide +kernel
  obtain ⟨geometry, config, reached, shows⟩ :=
    reachable_of_plays _ _ _ shown (admitted_any _) played
  obtain ⟨rests, shows⟩ := Bool.and_eq_true_iff.mp shows
  obtain ⟨consumer, producer⟩ := Bool.and_eq_true_iff.mp rests
  split at shows
  · rename_i slots state exitEq
    obtain ⟨missing, nothing⟩ := Bool.and_eq_true_iff.mp shows
    obtain ⟨-, exact, flag⟩ := (gaps_classified_exactly unitConverter_places reached
      (Config.idle_of_resting consumer)).2 slots state (Config.idle_of_resting producer) exitEq
        (of_decide_eq_true nothing)
    exact ⟨geometry, config, state, reached, exact, flag.mp missing⟩
  · cases shows

end PcmRing
