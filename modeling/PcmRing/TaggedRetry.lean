import PcmRing.PrefixCredit

/-!
# Retrying a tagged block

A tagged block may be accepted in part.  Its suffix is retried with its own
positions and the original intervals, until the credits add up.  The intervals
are then published as far as the accepted positions reach, each call adding to
the union, but a retry looks back from its own start: an interval that began
before the block can be too old for the retry.
-/

namespace PcmRing

open AtomicProgram TwoLapQueue

variable {F S W : Type} {geometry : Geometry}

/-- The source positions that records of a generation mute. -/
def Covered (generation : Nat) (records : List Interval) (position : Nat) : Prop :=
  ∃ interval ∈ records, interval.Covers generation position

/-- The positions of spans. -/
def Spanned (spans : List Span) (position : Nat) : Prop :=
  ∃ span ∈ spans, span.start ≤ position ∧ position < span.stop

theorem covered_append {generation position : Nat} {first second : List Interval} :
    Covered generation (first ++ second) position ↔
      Covered generation first position ∨ Covered generation second position := by
  simp only [Covered, List.mem_append, or_and_right, exists_or]

/-- Clipped records mute the positions of the spans before the clip. -/
theorem covered_clipped {generation stop position : Nat} {spans : List Span} :
    Covered generation (clippedIntervals generation spans stop) position ↔
      Spanned spans position ∧ position < stop := by
  constructor
  · rintro ⟨interval, member, covers⟩
    obtain ⟨span, spanMember, clipped⟩ := List.mem_filterMap.mp member
    dsimp only at clipped
    split at clipped
    · cases clipped
      obtain ⟨-, low, high⟩ := covers
      exact ⟨⟨span, spanMember, low, (Nat.lt_min.mp high).1⟩, (Nat.lt_min.mp high).2⟩
    · cases clipped
  · rintro ⟨⟨span, member, low, high⟩, accepted⟩
    exact mem_clippedIntervals member low high accepted

theorem generation_clipped {generation stop : Nat} {spans : List Span} {interval : Interval}
    (member : interval ∈ clippedIntervals generation spans stop) :
    interval.generation = generation := by
  obtain ⟨span, -, clipped⟩ := List.mem_filterMap.mp member
  dsimp only at clipped
  split at clipped
  · cases clipped
    rfl
  · cases clipped

/-- What the consumer may do during a call that nothing resets: it makes room. -/
structure Eased (geometry : Geometry) (before after : Ring F S W) : Prop where
  pcm : before.pcm.Sound geometry.capacity → after.pcm.Sound geometry.capacity ∧
    before.pcm.passed.length ≤ after.pcm.passed.length
  idle : ¬FinishPending before.finish → ¬FinishPending after.finish

theorem quietMoves (geometry : Geometry) :
    QuietSide (F := F) (S := S) (W := W) geometry
      (fun before after => ConsumerMoves geometry True before after ∧
        after.resetSerial = before.resetSerial) (Eased geometry) where
  order := ⟨fun _ => ⟨.refl _, rfl⟩, fun first second =>
    ⟨first.1.trans second.1, second.2.trans first.2⟩⟩
  keeps := ⟨fun _ => ⟨fun sound => ⟨sound, Nat.le_refl _⟩, id⟩, fun first second =>
    ⟨fun sound => ⟨(second.pcm (first.pcm sound).1).1,
      Nat.le_trans (first.pcm sound).2 (second.pcm (first.pcm sound).1).2⟩,
      fun idle => second.idle (first.idle idle)⟩⟩
  moves moves := moves.1
  serial_eq moves := moves.2
  still {before after} moves := by
    refine ⟨fun sound => ?_, fun idle => moves.1.idle idle ▸ idle⟩
    obtain ⟨afterSound, reads⟩ := moves.1.pcm sound
    have beforeLength := sound.published_length
    have afterLength := afterSound.published_length
    rw [reads.published_eq] at afterLength
    have distanceLe := reads.distance_le
    exact ⟨afterSound, by omega⟩
  access {op ring} permitted keeps := by
    cases op with
    | pcm access =>
        refine ⟨fun sound => ⟨Channel.sound_writer sound permitted.1, ?_⟩, id⟩
        cases access <;> first | exact Nat.le_refl _ | exact permitted.1.elim
    | storeFinish word => exact keeps.elim
    | _ => exact ⟨fun sound => ⟨sound, Nat.le_refl _⟩, id⟩
  passed_le kept sound := (kept.pcm sound).2
  idle kept := kept.idle

variable [Binary32 F]

/-- How a tagged block ends while nothing is reset and no boundary is pending. -/
inductive TaggedEnd (geometry : Geometry) (input : List F) (generation sourceStart : Nat)
    (spans : List Span) (entry : ProducerAccount F) : ProducerResult → ProducerAccount F → Prop
  | refused : (TaggedInvalid geometry input sourceStart spans ∨
      Discontinuous entry.stamp generation sourceStart) →
      TaggedEnd geometry input generation sourceStart spans entry (.credit none) entry
  | crowded : ¬TaggedInvalid geometry input sourceStart spans →
      ¬Discontinuous entry.stamp generation sourceStart →
      TaggedEnd geometry input generation sourceStart spans entry (.credit (some 0)) entry
  | credited (room : Nat) : ¬TaggedInvalid geometry input sourceStart spans →
      ¬Discontinuous entry.stamp generation sourceStart →
      TaggedEnd geometry input generation sourceStart spans entry
        (.credit (some (min input.length room)))
        (taggedAccount generation sourceStart spans input room entry)

theorem safe_taggedEnd {ring : Ring F S W} (input : List F) (generation sourceStart : Nat)
    (spans : List Span) (pcm : ring.pcm.Sound geometry.capacity)
    (mutes : ring.mutes.Sound mailboxQueue) :
    (producerBody geometry (.pushTagged input generation sourceStart spans)).Safe
      (exec geometry) (ConsumerMoves geometry True) (fun _ _ => True)
      (fun result exit => exit.resetSerial = ring.resetSerial →
        ¬FinishPending ring.finish → ¬FinishPending exit.finish ∧
          TaggedEnd geometry input generation sourceStart spans ring.account result
            exit.account) ring := by
  have quiet := quietMoves (F := F) (S := S) (W := W) geometry
  refine Program.Safe.while_unchanged Ring.resetSerial (fun moves => moves.serial_le) ?_
    (?_ : Program.Safe _ _ (fun _ _ => True) _ _ _)
  · intro op memory
    cases op <;> first | exact Nat.le_refl _ | exact Nat.le_succ _
  · have start : Stands geometry (Eased geometry) ring ring.account ring :=
      ⟨pcm, mutes, quiet.keeps.refl ring, rfl⟩
    have ends {now : Ring F S W} {account : ProducerAccount F} {credit : Option Nat}
        (stands : Stands geometry (Eased geometry) ring account now)
        (tagged : ¬FinishPending ring.finish → TaggedEnd geometry input generation sourceStart
          spans ring.account (.credit credit) account) (exit : Ring F S W)
        (moves : ConsumerMoves geometry True now exit ∧ exit.resetSerial = now.resetSerial)
        (idle : ¬FinishPending ring.finish) : ¬FinishPending exit.finish ∧
          TaggedEnd geometry input generation sourceStart spans ring.account (.credit credit)
            exit.account := by
      have last := quiet.stable stands moves
      exact ⟨last.kept.idle idle, last.account_eq ▸ tagged idle⟩
    simp only [producerBody]
    refine quiet.safe_producerPushTagged input generation sourceStart spans start ?_ ?_ ?_ ?_
    · intro later stands pending
      exact ends stands fun idle => (stands.kept.idle idle pending).elim
    · intro later stands _ invalid
      exact ends stands fun _ => .refused invalid
    · intro later stands _ valid continues _
      exact ends stands fun _ => .crowded valid continues
    · intro moment later _ _ valid continues _ _ stands
      exact ends stands fun _ => .credited _ valid continues

/-- A returned producer call. -/
abbrev ProducerRecord (F S W : Type) : Type :=
  Returned (Ring F S W) (ProducerCall F) ProducerResult

/-- Each call offers what the calls before it have not accepted, at its own
positions and with the original spans. -/
def Retries (generation : Nat) (spans : List Span) :
    List F → Nat → List (ProducerRecord F S W) → Prop
  | _, _, [] => True
  | input, sourceStart, record :: rest =>
      input ≠ [] ∧ record.call = .pushTagged input generation sourceStart spans ∧
        Retries generation spans (input.drop record.result.credited)
          (sourceStart + record.result.credited) rest

/-- The slots that the calls accepted. -/
def totalCredit (records : List (ProducerRecord F S W)) : Nat :=
  (records.map fun record => record.result.credited).sum

/-- No span begins more than a capacity before the block it is published with. -/
def ProducerCall.InLookback (geometry : Geometry) : ProducerCall F → Prop
  | .pushTagged _ _ sourceStart spans => ∀ span ∈ spans, sourceStart - geometry.capacity ≤ span.start
  | _ => True

/-- What every valid tagged block up to `stop` satisfies, but for the lookback. -/
structure TaggedShape (geometry : Geometry) (spans : List Span) (stop length : Nat) : Prop where
  stop_lt : stop < 2 ^ 64
  length_le : length ≤ geometry.maxProducer
  spans_le : spans.length ≤ maxSpans
  span_lt : ∀ span ∈ spans, span.start < span.stop
  stop_le : ∀ span ∈ spans, span.stop ≤ stop

omit [Binary32 F] in
theorem taggedShape_of_valid {input : List F} {sourceStart : Nat} {spans : List Span}
    (valid : ¬TaggedInvalid geometry input sourceStart spans) :
    TaggedShape geometry spans (sourceStart + input.length) input.length := by
  simp only [TaggedInvalid, not_or, not_exists, not_and, Nat.not_le, Nat.not_lt] at valid
  exact ⟨valid.1, valid.2.1, valid.2.2.1, fun span member => (valid.2.2.2 span member).1,
    fun span member => (valid.2.2.2 span member).2.1⟩

omit [Binary32 F] in
/-- Of the same shape, a block is invalid only for its lookback. -/
theorem TaggedShape.invalid_iff {input : List F} {sourceStart stop : Nat} {spans : List Span}
    (shape : TaggedShape geometry spans stop input.length)
    (stopEq : sourceStart + input.length = stop) (generation : Nat) :
    TaggedInvalid geometry input sourceStart spans ↔
      ¬(ProducerCall.pushTagged input generation sourceStart spans).InLookback geometry := by
  constructor
  · rintro invalid inside
    rcases invalid with wraps | long | many | ⟨span, member, empty | late | early⟩
    · exact Nat.not_lt.mpr (stopEq ▸ wraps) shape.stop_lt
    · exact Nat.not_lt.mpr shape.length_le long
    · exact Nat.not_lt.mpr shape.spans_le many
    · exact Nat.not_lt.mpr empty (shape.span_lt span member)
    · exact Nat.not_lt.mpr (shape.stop_le span member) (stopEq ▸ late)
    · exact Nat.not_lt.mpr (inside span member) early
  · intro outside
    simp only [ProducerCall.InLookback, not_forall, Nat.not_le] at outside
    obtain ⟨span, member, early⟩ := outside
    exact .inr (.inr (.inr ⟨span, member, .inr (.inr early)⟩))

theorem TaggedEnd.retry {input : List F} {generation sourceStart stop : Nat}
    {spans : List Span} {entry exit : ProducerAccount F} {result : ProducerResult}
    (ended : TaggedEnd geometry input generation sourceStart spans entry result exit)
    (continues : ¬Discontinuous entry.stamp generation sourceStart)
    (shape : TaggedShape geometry spans stop input.length)
    (stopEq : sourceStart + input.length = stop) :
    (result = .credit none ↔
      ¬(ProducerCall.pushTagged input generation sourceStart spans).InLookback geometry) ∧
    result.credited ≤ input.length ∧
    ¬Discontinuous exit.stamp generation (sourceStart + result.credited) ∧
    ∃ fresh, exit.records = entry.records ++ fresh ∧
      (∀ interval ∈ fresh, interval.generation = generation) ∧
      ∀ position, Covered generation fresh position ↔
        0 < result.credited ∧ Spanned spans position ∧
          position < sourceStart + result.credited := by
  have nothing (position : Nat) : Covered generation [] position ↔
      0 < 0 ∧ Spanned spans position ∧ position < sourceStart + 0 :=
    ⟨fun covered => (by obtain ⟨_, member, _⟩ := covered; cases member),
      fun absurd => (Nat.lt_irrefl 0 absurd.1).elim⟩
  have reason := shape.invalid_iff stopEq generation
  cases ended with
  | refused invalid =>
      exact ⟨iff_of_true rfl (reason.mp (invalid.resolve_right continues)), Nat.zero_le _,
        continues, [], (List.append_nil _).symm, by simp, nothing⟩
  | crowded valid _ =>
      exact ⟨iff_of_false (by simp) fun outside => valid (reason.mpr outside), Nat.zero_le _,
        continues, [], (List.append_nil _).symm, by simp, nothing⟩
  | credited room valid _ =>
      refine ⟨iff_of_false (by simp) fun outside => valid (reason.mpr outside),
        Nat.min_le_left _ _, ?_⟩
      have credit : (ProducerResult.credit (some (min input.length room))).credited =
          min input.length room := rfl
      have countLe : min input.length room ≤ input.length := Nat.min_le_left _ _
      rw [credit]
      unfold taggedAccount
      generalize min input.length room = count at countLe ⊢
      dsimp only
      split
      · rename_i zero
        subst zero
        exact ⟨continues, [], (List.append_nil _).symm, by simp, nothing⟩
      · rename_i positive
        refine ⟨?_, clippedIntervals generation spans (sourceStart + count), rfl,
          fun interval => generation_clipped, fun position => ?_⟩
        · rintro ⟨stamp, member, -, differs⟩
          obtain rfl := Option.mem_some.mp member
          simp [Stamp.advance, Nat.min_eq_left countLe] at differs
        · rw [covered_clipped]
          exact ⟨fun inside => ⟨Nat.pos_of_ne_zero positive, inside⟩, fun inside => inside.2⟩

/-- What the calls of a block do together, from the first to the last. -/
theorem retries_run {generation stop : Nat} {spans : List Span}
    (records : List (ProducerRecord F S W)) {input : List F} {sourceStart serial : Nat}
    (chain : records.IsChain fun earlier later =>
      ConsumerMoves geometry True earlier.exit later.entry)
    (posts : ∀ record ∈ records, ∀ input sourceStart,
      record.call = .pushTagged input generation sourceStart spans →
      record.exit.resetSerial = record.entry.resetSerial → ¬FinishPending record.entry.finish →
      ¬FinishPending record.exit.finish ∧ TaggedEnd geometry input generation sourceStart spans
        record.entry.account record.result record.exit.account)
    (calls : Retries generation spans input sourceStart records)
    (unreset : ∀ record ∈ records, record.entry.resetSerial = serial ∧
      record.exit.resetSerial = serial)
    (shape : TaggedShape geometry spans stop input.length)
    (stopEq : sourceStart + input.length = stop)
    (idle : ∀ first ∈ records.head?, ¬FinishPending first.entry.finish)
    (continues : ∀ first ∈ records.head?,
      ¬Discontinuous first.entry.account.stamp generation sourceStart) :
    (∀ record ∈ records, record.result = .credit none ↔ ¬record.call.InLookback geometry) ∧
    totalCredit records ≤ input.length ∧
    ∀ first ∈ records.head?, ∀ last ∈ records.getLast?, ∃ fresh,
      last.exit.mutes.published = first.entry.mutes.published ++ fresh ∧
      (∀ interval ∈ fresh, interval.generation = generation) ∧
      ∀ position, Covered generation fresh position ↔
        0 < totalCredit records ∧ Spanned spans position ∧
          position < sourceStart + totalCredit records := by
  induction records generalizing input sourceStart with
  | nil => exact ⟨by simp, Nat.zero_le _, by simp⟩
  | cons record rest ih =>
      obtain ⟨-, callEq, later⟩ := calls
      obtain ⟨entrySerial, exitSerial⟩ := unreset record (by simp)
      obtain ⟨exitIdle, ended⟩ := posts record (by simp) input sourceStart callEq
        (exitSerial.trans entrySerial.symm) (idle record rfl)
      obtain ⟨refused, creditLe, exitContinues, fresh, freshEq, freshGeneration, freshCovers⟩ :=
        ended.retry (continues record rfl) shape stopEq
      have dropLength : (input.drop record.result.credited).length =
          input.length - record.result.credited := List.length_drop
      obtain ⟨linked, restChain⟩ := List.isChain_cons.mp chain
      have kept (next : ProducerRecord F S W) (member : next ∈ rest.head?) :
          next.entry.account = record.exit.account := by
        have serialEq := (unreset next (List.mem_cons_of_mem _ (List.mem_of_mem_head? member))).1
        exact (quietMoves geometry).account_eq
          ⟨linked next member, serialEq.trans exitSerial.symm⟩
      obtain ⟨restRefused, restCredit, restCovers⟩ := ih restChain
        (fun other member => posts other (by simp [member])) later
        (fun other member => unreset other (by simp [member]))
        { shape with length_le := Nat.le_trans (dropLength ▸ Nat.sub_le _ _) shape.length_le }
        (by rw [dropLength]; omega)
        (fun next member => (linked next member).idle exitIdle ▸ exitIdle)
        (fun next member => by rw [kept next member]; exact exitContinues)
      have total : totalCredit (record :: rest) = record.result.credited + totalCredit rest := by
        simp [totalCredit]
      refine ⟨?_, ?_, ?_⟩
      · intro other member
        rcases List.mem_cons.mp member with rfl | member
        · rw [callEq]
          exact refused
        · exact restRefused other member
      · rw [dropLength] at restCredit
        omega
      · intro first firstHead last lastMember
        obtain rfl : record = first := Option.some.inj firstHead
        cases rest with
        | nil =>
            obtain rfl : record = last := Option.some.inj lastMember
            have none : totalCredit ([] : List (ProducerRecord F S W)) = 0 := rfl
            rw [total, none, Nat.add_zero]
            exact ⟨fresh, freshEq, freshGeneration, freshCovers⟩
        | cons next others =>
            obtain ⟨more, moreEq, moreGeneration, moreCovers⟩ :=
              restCovers next rfl last (by rwa [List.getLast?_cons_cons] at lastMember)
            have recordsEq : next.entry.mutes.published = record.entry.mutes.published ++ fresh :=
              (congrArg ProducerAccount.records (kept next rfl)).trans freshEq
            refine ⟨fresh ++ more, ?_, ?_, fun position => ?_⟩
            · rw [moreEq, recordsEq, List.append_assoc]
            · intro interval member
              rcases List.mem_append.mp member with member | member
              · exact freshGeneration interval member
              · exact moreGeneration interval member
            · rw [covered_append, freshCovers, moreCovers, total]
              by_cases inside : Spanned spans position
              · simp only [inside, true_and]
                omega
              · simp only [inside, false_and, and_false, or_self]

section Reachable

variable [Binary64 W] [Widening F W] {adapter : Adapter F W S} {settings : Settings}
  {config : RingConfig F S W}

/-- A tagged block that was accepted in part, or not at all, and its retries:
no boundary is pending and nothing resets the ring from its call to the last. -/
structure Retried (config : RingConfig F S W) (generation sourceStart : Nat)
    (spans : List Span) (input : List F) (first : ProducerRecord F S W)
    (retries : List (ProducerRecord F S W)) : Prop where
  returned : ∃ before after,
    config.returned .producer = before ++ (first :: retries) ++ after
  calls : Retries generation spans input sourceStart (first :: retries)
  accepted : first.result ≠ .credit none
  idle : ¬FinishPending first.entry.finish
  unreset : ∀ record ∈ first :: retries,
    record.entry.resetSerial = first.entry.resetSerial ∧
      record.exit.resetSerial = first.entry.resetSerial

/-- No retry is an argument error, and a block that was accepted whole has all
its spans published, by whichever calls. -/
structure RetryClosed (generation : Nat) (spans : List Span) (input : List F)
    (first : ProducerRecord F S W) (retries : List (ProducerRecord F S W)) : Prop where
  accepted : ∀ retry ∈ retries, retry.result ≠ .credit none
  muted : totalCredit (first :: retries) = input.length →
    ∀ last ∈ (first :: retries).getLast?, ∃ fresh,
      last.exit.mutes.published = first.entry.mutes.published ++ fresh ∧
      (∀ interval ∈ fresh, interval.generation = generation) ∧
      ∀ position, Covered generation fresh position ↔ Spanned spans position

/-- The outline of the drained boundary, with how tagged calls end. -/
def retryOutline (adapter : Adapter F W S) (geometry : Geometry) :
    Outline (body adapter geometry) (exec geometry) (fun _ _ => True) :=
  ((drainSpec adapter geometry True (fun _ _ => True) id).outline
    fun call _ => uniform_none call).also (fun _ _ _ => True)
    (fun party => match party with
      | .producer => fun call entry result exit => match call with
        | .pushTagged input generation sourceStart spans =>
            exit.resetSerial = entry.resetSerial → ¬FinishPending entry.finish →
              ¬FinishPending exit.finish ∧ TaggedEnd geometry input generation sourceStart spans
                entry.account result exit.account
        | _ => True
      | .consumer => fun _ _ _ _ => True)
    (fun party call _ _ holds => match party with
      | .producer => match call with
        | .pushTagged input generation sourceStart spans =>
            safe_taggedEnd input generation sourceStart spans holds.pcm holds.mutes
        | .pushSample _ | .push _ | .gap _ | .mute _ _ | .finish | .status _ =>
            Program.safe_trivial _ _
      | .consumer => Program.safe_trivial _ _)

/-- In every run, the retries of a tagged block are closed if and only if no
retry has moved a capacity past the beginning of a span. -/
theorem retryClosed_iff
    (reached : RingReachable adapter settings (fun _ _ => True) geometry config)
    {generation sourceStart : Nat} {spans : List Span} {input : List F}
    {first : ProducerRecord F S W} {retries : List (ProducerRecord F S W)}
    (retried : Retried config generation sourceStart spans input first retries) :
    RetryClosed generation spans input first retries ↔
      ∀ retry ∈ retries, retry.call.InLookback geometry := by
  obtain ⟨ring, created, steps⟩ := reached
  let outline := retryOutline adapter geometry
  have start : ∀ party, outline.inv party ring := finishOutline_created created
  have chain := outline.chained_of_returned start steps .producer
  obtain ⟨before, after, returned⟩ := retried.returned
  rw [returned] at chain
  have linked := (List.isChain_append.mp (List.isChain_append.mp chain).1).2.1
  have posts : ∀ record ∈ first :: retries, ∀ input sourceStart,
      record.call = .pushTagged input generation sourceStart spans →
      record.exit.resetSerial = record.entry.resetSerial → ¬FinishPending record.entry.finish →
      ¬FinishPending record.exit.finish ∧ TaggedEnd geometry input generation sourceStart spans
        record.entry.account record.result record.exit.account := by
    intro record member input sourceStart callEq
    have post := (outline.post_of_returned (outline.holds_of_reachable start steps .producer)
      (returned ▸ List.mem_append_left _ (List.mem_append_right _ member))).2
    rw [callEq] at post
    exact post
  obtain ⟨nonempty, callEq, -⟩ := retried.calls
  have ended := (posts first (by simp) input sourceStart callEq
    (retried.unreset first (by simp)).2 retried.idle).2
  have valid : ¬TaggedInvalid geometry input sourceStart spans ∧
      ¬Discontinuous first.entry.account.stamp generation sourceStart := by
    generalize resultEq : first.result = result, first.exit.account = exit at ended
    cases ended with
    | refused => exact (retried.accepted resultEq).elim
    | crowded valid continues => exact ⟨valid, continues⟩
    | credited room valid continues => exact ⟨valid, continues⟩
  have shape := taggedShape_of_valid valid.1
  obtain ⟨refused, -, covers⟩ := retries_run (first :: retries) linked posts retried.calls
    retried.unreset shape rfl (by simpa using retried.idle) (by simpa using valid.2)
  constructor
  · intro closed retry member
    by_contra outside
    exact closed.accepted retry member
      ((refused retry (List.mem_cons_of_mem _ member)).mpr outside)
  · intro inside
    refine ⟨fun retry member none =>
      (refused retry (List.mem_cons_of_mem _ member)).mp none (inside retry member), ?_⟩
    intro whole last lastMember
    obtain ⟨fresh, published, generations, covered⟩ := covers first rfl last lastMember
    refine ⟨fresh, published, generations, fun position => (covered position).trans ?_⟩
    have positive : 0 < input.length := List.length_pos_iff.mpr nonempty
    rw [whole]
    constructor
    · exact fun inside => inside.2.1
    · intro spanned
      obtain ⟨span, member, low, high⟩ := spanned
      exact ⟨positive, ⟨span, member, low, high⟩,
        Nat.lt_of_lt_of_le high (shape.stop_le span member)⟩

end Reachable

/-- What a schedule shows of a block and its only retry. -/
def retriedOnce (generation sourceStart : Nat) (spans : List Span) (input : List ℚ)
    (credit : Nat) (answer : Option Nat)
    (first retry : ProducerRecord ℚ Unit ℚ) : Bool :=
  decide (first.call = .pushTagged input generation sourceStart spans) &&
    decide (first.result = .credit (some credit)) &&
    decide (retry.call =
      .pushTagged (input.drop credit) generation (sourceStart + credit) spans) &&
    decide (retry.result = .credit answer) && decide (¬FinishPending first.entry.finish) &&
    decide ([first.exit, retry.entry, retry.exit].all fun ring =>
      ring.resetSerial = first.entry.resetSerial)

theorem retried_once {generation sourceStart credit : Nat} {spans : List Span} {input : List ℚ}
    {config : RingConfig ℚ Unit ℚ} {answer : Option Nat} {first retry : ProducerRecord ℚ Unit ℚ}
    (before : List (ProducerRecord ℚ Unit ℚ))
    (returned : config.returned .producer = before ++ [first, retry])
    (left : credit < input.length)
    (shows : retriedOnce generation sourceStart spans input credit answer first retry =
      true) :
    Retried config generation sourceStart spans input first [retry] ∧
      first.result = .credit (some credit) ∧ retry.result = .credit answer ∧
      retry.call = .pushTagged (input.drop credit) generation (sourceStart + credit) spans := by
  simp only [retriedOnce, Bool.and_eq_true, decide_eq_true_eq, List.all_cons, List.all_nil,
    Bool.and_true] at shows
  obtain ⟨⟨⟨⟨⟨firstCall, firstResult⟩, retryCall⟩, retryResult⟩, idle⟩, exitEq, entryEq,
    lastEq⟩ := shows
  refine ⟨⟨⟨before, [], by simp [returned]⟩, ?_, by simp [firstResult], idle, ?_⟩, firstResult,
    retryResult, retryCall⟩
  · have credited : first.result.credited = credit := by rw [firstResult]; rfl
    refine ⟨?_, firstCall, ?_, ?_, trivial⟩
    · rintro rfl
      exact Nat.not_lt_zero _ left
    · rw [credited]
      exact fun empty => Nat.not_le.mpr left (List.drop_eq_nil_iff.mp empty)
    · rw [credited]
      exact retryCall
  · simp only [List.mem_cons, List.not_mem_nil, or_false, forall_eq_or_imp, forall_eq]
    exact ⟨⟨trivial, exitEq⟩, entryEq, lastEq⟩

/-- Two calls fill the mailbox, so that the third is credited nothing before a
render has emptied it. -/
def crowdedSchedule : List (Choice (Party.Call ℚ)) :=
  uninterrupted .producer (.pushTagged [1 / 2] 1 0 (List.replicate maxSpans ⟨0, 1⟩)) ++
    uninterrupted .producer (.pushTagged [1 / 2] 1 1 (List.replicate maxSpans ⟨1, 2⟩)) ++
    uninterrupted .producer (.pushTagged [1 / 4] 1 2 [⟨1, 3⟩]) ++
    uninterrupted .consumer .render ++
    uninterrupted .producer (.pushTagged [1 / 4] 1 2 [⟨1, 3⟩])

theorem retryClosed_crowded :
    ∃ (geometry : Geometry) (config : RingConfig ℚ Unit ℚ)
      (first retry : ProducerRecord ℚ Unit ℚ),
      RingReachable unitConverter smallSettings (fun _ _ => True) geometry config ∧
      first.result = .credit (some 0) ∧ retry.result = .credit (some 1) ∧
      RetryClosed 1 [⟨1, 3⟩] [1 / 4] first [retry] := by
  let shown (_ : Geometry) (config : RingConfig ℚ Unit ℚ) : Bool :=
    match config.returned .producer with
    | [_, _, first, retry] => retriedOnce 1 2 [⟨1, 3⟩] [1 / 4] 0 (some 1) first retry
    | _ => false
  have played : (playRing unitConverter smallSettings crowdedSchedule).any
      (fun played => shown played.1 played.2) = true := by decide +kernel
  obtain ⟨geometry, config, reached, shows⟩ :=
    reachable_of_plays _ _ _ shown (admitted_any crowdedSchedule) played
  dsimp only [shown] at shows
  split at shows
  · rename_i other another first retry returned
    obtain ⟨retried, firstResult, retryResult, retryCall⟩ :=
      retried_once [other, another] returned (by decide) shows
    refine ⟨geometry, config, first, retry, reached, firstResult, retryResult,
      (retryClosed_iff reached retried).mpr ?_⟩
    intro other member
    obtain rfl := List.mem_singleton.mp member
    rw [retryCall]
    intro span spanMember
    obtain rfl := List.mem_singleton.mp spanMember
    obtain ⟨ring, created, -⟩ := reached
    have roomy : 2 ≤ geometry.capacity := Nat.le_trans (by decide) (create_capacity created)
    exact (Nat.sub_eq_zero_of_le roomy).trans_le (Nat.zero_le _)
  · cases shows

/-- A queue that one tagged block fills, but for its last sample.  The muted
span begins a full capacity before the block. -/
def fillingSchedule : List (Choice (Party.Call ℚ)) :=
  [.invoke .producer (.pushTagged (List.replicate 513 (1 / 2)) 1 600 [⟨88, 700⟩]),
    .complete .producer 20000] ++
    uninterrupted .producer (.pushTagged [1 / 2] 1 1112 [⟨88, 700⟩])

/-- The block is credited up to its last sample, and the documented retry of that
sample is an argument error. -/
theorem retry_refused :
    ∃ (geometry : Geometry) (config : RingConfig ℚ Unit ℚ)
      (first retry : ProducerRecord ℚ Unit ℚ),
      RingReachable unitConverter { smallSettings with maxProducer := 513 }
        (fun _ _ => True) geometry config ∧
      Retried config 1 600 [⟨88, 700⟩] (List.replicate 513 (1 / 2)) first [retry] ∧
      first.result = .credit (some 512) ∧ retry.result = .credit none ∧
      ¬RetryClosed 1 [⟨88, 700⟩] (List.replicate 513 (1 / 2)) first [retry] := by
  let shown (_ : Geometry) (config : RingConfig ℚ Unit ℚ) : Bool :=
    match config.returned .producer with
    | [first, retry] =>
        retriedOnce 1 600 [⟨88, 700⟩] (List.replicate 513 (1 / 2)) 512 none first retry
    | _ => false
  have played : (playRing unitConverter { smallSettings with maxProducer := 513 }
      fillingSchedule).any (fun played => shown played.1 played.2) = true := by decide +kernel
  obtain ⟨geometry, config, reached, shows⟩ :=
    reachable_of_plays _ _ _ shown (admitted_any fillingSchedule) played
  dsimp only [shown] at shows
  split at shows
  · rename_i first retry returned
    obtain ⟨retried, firstResult, retryResult, -⟩ :=
      retried_once [] returned
        (Nat.lt_of_lt_of_eq (by decide) List.length_replicate.symm) shows
    exact ⟨geometry, config, first, retry, reached, retried, firstResult, retryResult,
      fun closed => closed.accepted retry (by simp) retryResult⟩
  · cases shows

end PcmRing
