import PcmRing.ProducerCalls

/-!
# What each producer call establishes

A call appends slots and mute records.  The slots carry the block it was given;
those of a tagged block carry its stamp, unless a gate was passed with a stale
epoch, and every span of the block was published before them.
-/

namespace PcmRing

open AtomicProgram TwoLapQueue

variable {F S W β : Type} {geometry : Geometry} {resets : Prop} {single : Option Nat}

theorem preordered_consumerMoves :
    Program.Preordered (ConsumerMoves (F := F) (S := S) (W := W) geometry resets) :=
  ⟨.refl, .trans⟩

theorem muteWriter : (mutePort (F := F) (S := S) (W := W)).WriterSide mailboxQueue Ring.mutes
    (ConsumerMoves geometry resets) (ProducerGuar geometry resets single) where
  order := preordered_consumerMoves
  reads moves := moves.mutes
  permits access ring permitted := by
    refine producerGuar_quiet permitted rfl ?_
    cases access <;> rfl

section Mailbox

variable {post : β → Ring F S W → Prop} {ring : Ring F S W}

theorem safe_mailboxFree (holds : ProducerHolds geometry resets single ring)
    {next : Nat → RingProgram F S W β}
    (safe : ∀ free now, ProducerHolds geometry resets single now → Accepts resets ring [] now →
      now.producerView = ring.producerView → (Gated resets ring → Gated resets now) →
      distance mailboxQueue now.mutes.queue.written now.mutes.queue.read + free = mailboxQueue →
      (next free).Safe (exec geometry) (ConsumerMoves geometry resets)
        (ProducerGuar geometry resets single) post now) :
    (mailboxFree mutePort >>= next).Safe (exec geometry) (ConsumerMoves geometry resets)
      (ProducerGuar geometry resets single) post ring := by
  unfold mailboxFree
  rw [bind_assoc]
  refine Port.safe_occupied_writer (mute_lawful geometry) muteWriter.filler holds.mutes
    fun now moves => ?_
  have nowHolds := holds.stable moves
  refine safe _ now nowHolds ((Accepts.refl ring).stable moves) moves.producerView_eq
    (fun gated => gated.stable moves) ?_
  have bounded := nowHolds.mutes.valid.distance_le
  rw [Channel.unread_length]
  omega

theorem safe_producerAvailable {next : Nat → RingProgram F S W β}
    (safe : ∀ count now, ConsumerMoves geometry resets ring now →
      (next count).Safe (exec geometry) (ConsumerMoves geometry resets)
        (ProducerGuar geometry resets single) post now) :
    (available geometry >>= next).Safe (exec geometry) (ConsumerMoves geometry resets)
      (ProducerGuar geometry resets single) post ring := by
  unfold available Port.occupied
  simp only [bind_assoc]
  refine safe_answer (.pcm .loadWritten) trivial fun first firstMoves =>
    ⟨producerGuar_quiet ⟨trivial, .inl trivial⟩ rfl rfl, ?_⟩
  refine safe_answer (.pcm .loadRead) trivial fun second secondMoves =>
    ⟨producerGuar_quiet ⟨trivial, .inl trivial⟩ rfl rfl, ?_⟩
  exact safe _ second (firstMoves.trans secondMoves)

theorem safe_mailboxPublish {generation stop : Nat} {spans : List Span}
    (holds : ProducerHolds geometry resets single ring)
    (room : distance mailboxQueue ring.mutes.queue.written ring.mutes.queue.read +
      spans.length ≤ mailboxQueue)
    {next : Unit → RingProgram F S W β}
    (safe : ∀ now : Ring F S W, ProducerHolds geometry resets single now →
      now.producerView = { ring.producerView with
        records := ring.producerView.records ++ clippedIntervals generation spans stop
        bursts := ring.producerView.bursts ++ List.replicate
          (clippedIntervals generation spans stop).length ring.producerView.epoch } →
      (Gated resets ring → Gated resets now) →
      (next ()).Safe (exec geometry) (ConsumerMoves geometry resets)
        (ProducerGuar geometry resets single) post now) :
    (mailboxPublish mutePort generation spans stop >>= next).Safe (exec geometry)
      (ConsumerMoves geometry resets) (ProducerGuar geometry resets single) post ring := by
  unfold mailboxPublish
  have clippedLe : (clippedIntervals generation spans stop).length ≤ spans.length :=
    List.length_filterMap_le _ _
  generalize clippedIntervals generation spans stop = intervals at clippedLe safe ⊢
  refine Port.safe_append (mute_lawful geometry) muteWriter
    (fun current => ProducerHolds geometry resets single current ∧
      current.producerView = ring.producerView ∧ (Gated resets ring → Gated resets current))
    ?_ ?_ (fun _ current => current.1.mutes) intervals ⟨holds, rfl, id⟩ (by omega) ?_
  · rintro first last moves ⟨firstHolds, viewEq, gated⟩
    exact ⟨firstHolds.stable moves, moves.producerView_eq.trans viewEq,
      fun start => (gated start).stable moves⟩
  · rintro memory index value ⟨memoryHolds, viewEq, gated⟩ permitted
    exact ⟨{ memoryHolds with mutes := Channel.sound_writer memoryHolds.mutes permitted },
      viewEq, fun start => { gated start with }⟩
  · rintro current ⟨currentHolds, viewEq, gated⟩ - currentRoom segmentEq
    have positive : intervals.length < mailboxQueue * 2 := by
      have : 0 < mailboxQueue := by decide
      omega
    have countEq : distance mailboxQueue ((current.mutes.queue.written + intervals.length) %
        (mailboxQueue * 2)) current.mutes.queue.written = intervals.length :=
      distance_advance currentHolds.mutes.valid.written_lt positive
    have nowView : (effect geometry (.mutes (.storeWritten
        ((current.mutes.queue.written + intervals.length) % (mailboxQueue * 2))))
          current).producerView = { ring.producerView with
        records := ring.producerView.records ++ intervals
        bursts := ring.producerView.bursts ++
          List.replicate intervals.length ring.producerView.epoch } := by
      rw [← viewEq]
      simp only [Ring.producerView, effect, Ledger.note, Channel.exec, countEq, segmentEq]
    refine safe _ ⟨currentHolds.pcm, Channel.sound_writer currentHolds.mutes
      ⟨intervals.length, rfl, currentRoom⟩, currentHolds.epoch_le, ?_⟩ nowView
      fun start => { gated start with }
    exact (congrArg (ProducerView.Traced resets single) nowView).mpr
      (viewEq ▸ currentHolds.traced).record

end Mailbox

/-- Slots appended between two memories, and what they carry. -/
structure Appends (entry : Ring F S W) (slots : List (SourceSample F))
    (intervals : List Interval) (exit : Ring F S W) : Prop where
  published_eq : exit.pcm.published = entry.pcm.published ++ slots
  records_eq : exit.mutes.published = entry.mutes.published ++ intervals

/-- A record around a source position. -/
def Interval.Covers (interval : Interval) (generation position : Nat) : Prop :=
  interval.generation = generation ∧ interval.span.start ≤ position ∧
    position < interval.span.stop

/-- The accepted slots of a tagged block carry its stamp. -/
def StampedFrom (slots : List (SourceSample F)) (generation sourceStart : Nat) : Prop :=
  ∀ (index : Nat) slot, slots[index]? = some slot →
    slot.stamp = some ⟨generation, sourceStart + index⟩

/-- Every accepted position of a span has a record that was published before
each of the block's slots. -/
def SpansAhead (entry exit : Ring F S W) (generation : Nat) (spans : List Span)
    (stop : Nat) : Prop :=
  ∀ (index : Nat) note, entry.pcm.published.length ≤ index →
    exit.ledger.slots[index]? = some note →
    ∀ span ∈ spans, ∀ position, span.start ≤ position → position < span.stop →
      position < stop → ∃ record < note.lead, ∃ interval,
        exit.mutes.published[record]? = some interval ∧ interval.Covers generation position

/-- What a producer call establishes, by its result. -/
def ProducerPost [Binary32 F] (resets : Prop) :
    ProducerCall F → Ring F S W → ProducerResult → Ring F S W → Prop
  | .pushSample sample, entry, .published accepted, exit => ∃ slots,
      Appends entry slots [] exit ∧ accepted = decide (slots ≠ []) ∧
      slots.map SourceSample.content <+: [(canonicalize sample, false)]
  | .push input, entry, .count accepted, exit => ∃ slots,
      Appends entry slots [] exit ∧ accepted = slots.length ∧
      slots.map SourceSample.content <+: input.map fun sample => (canonicalize sample, false)
  | .gap samples, entry, .count accepted, exit => ∃ slots,
      Appends entry slots [] exit ∧ accepted = slots.length ∧
      slots.map SourceSample.content <+: List.replicate samples (0, true)
  | .pushTagged input generation sourceStart spans, entry, .credit (some accepted), exit =>
      ∃ slots intervals, Appends entry slots intervals exit ∧ accepted = slots.length ∧
      slots.map SourceSample.content <+: input.map (fun sample => (canonicalize sample, false)) ∧
      (¬resets → exit.ledger.gatesCurrent = true → StampedFrom slots generation sourceStart) ∧
      SpansAhead entry exit generation spans (sourceStart + accepted) ∧
      (0 < accepted → sourceStart + accepted < 2 ^ 64)
  | .mute generation spans, entry, .credit (some credited), exit => ∃ stop,
      Appends entry [] (clippedIntervals generation (spans.take credited) stop) exit ∧
      (∀ span ∈ spans, span.stop ≤ stop) ∧
      exit.ledger.records.length = exit.mutes.published.length ∧
      ∀ burst ∈ exit.ledger.records, burst ≤ exit.producerEpoch
  | .pushTagged .., entry, .credit none, exit | .mute .., entry, .credit none, exit
  | .finish, entry, .token _, exit | .status _, entry, .status _, exit =>
      Appends entry [] [] exit
  | _, _, _, _ => False

section Posts

variable {post : β → Ring F S W → Prop} {ring : Ring F S W}

theorem Accepts.appends {entry now : Ring F S W} {slots : List (SourceSample F)}
    (accepts : Accepts resets entry slots now) : Appends entry slots [] now :=
  ⟨accepts.published_eq, accepts.records_eq.trans (List.append_nil _).symm⟩

/-- A call that accepts no slot leaves no note to speak about. -/
theorem Accepts.spansAhead {entry now : Ring F S W} (accepts : Accepts resets entry [] now)
    (holds : ProducerHolds geometry resets single now) {generation stop : Nat}
    {spans : List Span} : SpansAhead entry now generation spans stop := by
  intro index note late noteAt
  have short : now.ledger.slots.length = entry.pcm.published.length := by
    have lengths := holds.traced.slots_length
    rw [accepts.published_eq, List.append_nil] at lengths
    exact lengths
  rw [List.getElem?_eq_none (by omega)] at noteAt
  cases noteAt

/-- A span with an accepted position leaves a record around it. -/
theorem mem_clippedIntervals {generation stop position : Nat} {spans : List Span} {span : Span}
    (member : span ∈ spans) (low : span.start ≤ position) (high : position < span.stop)
    (accepted : position < stop) :
    ∃ interval ∈ clippedIntervals generation spans stop,
      interval.Covers generation position := by
  have kept : span.start < min span.stop stop :=
    Nat.lt_of_le_of_lt low (Nat.lt_min.mpr ⟨high, accepted⟩)
  refine ⟨⟨generation, ⟨span.start, min span.stop stop⟩, kept⟩, ?_, rfl, low, ?_⟩
  · exact List.mem_filterMap.mpr ⟨span, member, dif_pos kept⟩
  · exact Nat.lt_min.mpr ⟨high, accepted⟩

/-- Records published just before a block are ahead of all its slots. -/
theorem spansAhead_of_accepts {entry before now : Ring F S W}
    {slots : List (SourceSample F)} {generation stop : Nat} {spans : List Span}
    (noted : before.producerView.slots.length = entry.pcm.published.length)
    (recordsEq : before.producerView.records =
      entry.mutes.published ++ clippedIntervals generation spans stop)
    (accepts : Accepts resets before slots now) {reached : Nat} (reachedLe : reached ≤ stop) :
    SpansAhead entry now generation spans reached := by
  intro index note late noteAt span member position low high accepted
  obtain ⟨interval, intervalMember, covers⟩ := mem_clippedIntervals member low high
    (Nat.lt_of_lt_of_le accepted reachedLe)
  obtain ⟨place, placeLt, placeEq⟩ := List.getElem_of_mem intervalMember
  obtain ⟨fresh, freshEq, lead⟩ := accepts.notes
  have noteMember : note ∈ fresh := by
    change now.producerView.slots[index]? = some note at noteAt
    rw [freshEq, List.getElem?_append_right (noted ▸ late)] at noteAt
    exact List.mem_of_getElem? noteAt
  have recordsNow : now.mutes.published =
      entry.mutes.published ++ clippedIntervals generation spans stop :=
    accepts.records_eq.trans recordsEq
  refine ⟨entry.mutes.published.length + place, ?_, interval, ?_, covers⟩
  · rw [lead note noteMember, recordsEq, List.length_append]
    omega
  · rw [recordsNow, List.getElem?_append_right (Nat.le_add_right _ _), Nat.add_sub_cancel_left,
      List.getElem?_eq_getElem placeLt, placeEq]

variable [Binary32 F]

theorem safe_producerPushTagged (input : List F) (generation sourceStart : Nat)
    (spans : List Span) (uniform : ∀ only ∈ single, generation = only)
    (holds : ProducerHolds geometry resets single ring)
    {next : Option Nat → RingProgram F S W β}
    (invalid : ∀ now, ProducerHolds geometry resets single now → Accepts resets ring [] now →
      (next none).Safe (exec geometry) (ConsumerMoves geometry resets)
        (ProducerGuar geometry resets single) post now)
    (safe : ∀ slots intervals now, ProducerHolds geometry resets single now →
      Appends ring slots intervals now →
      slots.map SourceSample.content <+: input.map (fun sample => (canonicalize sample, false)) →
      (¬resets → now.ledger.gatesCurrent = true → StampedFrom slots generation sourceStart) →
      SpansAhead ring now generation spans (sourceStart + slots.length) →
      (0 < slots.length → sourceStart + slots.length < 2 ^ 64) →
      (next (some slots.length)).Safe (exec geometry) (ConsumerMoves geometry resets)
        (ProducerGuar geometry resets single) post now) :
    (producerPushTagged geometry input generation sourceStart spans >>= next).Safe
      (exec geometry) (ConsumerMoves geometry resets) (ProducerGuar geometry resets single) post
      ring := by
  have refused : ∀ now, ProducerHolds geometry resets single now → Accepts resets ring [] now →
      (next (some 0)).Safe (exec geometry) (ConsumerMoves geometry resets)
        (ProducerGuar geometry resets single) post now := fun now nowHolds nowAccepts =>
    safe [] [] now nowHolds nowAccepts.appends List.nil_prefix
      (fun _ _ index slot slotAt => by cases slotAt) (nowAccepts.spansAhead nowHolds)
      fun positive => (Nat.lt_irrefl 0 positive).elim
  unfold producerPushTagged
  simp only [bind_assoc]
  refine safe_syncProducerEpoch holds fun first firstHolds firstAccepts => ?_
  refine safe_publishGate firstHolds fun pending second secondHolds secondAccepts opened => ?_
  have secondIdle := firstAccepts.trans secondAccepts
  cases pending with
  | true => exact refused second secondHolds secondIdle
  | false =>
      have secondGated := opened rfl
      rw [if_neg (by simp)]
      split
      · exact invalid second secondHolds secondIdle
      · rename_i valid
        have fitting : sourceStart + input.length < 2 ^ 64 := not_le.mp (not_or.mp valid).1
        rw [bind_assoc]
        refine safe_answer .loadStamp trivial fun third thirdMoves =>
          ⟨producerGuar_quiet trivial rfl rfl, ?_⟩
        have thirdHolds := secondHolds.stable thirdMoves
        have thirdIdle := secondIdle.stable thirdMoves
        have thirdGated := secondGated.stable thirdMoves
        have stampLoaded : answer geometry .loadStamp third = third.producerStamp := rfl
        rw [stampLoaded]
        split
        · exact invalid third thirdHolds thirdIdle
        · rename_i continues
          rw [bind_assoc]
          refine safe_mailboxFree thirdHolds
            fun free fourth fourthHolds fourthAccepts fourthView fourthGated room => ?_
          have fourthIdle := thirdIdle.trans fourthAccepts
          split
          · exact refused fourth fourthHolds fourthIdle
          · rename_i fits
            rw [bind_assoc]
            refine safe_producerAvailable fun occupied fifth fifthMoves => ?_
            have fifthHolds := fourthHolds.stable fifthMoves
            have fifthIdle := fourthIdle.stable fifthMoves
            have fifthGated := (fourthGated thirdGated).stable fifthMoves
            split
            · rw [bind_assoc]
              refine safe_countDiscarded _ fifthHolds fun _ last lastHolds lastAccepts => ?_
              exact refused last lastHolds (fifthIdle.trans lastAccepts)
            · have countLe : min input.length (geometry.capacity - occupied) ≤ input.length :=
                Nat.min_le_left _ _
              generalize min input.length (geometry.capacity - occupied) = count at countLe ⊢
              rw [bind_assoc]
              refine safe_mailboxPublish fifthHolds ?_ fun sixth sixthHolds sixthView
                sixthGated => ?_
              · have kept := (fifthMoves.mutes fourthHolds.mutes).2.distance_le
                omega
              rw [bind_assoc]
              refine safe_access.mpr fun seventh seventhMoves =>
                ⟨producerGuar_quiet trivial rfl rfl, ?_⟩
              have seventhHolds := sixthHolds.stable seventhMoves
              have seventhGated := (sixthGated fifthGated).stable seventhMoves
              have seventhView := seventhMoves.producerView_eq.trans sixthView
              have fifthView := fifthMoves.producerView_eq.trans fourthView
              have stampEq : seventh.producerView.stamp = third.producerStamp := by
                rw [seventhView, fifthView]
                rfl
              have tagged := seventhHolds.traced.tag
                (fun still passed => (seventhGated.current still passed).symm)
                (stampEq ▸ continues) uniform
              have taggedHolds : ProducerHolds geometry resets single (effect geometry
                  (.setStamp (some ⟨generation, sourceStart⟩)) seventh) :=
                { seventhHolds with traced := tagged }
              rw [bind_assoc]
              refine safe_producerPush (input.take count) taggedHolds
                fun slots eighth eighthHolds eighthAccepts carried => ?_
              rw [bind_assoc]
              refine safe_countDiscarded _ eighthHolds fun _ last lastHolds lastAccepts => ?_
              have accepts := eighthAccepts.trans lastAccepts
              rw [List.append_nil] at accepts
              have publishedEq : seventh.producerView.published = ring.pcm.published := by
                rw [seventhView]
                exact fifthIdle.published_eq.trans (List.append_nil _)
              have recordsEq : seventh.producerView.records = ring.mutes.published ++
                  clippedIntervals generation spans (sourceStart + count) := by
                rw [seventhView, show ring.mutes.published = fifth.producerView.records from
                  fifthIdle.records_eq.symm]
              have slotsLe : slots.length ≤ count := by
                have bounded := carried.length_le
                rw [List.length_map, List.length_map, List.length_take] at bounded
                omega
              refine safe slots (clippedIntervals generation spans (sourceStart + count)) last
                lastHolds ⟨?_, accepts.records_eq.trans recordsEq⟩ ?_ ?_ ?_ ?_
              · exact accepts.published_eq.trans (congrArg (· ++ slots) publishedEq)
              · rw [List.map_take] at carried
                exact carried.trans (List.take_prefix _ _)
              · intro still passed index slot slotAt
                exact (accepts.stamped still { seventhGated with } passed).2 index slot slotAt
              · refine spansAhead_of_accepts ?_ ?_ accepts (Nat.add_le_add_left slotsLe _)
                · exact seventhHolds.traced.slots_length.trans (congrArg List.length publishedEq)
                · exact recordsEq
              · exact fun _ => Nat.lt_of_le_of_lt
                  (Nat.add_le_add_left (Nat.le_trans slotsLe countLe) _) fitting

omit [Binary32 F] in
/-- A late mute publishes records for positions that were accepted. -/
theorem safe_producerMute (generation : Nat) (spans : List Span)
    (holds : ProducerHolds geometry resets single ring)
    {next : Option Nat → RingProgram F S W β}
    (invalid : ∀ now, ProducerHolds geometry resets single now → Accepts resets ring [] now →
      (next none).Safe (exec geometry) (ConsumerMoves geometry resets)
        (ProducerGuar geometry resets single) post now)
    (safe : ∀ credited stop now, ProducerHolds geometry resets single now →
      Appends ring [] (clippedIntervals generation (spans.take credited) stop) now →
      (∀ span ∈ spans, span.stop ≤ stop) →
      (next (some credited)).Safe (exec geometry) (ConsumerMoves geometry resets)
        (ProducerGuar geometry resets single) post now) :
    (producerMute geometry generation spans >>= next).Safe (exec geometry)
      (ConsumerMoves geometry resets) (ProducerGuar geometry resets single) post ring := by
  unfold producerMute
  simp only [bind_assoc]
  refine safe_syncProducerEpoch holds fun first firstHolds firstAccepts => ?_
  refine safe_answer .loadStamp trivial fun second secondMoves =>
    ⟨producerGuar_quiet trivial rfl rfl, ?_⟩
  have secondHolds := firstHolds.stable secondMoves
  have secondIdle := firstAccepts.stable secondMoves
  have stampLoaded : answer geometry .loadStamp second = second.producerStamp := rfl
  rw [stampLoaded]
  split
  · exact invalid second secondHolds secondIdle
  · rename_i current _
    split
    · exact invalid second secondHolds secondIdle
    · rename_i valid
      rw [bind_assoc]
      refine safe_mailboxFree secondHolds
        fun free third thirdHolds thirdAccepts thirdView _ room => ?_
      have thirdIdle := secondIdle.trans thirdAccepts
      rw [bind_assoc]
      refine safe_mailboxPublish thirdHolds ?_ fun fourth fourthHolds fourthView _ => ?_
      · rw [List.length_take]
        omega
      refine safe _ current.source fourth fourthHolds ⟨?_, ?_⟩ fun span member => ?_
      · exact (congrArg ProducerView.published fourthView).trans thirdIdle.published_eq
      · refine (congrArg ProducerView.records fourthView).trans ?_
        rw [show third.producerView.records = ring.mutes.published from thirdIdle.records_eq]
      · by_contra beyond
        exact valid (.inr (.inr ⟨span, member, .inr (.inl (Nat.not_le.mp beyond))⟩))

omit [Binary32 F] in
theorem safe_producerFinish (holds : ProducerHolds geometry resets single ring)
    {next : Option Nat → RingProgram F S W β}
    (safe : ∀ token now, ProducerHolds geometry resets single now → Appends ring [] [] now →
      (next token).Safe (exec geometry) (ConsumerMoves geometry resets)
        (ProducerGuar geometry resets single) post now) :
    (producerFinish >>= next).Safe (exec geometry) (ConsumerMoves geometry resets)
      (ProducerGuar geometry resets single) post ring := by
  unfold producerFinish
  simp only [bind_assoc]
  refine safe_answer (.loadFinish .request) (by simp [Access.IsLoad]) fun first firstMoves =>
    ⟨producerGuar_quiet trivial rfl rfl, ?_⟩
  have firstHolds := holds.stable firstMoves
  have firstAccepts := (Accepts.refl ring : Accepts resets ring [] ring).stable firstMoves
  have wordLoaded : answer geometry (.loadFinish .request) first = first.finish := rfl
  rw [wordLoaded]
  split
  · exact safe none first firstHolds firstAccepts.appends
  · rename_i idle
    -- Keep the bound from being unfolded.
    generalize 2 ^ 62 = bound
    split
    · rw [bind_assoc]
      refine safe_access.mpr fun second secondMoves =>
        ⟨producerGuar_quiet ?_ rfl rfl, ?_⟩
      · rw [ProducerPermits, secondMoves.idle idle]
        exact ⟨idle, rfl⟩
      · have secondHolds := firstHolds.stable secondMoves
        exact safe _ _ { secondHolds with } { (firstAccepts.stable secondMoves).appends with }
    · exact safe none first firstHolds firstAccepts.appends

omit [Binary32 F] in
theorem safe_finishStatus (token : Nat) (holds : ProducerHolds geometry resets single ring)
    {next : Option FinishStatus → RingProgram F S W β}
    (safe : ∀ status now, ProducerHolds geometry resets single now → Appends ring [] [] now →
      (next status).Safe (exec geometry) (ConsumerMoves geometry resets)
        (ProducerGuar geometry resets single) post now) :
    (finishStatus token >>= next).Safe (exec geometry) (ConsumerMoves geometry resets)
      (ProducerGuar geometry resets single) post ring := by
  unfold finishStatus
  simp only [bind_assoc]
  refine safe_answer (.loadFinish .status) (by simp [Access.IsLoad]) fun first firstMoves =>
    ⟨producerGuar_quiet trivial rfl rfl, ?_⟩
  exact safe _ first (holds.stable firstMoves)
    ((Accepts.refl ring : Accepts resets ring [] ring).stable firstMoves).appends

/-- A call that tags its block with the one generation. -/
def ProducerCall.Uniform (single : Option Nat) : ProducerCall F → Prop
  | .pushTagged _ generation _ _ => ∀ only ∈ single, generation = only
  | _ => True

/-- Every producer call keeps the producer's invariant and establishes its post. -/
theorem safe_producerBody (call : ProducerCall F) (uniform : call.Uniform single)
    (holds : ProducerHolds geometry resets single ring) :
    (producerBody geometry call).Safe (exec geometry) (ConsumerMoves geometry resets)
      (ProducerGuar geometry resets single)
      (fun result exit => ProducerHolds geometry resets single exit ∧
        ProducerPost resets call ring result exit) ring := by
  have still {now : Ring F S W} {result : ProducerResult}
      (nowHolds : ProducerHolds geometry resets single now)
      (established : ∀ exit, ConsumerMoves geometry resets now exit →
        ProducerPost resets call ring result exit) :
      (pure result : RingProgram F S W ProducerResult).Safe (exec geometry)
        (ConsumerMoves geometry resets) (ProducerGuar geometry resets single)
        (fun result exit => ProducerHolds geometry resets single exit ∧
          ProducerPost resets call ring result exit) now :=
    fun exit moves => ⟨nowHolds.stable moves, established exit moves⟩
  cases call with
  | pushSample sample =>
      refine safe_producerPushSample sample holds fun slots now nowHolds accepts carried => ?_
      exact still nowHolds fun exit moves =>
        ⟨slots, (accepts.stable moves).appends, rfl, carried⟩
  | push input =>
      refine safe_producerPush input holds fun slots now nowHolds accepts carried => ?_
      exact still nowHolds fun exit moves =>
        ⟨slots, (accepts.stable moves).appends, rfl, carried⟩
  | gap samples =>
      refine safe_producerGap samples holds fun slots now nowHolds accepts carried => ?_
      exact still nowHolds fun exit moves =>
        ⟨slots, (accepts.stable moves).appends, rfl, carried⟩
  | pushTagged input generation sourceStart spans =>
      refine safe_producerPushTagged input generation sourceStart spans uniform holds ?_ ?_
      · intro now nowHolds accepts
        exact still nowHolds fun exit moves => (accepts.stable moves).appends
      · intro slots intervals now nowHolds appends carried stamped ahead fits
        refine still nowHolds fun exit moves =>
          ⟨slots, intervals, ?_, rfl, carried, ?_, ?_, fits⟩
        · exact ⟨moves.published_eq.trans appends.published_eq,
            moves.records_published_eq.trans appends.records_eq⟩
        · exact fun none passed => stamped none (moves.gatesCurrent_eq ▸ passed)
        · intro index note late noteAt
          rw [moves.records_published_eq]
          exact ahead index note late (moves.slots_eq ▸ noteAt)
  | mute generation spans =>
      refine safe_producerMute generation spans holds ?_ ?_
      · intro now nowHolds accepts
        exact still nowHolds fun exit moves => (accepts.stable moves).appends
      · intro credited stop now nowHolds appends inside
        exact still nowHolds fun exit moves => ⟨stop,
          ⟨moves.published_eq.trans appends.published_eq,
            moves.records_published_eq.trans appends.records_eq⟩, inside, by
              rw [moves.records_eq, moves.records_published_eq]
              exact nowHolds.traced.bursts_length, fun burst member => by
              rw [moves.records_eq] at member
              rw [moves.epoch_eq]
              exact nowHolds.traced.bursts_le burst member⟩
  | finish =>
      refine safe_producerFinish holds fun token now nowHolds appends => ?_
      exact still nowHolds fun exit moves =>
        ⟨moves.published_eq.trans appends.published_eq,
          moves.records_published_eq.trans appends.records_eq⟩
  | status token =>
      refine safe_finishStatus token holds fun status now nowHolds appends => ?_
      exact still nowHolds fun exit moves =>
        ⟨moves.published_eq.trans appends.published_eq,
          moves.records_published_eq.trans appends.records_eq⟩

end Posts

end PcmRing
