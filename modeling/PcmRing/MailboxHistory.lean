import PcmRing.RingOutline
import PcmRing.TaggedCredit

/-!
# The history of the mute mailbox

One producer that issues the calls of the ring and one consumer that pops
records, or drops what a snapshot of the write cursor covers, and may do
anything else that its protocol permits in between, in every schedule of their
single loads, stores and slot accesses.  Publishing checks nothing itself: each of its two
callers has looked for room before.
-/

namespace PcmRing

open AtomicProgram TwoLapQueue

variable {F S W : Type}

/-- Every access but those of the mailbox. -/
def Access.Elsewhere : Access F S W → Prop
  | .mutes _ => False
  | _ => True

inductive MailboxRead (F S W : Type) where
  | pop
  | reset
  | elsewhere (program : RingProgram F S W Unit)

inductive MailboxTaken where
  | popped (interval : Option Interval)
  | reset
  | elsewhere

@[reducible]
def Party.MailCall (F S W : Type) : Party → Type
  | producer => ProducerCall F
  | consumer => MailboxRead F S W

@[reducible]
def Party.MailRet : Party → Type
  | producer => ProducerResult
  | consumer => MailboxTaken

/-- What each thread runs. -/
def mailBody [Binary32 F] (geometry : Geometry) :
    (party : Party) → party.MailCall F S W → RingProgram F S W party.MailRet
  | .producer, call => producerBody geometry call
  | .consumer, .pop => return .popped (← mailboxPop mutePort)
  | .consumer, .reset => do
      mailboxReset mutePort
      return .reset
  | .consumer, .elsewhere program => do
      program
      return .elsewhere

abbrev MailConfig (F S W : Type) : Type :=
  Config (Access.Resp (F := F) (S := S) (W := W)) (Ring F S W) (Party.MailCall F S W)
    Party.MailRet

/-- A program of the consumer that leaves the mailbox alone and keeps to the
consumer's protocol, whatever the producer does meanwhile. -/
structure KeepsAway (geometry : Geometry) (program : RingProgram F S W Unit) : Prop where
  performs : program.Performs Access.Elsewhere
  safe : ∀ ring : Ring F S W, ring.pcm.Sound geometry.capacity →
    program.Safe (exec geometry) (ProducerMoves geometry (SingleLine none))
      (ConsumerPermits geometry True) (fun _ _ => True) ring

/-- Only pops and resets touch the mailbox on the consumer's side. -/
def MailAllowed (geometry : Geometry) : (party : Party) → party.MailCall F S W → Prop
  | .consumer, .elsewhere program => KeepsAway geometry program
  | _, _ => True

/-- Every schedule from a created ring. -/
def MailReachable [Binary32 F] [Binary64 W] (adapter : Adapter F W S) (settings : Settings)
    (geometry : Geometry) (config : MailConfig F S W) : Prop :=
  ∃ ring, Ring.create adapter settings = .ok (geometry, ring) ∧
    Reachable (mailBody geometry) (exec geometry) (MailAllowed geometry) ring config

/-- The non-empty clipped spans of one publication. -/
def Batch (call : ProducerCall F) (records : List Interval) : Prop :=
  match call with
  | .pushTagged input generation sourceStart spans => ∃ count ≤ input.length,
      records = clippedIntervals generation spans (sourceStart + count)
  | .mute generation spans => ∃ credited stop, (∀ span ∈ spans, span.stop ≤ stop) ∧
      records = clippedIntervals generation (spans.take credited) stop
  | _ => False

/-- A call of `free` between two memories, before anything was published,
reported so much room. -/
def Reported (free : Nat) (entry exit : Channel Interval) : Prop :=
  ∃ moment : Channel Interval, moment.Sound mailboxQueue ∧
    moment.published = entry.published ∧ entry.passed <+: moment.passed ∧
    moment.passed <+: exit.passed ∧ free = mailboxQueue - (moment.unread mailboxQueue).length

/-- The records one call appends: those of the credited part of its block, for
which it saw room, and none without credit. -/
def Published (record : Returned (Ring F S W) (ProducerCall F) ProducerResult)
    (records : List Interval) : Prop :=
  match record.call, record.result with
  | .pushTagged _ generation sourceStart spans, .credit accepted =>
      accepted.getD 0 = 0 ∧ records = [] ∨
      0 < accepted.getD 0 ∧
        records = clippedIntervals generation spans (sourceStart + accepted.getD 0) ∧
        ∃ free, Reported free record.entry.mutes record.exit.mutes ∧ spans.length ≤ free
  | .mute generation spans, .credit (some credited) => ∃ stop free,
      (∀ span ∈ spans, span.stop ≤ stop) ∧
      records = clippedIntervals generation (spans.take credited) stop ∧
      Reported free record.entry.mutes record.exit.mutes ∧ credited = min spans.length free
  | _, _ => records = []

/-- The moves of the read cursor one call of the consumer makes. -/
def Popped (record : Returned (Ring F S W) (MailboxRead F S W) MailboxTaken)
    (moves : List (Consumption Interval)) : Prop :=
  match record.call, record.result with
  | .pop, .popped (some interval) => moves = [.took interval]
  -- A pop that finds nothing found everything passed that was published before it.
  | .pop, .popped none =>
      moves = [] ∧ record.entry.mutes.published <+: record.exit.mutes.passed
  | .reset, .reset => ∃ snapshot values, moves = [.dropped snapshot values] ∧
      record.entry.mutes.published.length ≤ snapshot ∧
      snapshot ≤ record.exit.mutes.published.length
  | .elsewhere _, .elsewhere => moves = []
  | _, _ => False

variable {geometry : Geometry}

/-- An access of the producer to the mailbox is one of a writer. -/
def MailWriterGuar (op : Access F S W) (ring : Ring F S W) : Prop :=
  match op with
  | .mutes access => ring.mutes.WriterPermits mailboxQueue access
  | _ => True

/-- The store of a call that publishes: nothing of the call was visible before,
and the whole batch is in the cells. -/
def BatchGuar (call : ProducerCall F) (entry : Ring F S W) (op : Access F S W)
    (ring : Ring F S W) : Prop :=
  MailWriterGuar op ring ∧ ∀ cursor, op = .mutes (.storeWritten cursor) →
    ring.mutes.published = entry.mutes.published ∧
    Batch call (Queue.segment mailboxQueue ring.mutes.queue.cells ring.mutes.queue.written
      (distance mailboxQueue cursor ring.mutes.queue.written))

theorem mutes_elsewhere {op : Access F S W} (elsewhere : op.Elsewhere) (ring : Ring F S W) :
    (effect geometry op ring).mutes = ring.mutes := by
  cases op with
  | mutes access => exact elsewhere.elim
  | _ => rfl

/-- Since `base` the producer published `records`, and the reader passed more. -/
structure Since (base : Channel Interval) (records : List Interval) (now : Channel Interval) :
    Prop where
  sound : now.Sound mailboxQueue
  published_eq : now.published = base.published ++ records
  passed : base.passed <+: now.passed

theorem Since.refl {base : Channel Interval} (sound : base.Sound mailboxQueue) :
    Since base [] base :=
  ⟨sound, (List.append_nil _).symm, List.prefix_rfl⟩

theorem Since.reads {base : Channel Interval} {records : List Interval} {first last : Ring F S W}
    (since : Since base records first.mutes) (moves : ConsumerMoves geometry True first last) :
    Since base records last.mutes := by
  obtain ⟨sound, reads⟩ := moves.mutes since.sound
  exact ⟨sound, reads.published_eq.trans since.published_eq,
    since.passed.trans (reads.passed_prefix since.sound sound)⟩

theorem unread_le_mailboxQueue {now : Channel Interval} (sound : now.Sound mailboxQueue) :
    (now.unread mailboxQueue).length ≤ mailboxQueue := by
  rw [Channel.unread_length]
  exact sound.valid.distance_le

theorem Since.unread_le {base now : Channel Interval} (since : Since base [] now)
    (sound : base.Sound mailboxQueue) :
    (now.unread mailboxQueue).length ≤ (base.unread mailboxQueue).length := by
  have before := sound.published_length
  have after := since.sound.published_length
  have passedLe := since.passed.length_le
  rw [since.published_eq, List.append_nil] at after
  rw [Channel.unread_length, Channel.unread_length]
  omega

section Producer

variable {α β : Type} {call : ProducerCall F} {entry ring : Ring F S W} {base : Channel Interval}
  {records : List Interval} {post : β → Ring F S W → Prop}

theorem batchGuar_of_other {op : Access F S W} {now : Ring F S W}
    (other : ∀ cursor, op ≠ .mutes (.storeWritten cursor)) (promised : MailWriterGuar op now) :
    BatchGuar call entry op now :=
  ⟨promised, fun cursor same => (other cursor same).elim⟩

theorem mailFiller : (mutePort (F := F) (S := S) (W := W)).FillerSide mailboxQueue Ring.mutes
    (ConsumerMoves geometry True) (BatchGuar call entry) where
  order := preordered_consumerMoves
  reads moves := moves.mutes
  permits _ _ other permitted :=
    batchGuar_of_other (fun cursor same => other cursor (Access.mutes.inj same)) permitted

/-- What is performed elsewhere leaves the mailbox to the reader. -/
theorem safe_mailElsewhere {program : RingProgram F S W α}
    (performs : program.Performs Access.Elsewhere) (since : Since base records ring.mutes)
    {next : α → RingProgram F S W β}
    (safe : ∀ value (now : Ring F S W), Since base records now.mutes →
      (next value).Safe (exec geometry) (ConsumerMoves geometry True) (BatchGuar call entry) post now) :
    (program >>= next).Safe (exec geometry) (ConsumerMoves geometry True) (BatchGuar call entry) post ring := by
  refine Program.Safe.bind preordered_consumerMoves (Program.Safe.mono safe
    (performs.safe (fun now : Ring F S W => Since base records now.mutes) ?_ ?_
      (fun moves since => since.reads moves) since))
  · intro op now elsewhere
    cases op with
    | mutes access => exact elsewhere.elim
    | _ => exact batchGuar_of_other (by simp) trivial
  · intro op now elsewhere since
    change Since base records (effect geometry op now).mutes
    rwa [mutes_elsewhere elsewhere]

theorem safe_mailFree (since : Since base [] ring.mutes) {next : Nat → RingProgram F S W β}
    (safe : ∀ now : Ring F S W, Since base [] now.mutes →
      (next (mailboxQueue - (now.mutes.unread mailboxQueue).length)).Safe (exec geometry)
        (ConsumerMoves geometry True) (BatchGuar call entry) post now) :
    (mailboxFree mutePort >>= next).Safe (exec geometry) (ConsumerMoves geometry True) (BatchGuar call entry) post
      ring := by
  unfold mailboxFree
  rw [bind_assoc]
  exact Port.safe_occupied_writer (mute_lawful geometry) mailFiller since.sound
    fun now moves => safe now (since.reads moves)

theorem safe_mailPublish {generation stop : Nat} {spans : List Span} (since : Since base [] ring.mutes)
    (first : base.published = entry.mutes.published)
    (batch : Batch call (clippedIntervals generation spans stop))
    (room : (ring.mutes.unread mailboxQueue).length + spans.length ≤ mailboxQueue)
    {next : Unit → RingProgram F S W β}
    (safe : ∀ now : Ring F S W, Since base (clippedIntervals generation spans stop) now.mutes →
      (next ()).Safe (exec geometry) (ConsumerMoves geometry True) (BatchGuar call entry) post now) :
    (mailboxPublish mutePort generation spans stop >>= next).Safe (exec geometry) (ConsumerMoves geometry True)
      (BatchGuar call entry) post ring := by
  unfold mailboxPublish
  have clippedLe : (clippedIntervals generation spans stop).length ≤ spans.length :=
    List.length_filterMap_le _ _
  generalize clippedIntervals generation spans stop = intervals at clippedLe batch safe ⊢
  rw [Channel.unread_length] at room
  refine Port.safe_append_promised (mute_lawful geometry) mailFiller
    (fun now => Since base [] now.mutes) (fun moves since => since.reads moves) ?_
    (fun _ since => since.sound) intervals since (by omega) ?_
  · exact fun now index value since permitted =>
      ⟨Channel.sound_writer since.sound permitted, since.published_eq, since.passed⟩
  · intro now nowSince _ nowRoom segmentEq
    have positive : intervals.length < mailboxQueue * 2 := by
      have : 0 < mailboxQueue := by decide
      omega
    have countEq : distance mailboxQueue ((now.mutes.queue.written + intervals.length) %
        (mailboxQueue * 2)) now.mutes.queue.written = intervals.length :=
      distance_advance nowSince.sound.valid.written_lt positive
    have permitted : now.mutes.WriterPermits mailboxQueue (.storeWritten
        ((now.mutes.queue.written + intervals.length) % (mailboxQueue * 2))) :=
      ⟨intervals.length, rfl, nowRoom⟩
    refine ⟨⟨permitted, fun cursor same => ?_⟩, safe _
      ⟨Channel.sound_writer nowSince.sound permitted, ?_, nowSince.passed⟩⟩
    · cases same
      rw [countEq, segmentEq]
      exact ⟨nowSince.published_eq.trans ((List.append_nil _).trans first), batch⟩
    · change (now.mutes.exec mailboxQueue _).2.published = _
      simp only [Channel.exec, countEq, segmentEq, nowSince.published_eq, List.append_nil]

theorem performs_elsewhere {program : RingProgram F S W α}
    (performs : program.Performs Access.PublishesSlots) : program.Performs Access.Elsewhere := by
  refine performs.mono fun op slots => ?_
  cases op with
  | mutes access => exact slots
  | _ => trivial

/-- What a producer call establishes for the mailbox. -/
def MailPost (call : ProducerCall F) (entry : Ring F S W) (result : ProducerResult)
    (exit : Ring F S W) : Prop :=
  ∃ records, exit.mutes.published = entry.mutes.published ++ records ∧
    Published ⟨call, entry, result, exit⟩ records

/-- What the accesses of one call to the mailbox show: a credited tagged block
saw room for its records. -/
def Seen (record : Returned (Ring F S W) (ProducerCall F) ProducerResult)
    (records : List Interval) : Prop :=
  match record.call, record.result with
  | .pushTagged _ _ _ spans, .credit accepted => accepted.getD 0 = 0 ∨
      ∃ free, Reported free record.entry.mutes record.exit.mutes ∧ spans.length ≤ free
  | _, _ => Published record records

theorem Seen.published {record : Returned (Ring F S W) (ProducerCall F) ProducerResult}
    {records : List Interval} (seen : Seen record records)
    (publishedEq : record.exit.mutes.published = record.entry.mutes.published ++ records)
    (credits : ∀ input generation sourceStart spans,
      record.call = .pushTagged input generation sourceStart spans → ∃ credit,
        record.result = .credit credit ∧
        CreditPost generation sourceStart spans record.entry.mutes.published credit record.exit) :
    Published record records := by
  obtain ⟨call, entry, result, exit⟩ := record
  cases call with
  | pushTagged input generation sourceStart spans =>
      obtain ⟨credit, rfl, credited⟩ := credits _ _ _ _ rfl
      have recordsEq := List.append_cancel_left (publishedEq.symm.trans credited)
      unfold Seen at seen
      unfold Published
      dsimp only at seen ⊢
      split at recordsEq
      · rename_i nothing
        exact .inl ⟨nothing, recordsEq⟩
      · rename_i some
        exact .inr ⟨Nat.pos_of_ne_zero some, recordsEq, seen.resolve_left some⟩
  | _ => exact seen

/-- Every producer call publishes at most one batch, for which it saw room. -/
theorem safe_seenCall [Binary32 F] (call : ProducerCall F) (sound : ring.mutes.Sound mailboxQueue) :
    (producerBody geometry call).Safe (exec geometry) (ConsumerMoves geometry True) (BatchGuar call ring)
      (fun result exit => exit.mutes.Sound mailboxQueue ∧ ∃ records,
          exit.mutes.published = ring.mutes.published ++ records ∧
            Seen ⟨call, ring, result, exit⟩ records) ring := by
  have start := Since.refl sound
  have quiet {α : Type} {program : RingProgram F S W α} {result : α → ProducerResult}
      (performs : program.Performs Access.Elsewhere)
      (none : ∀ value exit, Seen ⟨call, ring, result value, exit⟩ []) :
      (program >>= fun value => pure (result value)).Safe (exec geometry) (ConsumerMoves geometry True)
        (BatchGuar call ring)
        (fun result exit => exit.mutes.Sound mailboxQueue ∧ ∃ records,
          exit.mutes.published = ring.mutes.published ++ records ∧
            Seen ⟨call, ring, result, exit⟩ records) ring :=
    safe_mailElsewhere performs start fun value now since exit moves =>
      have ends := since.reads moves
      ⟨ends.sound, [], ends.published_eq, none value exit⟩
  have silent {now : Ring F S W} (since : Since ring.mutes [] now.mutes) {result : ProducerResult}
      (none : ∀ exit, Seen ⟨call, ring, result, exit⟩ []) :
      (pure result : RingProgram F S W ProducerResult).Safe (exec geometry) (ConsumerMoves geometry True)
        (BatchGuar call ring)
        (fun result exit => exit.mutes.Sound mailboxQueue ∧ ∃ records,
          exit.mutes.published = ring.mutes.published ++ records ∧
            Seen ⟨call, ring, result, exit⟩ records) now :=
    fun exit moves =>
      have ends := since.reads moves
      ⟨ends.sound, [], ends.published_eq, none exit⟩
  have stampRead : (access .loadStamp : RingProgram F S W (Option Stamp)).Performs
      Access.Elsewhere := ⟨trivial, fun _ => trivial⟩
  cases call with
  | pushSample sample =>
      exact quiet (performs_elsewhere (performs_producerPublish _)) fun _ _ => rfl
  | push input =>
      exact quiet (performs_elsewhere (performs_producerPush input)) fun _ _ => rfl
  | gap samples =>
      exact quiet (performs_elsewhere (performs_producerGap samples)) fun _ _ => rfl
  | finish =>
      refine quiet ?_ fun _ _ => rfl
      refine ⟨trivial, fun current => ?_⟩
      generalize 2 ^ 62 = bound
      change Program.Performs _ (if FinishPending current then _ else _)
      split
      · trivial
      · change Program.Performs _ (if current / 4 + 1 < bound then _ else _)
        split
        · exact ⟨trivial, fun _ => trivial⟩
        · trivial
  | status token => exact quiet ⟨trivial, fun _ => trivial⟩ fun _ _ => rfl
  | pushTagged input generation sourceStart spans =>
      have refused {accepted : Option Nat} (nothing : accepted.getD 0 = 0) (exit : Ring F S W) :
          Seen ⟨.pushTagged input generation sourceStart spans, ring, .credit accepted, exit⟩
            [] := .inl nothing
      simp only [producerBody, producerPushTagged, bind_assoc]
      refine safe_mailElsewhere (performs_elsewhere performs_syncProducerEpoch) start
        fun _ first firstSince => ?_
      refine safe_mailElsewhere (performs_elsewhere (performs_finishPending _)) firstSince
        fun pending second secondSince => ?_
      split
      · exact silent secondSince (refused rfl)
      split
      · exact silent secondSince (refused rfl)
      simp only [bind_assoc]
      refine safe_mailElsewhere stampRead secondSince fun previous third thirdSince => ?_
      split
      · exact silent thirdSince (refused rfl)
      simp only [bind_assoc]
      refine safe_mailFree thirdSince fun moment momentSince => ?_
      split
      · exact silent momentSince (refused rfl)
      rename_i roomy
      simp only [bind_assoc]
      have occupies : (available geometry : RingProgram F S W Nat).Performs Access.Elsewhere :=
        ⟨trivial, fun _ => ⟨trivial, fun _ => trivial⟩⟩
      refine safe_mailElsewhere occupies (Since.refl momentSince.sound)
        fun occupied fourth fourthSince => ?_
      split
      · simp only [bind_assoc]
        refine safe_mailElsewhere (performs_elsewhere (performs_saturatingAddCounter _ _)) fourthSince
          fun _ last lastSince exit moves => ?_
        have ends := lastSince.reads moves
        refine ⟨ends.sound, [], ?_, refused rfl exit⟩
        rw [ends.published_eq, momentSince.published_eq, List.append_nil, List.append_nil]
      have opened := unread_le_mailboxQueue momentSince.sound
      have roomLeft := fourthSince.unread_le momentSince.sound
      generalize countEq : min input.length (geometry.capacity - occupied) = count
      have batch : Batch (.pushTagged input generation sourceStart spans)
          (clippedIntervals generation spans (sourceStart + count)) :=
        ⟨count, countEq ▸ Nat.min_le_left _ _, rfl⟩
      simp only [bind_assoc]
      refine safe_mailPublish fourthSince
        (momentSince.published_eq.trans (List.append_nil _)) batch (by omega)
        fun fifth fifthSince => ?_
      have stampSet : (access (.setStamp (some ⟨generation, sourceStart⟩)) :
          RingProgram F S W Unit).Performs Access.Elsewhere := ⟨trivial, fun _ => trivial⟩
      refine safe_mailElsewhere stampSet fifthSince fun _ sixth sixthSince => ?_
      refine safe_mailElsewhere (performs_elsewhere (performs_producerPush _)) sixthSince
        fun accepted seventh seventhSince => ?_
      refine safe_mailElsewhere (performs_elsewhere (performs_saturatingAddCounter _ _))
        seventhSince fun _ last lastSince exit moves => ?_
      have ends := lastSince.reads moves
      refine ⟨ends.sound, clippedIntervals generation spans (sourceStart + count),
        ends.published_eq.trans ?_, .inr ⟨_, ⟨moment.mutes,
        momentSince.sound, ?_, momentSince.passed, ends.passed, rfl⟩, Nat.not_lt.mp roomy⟩⟩
      · rw [momentSince.published_eq, List.append_nil]
      · exact momentSince.published_eq.trans (List.append_nil _)
  | mute generation spans =>
      simp only [producerBody, producerMute, bind_assoc]
      refine safe_mailElsewhere (performs_elsewhere performs_syncProducerEpoch) start
        fun _ first firstSince => ?_
      refine safe_mailElsewhere stampRead firstSince fun stamp second secondSince => ?_
      cases stamp with
      | none => exact silent secondSince fun _ => rfl
      | some current =>
          dsimp only
          split
          · exact silent secondSince fun _ => rfl
          rename_i valid
          have inside : ∀ span ∈ spans, span.stop ≤ current.source := by
            intro span member
            by_contra beyond
            exact valid (.inr (.inr ⟨span, member, .inr (.inl (Nat.not_le.mp beyond))⟩))
          simp only [bind_assoc]
          refine safe_mailFree secondSince fun moment momentSince => ?_
          have opened := unread_le_mailboxQueue momentSince.sound
          generalize creditedEq : min spans.length
            (mailboxQueue - (moment.mutes.unread mailboxQueue).length) = credited
          have batch : Batch (F := F) (.mute generation spans)
              (clippedIntervals generation (spans.take credited) current.source) :=
            ⟨credited, current.source, inside, rfl⟩
          have taken : (spans.take credited).length = credited := by
            rw [List.length_take]
            omega
          refine safe_mailPublish (Since.refl momentSince.sound)
            (momentSince.published_eq.trans (List.append_nil _)) batch (by omega)
            fun last lastSince exit moves => ?_
          have ends := lastSince.reads moves
          refine ⟨ends.sound, clippedIntervals generation (spans.take credited) current.source,
            ends.published_eq.trans ?_, current.source, _, inside, rfl,
            ⟨moment.mutes, momentSince.sound, ?_, momentSince.passed, ends.passed, rfl⟩,
            creditedEq.symm⟩
          · rw [momentSince.published_eq, List.append_nil]
          · exact momentSince.published_eq.trans (List.append_nil _)

theorem safe_creditCall [Binary32 F] (call : ProducerCall F)
    (pcm : ring.pcm.Sound geometry.capacity) (mutes : ring.mutes.Sound mailboxQueue) :
    (producerBody geometry call).Safe (exec geometry) (ConsumerMoves geometry True)
      (fun _ _ => True)
      (fun result exit => ∀ input generation sourceStart spans,
        call = .pushTagged input generation sourceStart spans → ∃ credit,
          result = .credit credit ∧
          CreditPost generation sourceStart spans ring.mutes.published credit exit) ring := by
  cases call with
  | pushTagged input generation sourceStart spans =>
      refine Program.Safe.bind preordered_consumerMoves (Program.Safe.mono ?_
        (safe_taggedCredit input generation sourceStart spans pcm mutes))
      intro credit now credited exit moves _ _ _ _ same
      cases same
      refine ⟨credit, rfl, ?_⟩
      unfold CreditPost
      rw [moves.records_published_eq]
      exact credited
  | _ => exact (Program.safe_trivial _ _).mono fun _ _ _ _ _ _ _ same => by cases same

theorem safe_mailCall [Binary32 F] (call : ProducerCall F)
    (holds : ProducerHolds geometry True none ring) :
    (producerBody geometry call).Safe (exec geometry) (ConsumerMoves geometry True)
      (fun op now => ProducerGuar geometry True none op now ∧ BatchGuar call ring op now)
      (fun result exit => ProducerHolds geometry True none exit ∧ MailPost call ring result exit)
      ring := by
  have published := (safe_seenCall call holds.mutes).and
    (safe_creditCall call holds.pcm holds.mutes)
  refine (((safe_producerBody call (uniform_none call) holds).and published).mono ?_).promising
    fun op now promised => ⟨promised.1, promised.2.1⟩
  rintro result exit ⟨⟨exitHolds, -⟩, ⟨-, records, publishedEq, seen⟩, credits⟩
  exact ⟨exitHolds, records, publishedEq, seen.published publishedEq credits⟩

end Producer

section Consumer

variable {ring : Ring F S W}

theorem mailReader : (mutePort (F := F) (S := S) (W := W)).ReaderSide mailboxQueue Ring.mutes
    (ProducerMoves geometry (SingleLine none)) (ConsumerPermits geometry True) where
  order := ConsumerSpec.preordered_producerMoves
  writes moves := moves.mutes
  permits _ _ permitted := permitted

/-- What a consumer call establishes for the mailbox. -/
def TakenPost (call : MailboxRead F S W) (entry : Ring F S W) (result : MailboxTaken)
    (exit : Ring F S W) : Prop :=
  ∃ moves, exit.mutes.consumption = entry.mutes.consumption ++ moves ∧
    Popped ⟨call, entry, result, exit⟩ moves

theorem safe_takenCall [Binary32 F] (call : MailboxRead F S W)
    (allowed : MailAllowed geometry .consumer call) (pcm : ring.pcm.Sound geometry.capacity)
    (sound : ring.mutes.Sound mailboxQueue) :
    (mailBody geometry .consumer call).Safe (exec geometry)
      (ProducerMoves geometry (SingleLine none)) (ConsumerPermits geometry True)
      (fun result exit => exit.mutes.Sound mailboxQueue ∧ TakenPost call ring result exit)
      ring := by
  cases call with
  | pop =>
      refine Port.safe_take (mute_lawful geometry) mailReader sound ?_ ?_
      · intro current moves empty exit later
        obtain ⟨currentSound, writes⟩ := moves.mutes sound
        obtain ⟨exitSound, laterWrites⟩ := later.mutes currentSound
        refine ⟨exitSound, [], ?_, rfl, ?_⟩
        · rw [laterWrites.consumption_eq, writes.consumption_eq, List.append_nil]
        · rw [laterWrites.passed_eq, ← List.append_nil current.mutes.passed, ← empty,
            ← currentSound.published_eq]
          exact moves.records_published_prefix
      · intro current interval rest moves unreadEq exit later
        obtain ⟨currentSound, writes⟩ := moves.mutes sound
        obtain ⟨exitSound, laterWrites⟩ := later.mutes
          (Channel.sound_reader currentSound ⟨rfl, rest, unreadEq⟩)
        refine ⟨exitSound, [.took interval], ?_, rfl⟩
        rw [laterWrites.consumption_eq, ← writes.consumption_eq]
        rfl
  | reset =>
      refine Port.safe_discard (mute_lawful geometry) mailReader sound ?_
      intro early current moves between permitted exit later
      obtain ⟨earlySound, writes⟩ := moves.mutes sound
      have snapped : (early.mutes.exec mailboxQueue .snapshotWritten).2.Sound mailboxQueue :=
        Channel.sound_reader earlySound trivial
      obtain ⟨currentSound, betweenWrites⟩ := between.mutes snapped
      have cleared : (current.mutes.exec mailboxQueue
          (.discardTo early.mutes.queue.written)).2.Sound mailboxQueue :=
        Channel.sound_reader currentSound permitted
      obtain ⟨exitSound, laterWrites⟩ := later.mutes cleared
      have snapshotEq : current.mutes.snapshot = early.mutes.published.length :=
        betweenWrites.snapshot_eq
      have consumptionEq : current.mutes.consumption = ring.mutes.consumption :=
        betweenWrites.consumption_eq.trans writes.consumption_eq
      have appended : exit.mutes.consumption = ring.mutes.consumption ++
          [.dropped early.mutes.published.length (Queue.segment mailboxQueue
            current.mutes.queue.cells current.mutes.queue.read (distance mailboxQueue
              early.mutes.queue.written current.mutes.queue.read))] := by
        rw [laterWrites.consumption_eq, ← consumptionEq, ← snapshotEq]
        rfl
      refine ⟨exitSound, _, appended, _, _, rfl, ?_, ?_⟩
      · exact moves.records_published_prefix.length_le
      · exact Nat.le_trans between.records_published_prefix.length_le
          later.records_published_prefix.length_le
  | elsewhere program =>
      let kept (now : Ring F S W) : Prop :=
        now.mutes.Sound mailboxQueue ∧ now.mutes.consumption = ring.mutes.consumption
      have stable {first last : Ring F S W} (moves : ProducerMoves geometry (SingleLine none) first last)
          (holds : kept first) : kept last := by
        obtain ⟨lastSound, writes⟩ := moves.mutes holds.1
        exact ⟨lastSound, writes.consumption_eq.trans holds.2⟩
      have away : program.Safe (exec geometry) (ProducerMoves geometry (SingleLine none))
          (fun _ _ => True) (fun _ => kept) ring := by
        refine allowed.performs.safe kept (fun _ _ _ => trivial) ?_ stable ⟨sound, rfl⟩
        intro op now elsewhere holds
        change kept (effect geometry op now)
        simp only [kept, mutes_elsewhere elsewhere]
        exact holds
      refine Program.Safe.bind ConsumerSpec.preordered_producerMoves (Program.Safe.mono ?_
        (((allowed.safe ring pcm).and away).promising fun _ _ promised => promised.1))
      rintro _ now ⟨-, holds⟩ exit moves
      obtain ⟨exitSound, consumptionEq⟩ := stable moves holds
      exact ⟨exitSound, [], by rw [consumptionEq, List.append_nil], rfl⟩

theorem safe_mailTaken [Binary32 F] (call : MailboxRead F S W)
    (allowed : MailAllowed geometry .consumer call) (pcm : ring.pcm.Sound geometry.capacity)
    (sound : ring.mutes.Sound mailboxQueue) :
    (mailBody geometry .consumer call).Safe (exec geometry)
      (ProducerMoves geometry (SingleLine none)) (ConsumerPermits geometry True)
      (fun result exit => (exit.mutes.Sound mailboxQueue ∧ exit.pcm.Sound geometry.capacity) ∧
        TakenPost call ring result exit) ring := by
  have kept : (mailBody geometry .consumer call).Safe (exec geometry)
      (ProducerMoves geometry (SingleLine none)) (ConsumerPermits geometry True)
      (fun result exit => (exit.mutes.Sound mailboxQueue ∧ TakenPost call ring result exit) ∧
        exit.pcm.Sound geometry.capacity) ring := by
    refine (safe_takenCall call allowed pcm sound).keeping ?_ ?_ pcm
    · exact fun moves sound => (moves.pcm sound).1
    · exact fun _ _ permitted sound => ((ConsumerMoves.of_permits permitted).pcm sound).1
  exact kept.mono fun _ _ ends => ⟨⟨ends.1.1, ends.2⟩, ends.1.2⟩

end Consumer

/-- The outline of both threads. -/
def mailOutline [Binary32 F] (geometry : Geometry) :
    Outline (mailBody (F := F) (S := S) (W := W) geometry) (exec geometry)
      (MailAllowed geometry) where
  rely := MethodRely geometry
  guar := MethodGuar geometry
  inv
    | .producer => ProducerHolds geometry True none
    | .consumer => fun ring => ring.mutes.Sound mailboxQueue ∧ ring.pcm.Sound geometry.capacity
  post
    | .producer => MailPost
    | .consumer => TakenPost
  order := methodRely_preordered geometry
  stable {i} := by
    cases i with
    | producer => exact fun moves holds => holds.stable moves
    | consumer => exact fun moves sound => ⟨(moves.mutes sound.1).1, (moves.pcm sound.2).1⟩
  compatible := methodRely_of_guar geometry
  safe
    | .producer, call, _, _, holds =>
        (safe_mailCall call holds).promising fun _ _ promised => promised.1
    | .consumer, call, _, allowed, sound => safe_mailTaken call allowed sound.2 sound.1

/-- The mailbox behaves as one queue of whole batches. -/
structure MailLinearized [Binary32 F] (geometry : Geometry) (config : MailConfig F S W) :
    Prop where
  written_lt : config.memory.mutes.queue.written < mailboxQueue * 2
  read_lt : config.memory.mutes.queue.read < mailboxQueue * 2
  distance_le : distance mailboxQueue config.memory.mutes.queue.written
    config.memory.mutes.queue.read ≤ mailboxQueue
  /-- A record about to be written replaces none of the unread ones. -/
  stores : ∀ party index interval,
    config.nextAccess party = some (.mutes (.storeCell index interval)) →
    ∀ offset < distance mailboxQueue config.memory.mutes.queue.written
      config.memory.mutes.queue.read,
    (config.memory.mutes.queue.read + offset) % mailboxQueue ≠ index
  /-- A record about to be read is one of them. -/
  loads : ∀ party index, config.nextAccess party = some (.mutes (.loadCell index)) →
    ∃ offset < distance mailboxQueue config.memory.mutes.queue.written
      config.memory.mutes.queue.read,
    index = (config.memory.mutes.queue.read + offset) % mailboxQueue
  /-- Pops between two resets are a segment of what was published. -/
  segment : ∀ before values after,
    config.memory.mutes.consumption = before ++ values.map .took ++ after → ∃ rest,
      config.memory.mutes.published = before.flatMap Consumption.cells ++ values ++ rest
  /-- A reset drops what was published before its snapshot and not passed. -/
  dropped : ∀ before snapshot values after,
    config.memory.mutes.consumption = before ++ .dropped snapshot values :: after →
      config.memory.mutes.published.take snapshot =
        before.flatMap Consumption.cells ++ values
  /-- A step that makes records visible makes the whole batch of the call in
  progress visible, from cells that already hold it. -/
  visible : ∀ next, Step (mailBody geometry) (exec geometry) (MailAllowed geometry)
      config next →
    next.memory.mutes.published = config.memory.mutes.published ∨
    ∃ call entry rest records, config.thread .producer = .running call entry rest ∧
      config.memory.mutes.published = entry.mutes.published ∧ Batch call records ∧
      next.memory.mutes.published = config.memory.mutes.published ++ records ∧
      next.memory.mutes.unread mailboxQueue =
        config.memory.mutes.unread mailboxQueue ++ records ∧
      next.memory.mutes.queue.cells = config.memory.mutes.queue.cells
  /-- What was published are the batches of the producer's calls, in order. -/
  published : config.thread .producer = .idle → ∃ blocks,
    List.Forall₂ Published (config.returned .producer) blocks ∧
    config.memory.mutes.published = blocks.flatten
  /-- What was popped and dropped are the results of the consumer, in order. -/
  popped : config.thread .consumer = .idle → ∃ blocks,
    List.Forall₂ Popped (config.returned .consumer) blocks ∧
    config.memory.mutes.consumption = blocks.flatten

section Schedules

variable [Binary32 F]

theorem mail_sound (party : Party) (op : Access F S W) (ring : Ring F S W)
    (promised : (mailOutline geometry).guar party op ring)
    (sound : ring.mutes.Sound mailboxQueue) :
    (effect geometry op ring).mutes.Sound mailboxQueue := by
  cases party with
  | producer => exact ((ProducerMoves.of_permits promised.permitted promised.line).mutes sound).1
  | consumer => exact ((ConsumerMoves.of_permits promised).mutes sound).1

/-- What a call in progress promises may speak about the call. -/
def mailCallGuar : (party : Party) → party.MailCall F S W → Ring F S W → Access F S W →
    Ring F S W → Prop
  | .producer, call, entry => BatchGuar call entry
  | .consumer, _, _ => ConsumerPermits geometry True

omit [Binary32 F] in
/-- A step of a producer call publishes nothing, or its batch. -/
theorem visible_of_batchGuar {call : ProducerCall F} {entry ring : Ring F S W} {op : Access F S W}
    (sound : ring.mutes.Sound mailboxQueue) (promised : BatchGuar call entry op ring) :
    (effect geometry op ring).mutes.published = ring.mutes.published ∨
    ∃ records, ring.mutes.published = entry.mutes.published ∧ Batch call records ∧
      (effect geometry op ring).mutes.published = ring.mutes.published ++ records ∧
      (effect geometry op ring).mutes.unread mailboxQueue =
        ring.mutes.unread mailboxQueue ++ records ∧
      (effect geometry op ring).mutes.queue.cells = ring.mutes.queue.cells := by
  obtain ⟨permitted, stores⟩ := promised
  cases op with
  | mutes access =>
      cases access with
      | storeWritten cursor =>
          obtain ⟨publishedEq, batch⟩ := stores cursor rfl
          have writes : Channel.Writes mailboxQueue ring.mutes
              (ring.mutes.exec mailboxQueue (.storeWritten cursor)).2 :=
            Channel.writes_of_permits sound permitted
          obtain ⟨values, grown, unreadEq⟩ := writes.appended
          have same : ring.mutes.published ++ _ = ring.mutes.published ++ values := grown
          rw [List.append_cancel_left same] at batch
          exact .inr ⟨values, publishedEq, batch, grown, unreadEq, rfl⟩
      | _ => exact .inl rfl
  | _ => exact .inl rfl

theorem mailLinearized_of_start {first : Ring F S W}
    (start : ProducerHolds geometry True none first)
    (published : first.mutes.published = []) (consumption : first.mutes.consumption = [])
    {config : MailConfig F S W}
    (steps : Reachable (mailBody geometry) (exec geometry) (MailAllowed geometry) first
      config) :
    MailLinearized geometry config := by
  have initial (party : Party) : (mailOutline geometry).inv party first := by
    cases party with
    | producer => exact start
    | consumer => exact ⟨start.mutes, start.pcm⟩
  have holds := (mailOutline geometry).holds_of_reachable initial steps
  have sounds {config : MailConfig F S W}
      (steps : Reachable (mailBody geometry) (exec geometry) (MailAllowed geometry) first
      config) :
      config.memory.mutes.Sound mailboxQueue :=
    (mailOutline geometry).memory_of_reachable initial
      (fun ring => ring.mutes.Sound mailboxQueue) start.mutes mail_sound steps
  have sound := sounds steps
  have promises {party : Party} {op : Access F S W} (next : config.nextAccess party = some op) :
      (mailOutline geometry).guar party op config.memory := by
    obtain ⟨call, entry, rest, running⟩ := Config.running_of_nextAccess next
    exact Outline.guar_of_running _ (holds party) running
  constructor
  case written_lt => exact sound.valid.written_lt
  case read_lt => exact sound.valid.read_lt
  case distance_le => exact sound.valid.distance_le
  case stores =>
    intro party index interval next offset offsetLt
    cases party with
    | producer =>
        obtain ⟨count, rfl, room⟩ := (promises next).permitted
        exact Queue.stage_index_ne _ sound.valid room offsetLt
    | consumer => exact (promises next).elim
  case loads =>
    intro party index next
    cases party with
    | producer => exact (promises next).permitted.elim
    | consumer =>
        obtain ⟨offset, indexEq, offsetLt⟩ := promises next
        exact ⟨offset, offsetLt, indexEq⟩
  case segment => exact fun before values after => sound.taken_segment
  case dropped => exact fun before snapshot values after => sound.dropped_segment
  case visible =>
    intro next step
    cases step with
    | invoke party call admitted idle => exact .inl rfl
    | conclude party call entry result current => exact .inl rfl
    | perform party call entry op rest current =>
        have judged := (mailOutline geometry).safe_of_running initial mailCallGuar
          (fun _ _ _ _ _ => True) (fun party call entry allowed holds => by
            cases party with
            | producer =>
                exact ((safe_mailCall call holds).promising fun _ _ promised => promised.2).mono
                  fun _ _ _ => trivial
            | consumer =>
                exact (safe_mailTaken call allowed holds.2 holds.1).mono fun _ _ _ => trivial)
          steps current
        have promised := (judged _ (((mailOutline geometry).order party).refl _)).1
        cases party with
        | producer =>
            refine (visible_of_batchGuar sound promised).imp_right ?_
            rintro ⟨records, publishedEq, batch, visible⟩
            exact ⟨call, entry, _, records, current, publishedEq, batch, visible⟩
        | consumer => exact .inl (ConsumerMoves.of_permits promised).records_published_eq
  case published =>
    intro idle
    have log := (mailOutline geometry).log_of_idle initial .producer
      (fun ring => ring.mutes.Sound mailboxQueue) sounds (fun ring => ring.mutes.published)
      (fun sound moves => (moves.mutes sound).2.published_eq) Published (fun record post => post) steps
      idle
    simpa only [published, List.nil_append] using log
  case popped =>
    intro idle
    have log := (mailOutline geometry).log_of_idle initial .consumer
      (fun ring => ring.mutes.Sound mailboxQueue) sounds (fun ring => ring.mutes.consumption)
      (fun sound moves => (moves.mutes sound).2.consumption_eq) Popped (fun record post => post) steps
      idle
    simpa only [consumption, List.nil_append] using log

/-- In every schedule the mailbox is one queue of whole batches. -/
theorem mailbox_linearized [Binary64 W] {adapter : Adapter F W S} {settings : Settings}
    {config : MailConfig F S W} (reached : MailReachable adapter settings geometry config) :
    MailLinearized geometry config := by
  obtain ⟨ring, created, steps⟩ := reached
  have positive : 0 < geometry.capacity :=
    Nat.lt_of_lt_of_le (by decide) (create_capacity created)
  obtain ⟨-, outputDelay, delay, converter, -, rfl⟩ := create_cases created
  exact mailLinearized_of_start (producerHolds_initial positive) rfl rfl steps

end Schedules

/-- Between two calls of the mailbox the consumer takes a slot. -/
def takeSample [Binary32 F] (capacity : Nat) : RingProgram F S W Unit := do
  let _ ← pcmPort.take capacity

theorem keepsAway_takeSample [Binary32 F] (geometry : Geometry) :
    KeepsAway geometry (takeSample geometry.capacity : RingProgram F S W Unit) where
  performs := by
    refine ⟨trivial, fun (read : Nat) => ⟨trivial, fun (written : Nat) => ?_⟩⟩
    change Program.Performs _ ((if read = written then _ else _) >>= _)
    split
    · trivial
    · exact ⟨trivial, fun _ => ⟨trivial, fun _ => trivial⟩⟩
  safe ring pcm := by
    have reader : (pcmPort (F := F) (S := S) (W := W)).ReaderSide geometry.capacity Ring.pcm
        (ProducerMoves geometry (SingleLine none)) (ConsumerPermits geometry True) :=
      ⟨ConsumerSpec.preordered_producerMoves, fun moves => moves.pcm, fun _ _ permitted => permitted⟩
    exact Port.safe_take (pcm_lawful geometry) reader pcm (fun _ _ _ _ _ => trivial)
      fun _ _ _ _ _ _ _ => trivial

/-- One record is popped, and a reset drops one of two others: the last is
published after its snapshot.  The consumer takes a slot in between. -/
def overtakenMail : List (Choice (Party.MailCall ℚ Unit ℚ)) :=
  [.invoke .producer (.pushTagged [1 / 2, 1 / 4, 1 / 8] 0 0 [⟨0, 1⟩, ⟨2, 3⟩]),
    .complete .producer 100, .invoke .consumer .pop, .complete .consumer 20,
    .invoke .consumer (.elsewhere (takeSample smallSettings.capacity)), .complete .consumer 20,
    .invoke .consumer .reset, .advance .consumer 1,
    .invoke .producer (.mute 0 [⟨1, 2⟩]), .complete .producer 100, .complete .consumer 20]

theorem mailbox_linearized_overtakenMail :
    ∃ (geometry : Geometry) (config : MailConfig ℚ Unit ℚ),
      MailReachable unitConverter smallSettings geometry config ∧
      config.memory.mutes.published.map Interval.span = [⟨0, 1⟩, ⟨2, 3⟩, ⟨1, 2⟩] ∧
      config.memory.mutes.passed.map Interval.span = [⟨0, 1⟩, ⟨2, 3⟩] ∧
      config.memory.pcm.passed.length = 1 ∧ MailLinearized geometry config := by
  have created : ((Ring.create (unitConverter : Adapter ℚ ℚ Unit) smallSettings).toOption.bind
      fun created => (playAll (mailBody created.1) (exec created.1) overtakenMail
        (Config.start created.2)).map fun config =>
          (config.memory.mutes.published.map Interval.span,
            config.memory.mutes.passed.map Interval.span,
            config.memory.pcm.passed.length)) =
      some ([⟨0, 1⟩, ⟨2, 3⟩, ⟨1, 2⟩], [⟨0, 1⟩, ⟨2, 3⟩], 1) := by decide +kernel
  obtain ⟨⟨geometry, ring⟩, created, played⟩ := Option.bind_eq_some_iff.mp created
  obtain ⟨config, played, facts⟩ := Option.map_eq_some_iff.mp played
  obtain ⟨published, facts⟩ := Prod.mk.inj facts
  obtain ⟨passed, taken⟩ := Prod.mk.inj facts
  have made : Ring.create (unitConverter : Adapter ℚ ℚ Unit) smallSettings =
      .ok (geometry, ring) := by
    generalize Ring.create (unitConverter : Adapter ℚ ℚ Unit) _ = result at created ⊢
    cases result with
    | error => cases created
    | ok value => exact congrArg Except.ok (Option.some.inj created)
  have capacityEq : geometry.capacity = smallSettings.capacity := by
    obtain ⟨-, outputDelay, delay, converter, rfl, -⟩ := create_cases made
    rfl
  have admitted : ∀ choice ∈ overtakenMail, choice.Admitted (MailAllowed geometry) := by
    simp [overtakenMail, Choice.Admitted, MailAllowed, ← capacityEq, keepsAway_takeSample]
  have reached : MailReachable unitConverter smallSettings geometry config :=
    ⟨ring, made, reachable_of_playAll _ _ overtakenMail admitted .refl played⟩
  exact ⟨geometry, config, reached, published, passed, taken, mailbox_linearized reached⟩

end PcmRing
