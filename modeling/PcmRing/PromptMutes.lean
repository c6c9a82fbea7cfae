import PcmRing.DrainedBoundary
import PcmRing.LateMutes
import Mathlib.Data.List.Infix

/-!
# Mutes win in every schedule

A mute record that was published before a render began mutes every position that
it meets and that the render looks up, and so in every later render of the stream,
whatever the two threads do in between.  A record that is published after the
render emptied the mailbox comes too late for that render only.
-/

namespace PcmRing

open AtomicProgram TwoLapQueue

variable {F S W : Type}

/-- The consumer of one stream, with the source supports it has handed to the
delay of the lookahead. -/
structure Listens (geometry : Geometry) (delay : S → Int) (stream : Nat)
    (line : List (Option Position)) (state : ConsumerState F S W) (ring : Ring F S W) : Prop where
  pcm : ring.pcm.Sound geometry.capacity
  mutes : ring.mutes.Sound mailboxQueue
  serial_eq : ring.resetSerial = stream
  paced : state.Paced delay line
  delays : state.Delays geometry.lookahead line
  ordered : state.muteHistory.Ordered
  sorted : line.Pairwise Follows

/-- The history holds on to every record that was popped behind the first ones. -/
def History.HoldsOn (history : History) (lookahead first : Nat) (line : List (Option Position))
    (ring : Ring F S W) : Prop :=
  ∀ interval ∈ ring.mutes.passed.drop first, history.Covers lookahead line interval

/-- The consumer until it knows that it will play: a latched fault silences it. -/
def Attends (geometry : Geometry) (delay : S → Int) (stream first : Nat)
    (state : ConsumerState F S W) (ring : Ring F S W) : Prop :=
  ∃ line, Listens geometry delay stream line state ring ∧ (state.muteFault = false →
    state.muteHistory.HoldsOn geometry.lookahead first line ring)

/-- The consumer with its mailbox drained: every record that was asked for is popped. -/
def Informed (geometry : Geometry) (delay : S → Int) (stream first : Nat)
    (asked : List Interval) (state : ConsumerState F S W) (ring : Ring F S W) : Prop :=
  Attends geometry delay stream first state ring ∧ asked <+: ring.mutes.passed

/-- The consumer while it plays. -/
def Heeding (geometry : Geometry) (delay : S → Int) (stream first : Nat)
    (asked : List Interval) (state : ConsumerState F S W) (ring : Ring F S W) : Prop :=
  asked <+: ring.mutes.passed ∧ ∃ line, Listens geometry delay stream line state ring ∧
    state.muteHistory.HoldsOn geometry.lookahead first line ring

variable {geometry : Geometry} {delay : S → Int} {stream first : Nat} {asked : List Interval}
  {line : List (Option Position)} {state after : ConsumerState F S W} {ring : Ring F S W}
  {shape : List (SourceSample F) → List SlotNote → Prop}

theorem Listens.stable {later : Ring F S W}
    (listens : Listens geometry delay stream line state ring)
    (moves : ProducerMoves geometry shape ring later) :
    Listens geometry delay stream line state later :=
  { listens with
    pcm := (moves.pcm listens.pcm).1
    mutes := (moves.mutes listens.mutes).1
    serial_eq := moves.serial_eq.trans listens.serial_eq }

theorem ProducerMoves.popped_eq {later : Ring F S W}
    (moves : ProducerMoves geometry shape ring later)
    (mutes : ring.mutes.Sound mailboxQueue) : later.mutes.passed = ring.mutes.passed :=
  (moves.mutes mutes).2.passed_eq

theorem History.HoldsOn.agree {history : History} {lookahead : Nat} {later : Ring F S W}
    (holds : history.HoldsOn lookahead first line ring)
    (passedEq : later.mutes.passed = ring.mutes.passed) :
    history.HoldsOn lookahead first line later := by
  unfold HoldsOn
  rw [passedEq]
  exact holds

theorem Attends.stable {later : Ring F S W}
    (attends : Attends geometry delay stream first state ring)
    (moves : ProducerMoves geometry shape ring later) :
    Attends geometry delay stream first state later := by
  obtain ⟨line, listens, holds⟩ := attends
  exact ⟨line, listens.stable moves, fun clean =>
    (holds clean).agree (moves.popped_eq listens.mutes)⟩

/-- The same memory but for what no assertion about the mutes reads. -/
theorem Listens.same {later : Ring F S W} (listens : Listens geometry delay stream line state ring)
    (pcmEq : later.pcm = ring.pcm) (mutesEq : later.mutes = ring.mutes)
    (serialEq : later.resetSerial = ring.resetSerial) :
    Listens geometry delay stream line state later :=
  { listens with
    pcm := pcmEq ▸ listens.pcm
    mutes := mutesEq ▸ listens.mutes
    serial_eq := serialEq.trans listens.serial_eq }

theorem Attends.same {later : Ring F S W} (attends : Attends geometry delay stream first state ring)
    (pcmEq : later.pcm = ring.pcm) (mutesEq : later.mutes = ring.mutes)
    (serialEq : later.resetSerial = ring.resetSerial) :
    Attends geometry delay stream first state later := by
  obtain ⟨line, listens, holds⟩ := attends
  refine ⟨line, listens.same pcmEq mutesEq serialEq, fun clean => (holds clean).agree ?_⟩
  rw [mutesEq]

theorem Heeding.same {later : Ring F S W}
    (heeding : Heeding geometry delay stream first asked state ring)
    (pcmEq : later.pcm = ring.pcm) (mutesEq : later.mutes = ring.mutes)
    (serialEq : later.resetSerial = ring.resetSerial) :
    Heeding geometry delay stream first asked state later := by
  obtain ⟨popped, line, listens, holds⟩ := heeding
  have passedEq : later.mutes.passed = ring.mutes.passed := by rw [mutesEq]
  exact ⟨passedEq.symm ▸ popped, line, listens.same pcmEq mutesEq serialEq, holds.agree passedEq⟩

theorem Attends.forget (attends : Attends geometry delay stream first state ring) :
    Attends geometry delay ring.resetSerial ring.mutes.passed.length state ring := by
  obtain ⟨line, listens, -⟩ := attends
  refine ⟨line, { listens with serial_eq := rfl }, fun _ interval member => ?_⟩
  rw [List.drop_length] at member
  cases member

theorem Heeding.attends (heeding : Heeding geometry delay stream first asked state ring) :
    Attends geometry delay stream first state ring := by
  obtain ⟨-, line, listens, holds⟩ := heeding
  exact ⟨line, listens, fun _ => holds⟩

theorem Informed.heeding (informed : Informed geometry delay stream first asked state ring)
    (clean : state.muteFault = false) : Heeding geometry delay stream first asked state ring := by
  obtain ⟨⟨line, listens, holds⟩, popped⟩ := informed
  exact ⟨popped, line, listens, holds clean⟩

theorem Attends.steady (state : ConsumerState F S W) : Steady geometry
    (ProducerMoves geometry shape)
    fun ring : Ring F S W => Attends geometry delay stream first state ring where
  stable moves attends := attends.stable moves
  pcm _ attends := attends.choose_spec.1.pcm
  mutes _ attends := attends.choose_spec.1.mutes
  counter _ _ _ attends _ := attends.same rfl rfl rfl
  correction _ _ attends := attends.same rfl rfl rfl

theorem Informed.steady (state : ConsumerState F S W) : Steady geometry
    (ProducerMoves geometry shape) (Informed geometry delay stream first asked state) where
  stable moves informed :=
    ⟨informed.1.stable moves,
      (moves.popped_eq (informed.1.choose_spec.1.mutes)).symm ▸ informed.2⟩
  pcm _ informed := informed.1.choose_spec.1.pcm
  mutes _ informed := informed.1.choose_spec.1.mutes
  counter _ _ _ informed _ := ⟨informed.1.same rfl rfl rfl, informed.2⟩
  correction _ _ informed := ⟨informed.1.same rfl rfl rfl, informed.2⟩

theorem Heeding.steady (state : ConsumerState F S W) : Steady geometry
    (ProducerMoves geometry shape) (Heeding geometry delay stream first asked state) where
  stable moves heeding := by
    obtain ⟨popped, line, listens, holds⟩ := heeding
    have passedEq := moves.popped_eq listens.mutes
    exact ⟨passedEq.symm ▸ popped, line, listens.stable moves, holds.agree passedEq⟩
  pcm _ heeding := heeding.attends.choose_spec.1.pcm
  mutes _ heeding := heeding.attends.choose_spec.1.mutes
  counter _ _ _ heeding _ := heeding.same rfl rfl rfl
  correction _ _ heeding := heeding.same rfl rfl rfl

/-- A lookup mutes what a record that was asked for meets. -/
def HeedGuar (first : Nat) (asked : List Interval) (op : Access F S W) (_ : Ring F S W) : Prop :=
  ∀ history position, op = .lookup history (some position) →
    ∀ interval ∈ asked.drop first, interval.Meets position →
      history.muted (some position) = true

theorem heedSide (resets : Prop) : ConsumerSide geometry resets shape
    (ProducerMoves (F := F) (S := S) (W := W) geometry shape) (HeedGuar first asked) where
  order := ⟨.refl, .trans⟩
  moves := id
  permits _ _ _ plain history position same := by
    rw [same] at plain
    exact plain.elim

theorem heedGuar_of_other {op : Access F S W}
    (other : ∀ history position, op ≠ .lookup history position) : HeedGuar first asked op ring :=
  fun history _ same => (other history _ same).elim

/-- The support that waited for the lookahead, newest line first, is looked up. -/
theorem heedGuar_of_holds {history : History} {lookahead : Nat} {position waited : Option Position}
    (popped : asked <+: ring.mutes.passed) (ordered : history.Ordered)
    (sorted : (position :: line).Pairwise Follows)
    (holds : history.HoldsOn lookahead first line ring)
    (waitedEq : waited = ((position :: line)[lookahead]?).join) (current : Ring F S W) :
    HeedGuar first asked (.lookup history waited) current := by
  intro history' played same interval member meets
  cases same
  have passed : interval ∈ ring.mutes.passed.drop first :=
    (List.IsPrefix.drop popped first).subset member
  exact muted_of_covers ordered sorted (holds interval passed) waitedEq.symm meets

/-- The newest support is looked up as soon as it is known. -/
theorem heedGuar_of_newest {history : History} {lookahead : Nat} {position : Option Position}
    (popped : asked <+: ring.mutes.passed) (ordered : history.Ordered)
    (sorted : (position :: line).Pairwise Follows)
    (holds : history.HoldsOn lookahead first line ring) (current : Ring F S W) :
    HeedGuar first asked (.lookup history position) current := by
  intro history' played same interval member meets
  cases same
  have passed : interval ∈ ring.mutes.passed.drop first :=
    (List.IsPrefix.drop popped first).subset member
  refine (History.muted_iff ordered).mpr (holds interval passed played (fun early earlier => ?_)
    meets)
  have behind := (List.pairwise_cons.mp sorted).1 _ ((List.drop_sublist _ _).subset earlier)
  exact behind played rfl early rfl

theorem Listens.agree (listens : Listens geometry delay stream line state ring)
    (paced : after.Paced delay line) (delays : after.Delays geometry.lookahead line)
    (historyEq : after.muteHistory = state.muteHistory) :
    Listens geometry delay stream line after ring :=
  { listens with
    paced := paced
    delays := delays
    ordered := historyEq ▸ listens.ordered }

/-- Taking a slot leaves the mailbox alone. -/
theorem Listens.takeSlot {slot : SourceSample F} {rest : List (SourceSample F)}
    (listens : Listens geometry delay stream line state ring)
    (unreadEq : ring.pcm.unread geometry.capacity = slot :: rest) :
    Listens geometry delay stream line state (takeSlot geometry slot ring) :=
  { listens with pcm := takeSlot_sound listens.pcm unreadEq }

/-- The supports of a stream are as the caches say, whatever is queued. -/
def Lined (geometry : Geometry) (delay : S → Int) (line : List (Option Position))
    (state : ConsumerState F S W) (_ : List (SourceSample F)) : Prop :=
  state.Paced delay line ∧ state.Delays geometry.lookahead line

/-- A step of the consumer that keeps the pace and the history. -/
theorem Heeding.step (slots rest : List (SourceSample F))
    (heeding : Heeding geometry delay stream first asked state ring)
    (historyEq : after.muteHistory = state.muteHistory)
    (lined : ∀ line, Lined geometry delay line state slots →
      Lined geometry delay line after rest) :
    Heeding geometry delay stream first asked after ring := by
  obtain ⟨popped, line, listens, holds⟩ := heeding
  obtain ⟨paced, delays⟩ := lined line ⟨listens.paced, listens.delays⟩
  exact ⟨popped, line, listens.agree paced delays historyEq, historyEq ▸ holds⟩

/-- Capturing a boundary keeps every lookahead position to be played. -/
theorem Attends.capture (attends : Attends geometry delay stream first state ring)
    (streaming : state.finite = none) (word readable : Nat) :
    Attends geometry delay stream first (state.capture word readable) ring := by
  obtain ⟨line, listens, holds⟩ := attends
  refine ⟨line, listens.agree ⟨listens.paced.cached, listens.paced.behind⟩
    (listens.delays.agree ?_ rfl rfl) rfl, holds⟩
  simp [ConsumerState.retained, ConsumerState.capture, streaming]

theorem Informed.flags (informed : Informed geometry delay stream first asked state ring)
    (quiet primed : Bool) : Informed geometry delay stream first asked
      { state with quiet := quiet, primed := primed } ring := by
  obtain ⟨⟨line, listens, holds⟩, popped⟩ := informed
  have flagged : Listens geometry delay stream line
      { state with quiet := quiet, primed := primed } ring :=
    listens.agree ⟨listens.paced.cached, listens.paced.behind⟩
      (listens.delays.agree rfl rfl rfl) rfl
  exact ⟨⟨line, flagged, holds⟩, popped⟩

theorem popRecord_passed (interval : Interval) :
    (popRecord geometry interval ring).mutes.passed = ring.mutes.passed ++ [interval] := by
  change (ring.mutes.exec mailboxQueue (.advanceRead _ interval)).2.passed = _
  exact Channel.passed_advanceRead interval

theorem Attends.receive {interval : Interval} {rest : List Interval}
    (attends : Attends geometry delay stream first state ring)
    (unreadEq : ring.mutes.unread mailboxQueue = interval :: rest) :
    Attends geometry delay stream first (state.receive interval)
      (popRecord geometry interval ring) := by
  obtain ⟨line, listens, holds⟩ := attends
  refine ⟨line,
    { pcm := listens.pcm
      mutes := Channel.sound_reader listens.mutes ⟨rfl, rest, unreadEq⟩
      serial_eq := listens.serial_eq
      paced := ⟨listens.paced.cached, listens.paced.behind⟩
      delays := listens.delays.agree rfl rfl rfl
      ordered := listens.ordered.insert interval
      sorted := listens.sorted }, fun clean heard member position behind meets => ?_⟩
  simp only [ConsumerState.receive, Bool.or_eq_false_iff, Bool.not_eq_false'] at clean
  obtain ⟨cleanBefore, inserted⟩ := clean
  rw [popRecord_passed, List.drop_append] at member
  refine (History.meets_insert inserted).mpr ?_
  rcases List.mem_append.mp member with earlier | last
  · exact .inr (holds cleanBefore heard earlier position behind meets)
  · obtain rfl := List.mem_singleton.mp (List.mem_of_mem_drop last)
    exact .inl meets

/-- What a call leaves behind: the stream it found, or a later one that has popped
no record yet. -/
def Ends (geometry : Geometry) (delay : S → Int) (stream first : Nat) (ring : Ring F S W) : Prop :=
  Attends geometry delay stream first ring.consumer ring ∨
    stream < ring.resetSerial ∧
      Attends geometry delay ring.resetSerial ring.mutes.passed.length ring.consumer ring

theorem Ends.stable {later : Ring F S W} (ends : Ends geometry delay stream first ring)
    (moves : ProducerMoves geometry shape ring later) : Ends geometry delay stream first later := by
  rcases ends with attends | ⟨newer, attends⟩
  · exact .inl (moves.consumer_eq.symm ▸ attends.stable moves)
  · have mutes := attends.choose_spec.1.mutes
    refine .inr ⟨moves.serial_eq.symm ▸ newer, ?_⟩
    rw [moves.serial_eq, moves.popped_eq mutes, moves.consumer_eq]
    exact attends.stable moves

/-- Whichever stream it is, nothing was popped behind everything that was popped. -/
theorem Ends.forget (ends : Ends geometry delay stream first ring) :
    stream ≤ ring.resetSerial ∧
      Attends geometry delay ring.resetSerial ring.mutes.passed.length ring.consumer ring := by
  rcases ends with attends | ⟨newer, attends⟩
  · exact ⟨attends.choose_spec.1.serial_eq.ge, attends.forget⟩
  · exact ⟨Nat.le_of_lt newer, attends⟩

theorem Attends.left {errored : Bool} {later : Ring F S W}
    (attends : Attends geometry delay stream first state ring)
    (moves : ProducerMoves geometry shape (effect geometry (.leave state errored) ring) later) :
    Ends geometry delay stream first later := by
  have left : Attends geometry delay stream first state
      (effect geometry (.leave state errored) ring) := attends.same rfl rfl rfl
  have ends : Ends geometry delay stream first (effect geometry (.leave state errored) ring) :=
    .inl left
  exact ends.stable moves

/-- The queues and the serial of the stream. -/
structure Memory (geometry : Geometry) (serials : Nat → Prop) (ring : Ring F S W) : Prop where
  pcm : ring.pcm.Sound geometry.capacity
  mutes : ring.mutes.Sound mailboxQueue
  serial : serials ring.resetSerial

variable {serials : Nat → Prop}

theorem Memory.steady : Steady geometry (ProducerMoves geometry shape)
    (Memory (F := F) (S := S) (W := W) geometry serials) where
  stable moves holds :=
    ⟨(moves.pcm holds.pcm).1, (moves.mutes holds.mutes).1, moves.serial_eq.symm ▸ holds.serial⟩
  pcm _ holds := holds.pcm
  mutes _ holds := holds.mutes
  counter _ _ _ holds _ := { holds with }
  correction _ _ holds := { holds with }

theorem Memory.discards {resets : Prop} (op : Access F S W) (ring : Ring F S W)
    (holds : Memory geometry serials ring) (permitted : ConsumerPermits geometry resets op ring)
    (discards : op.Discards) : Memory geometry serials (effect geometry op ring) := by
  cases op with
  | pcm access =>
      have sound := Channel.sound_reader holds.pcm permitted
      cases access with
      | snapshotWritten | discardTo => exact { holds with pcm := sound }
      | _ => exact discards.elim
  | mutes access =>
      have sound := Channel.sound_reader holds.mutes permitted
      cases access with
      | snapshotWritten | discardTo => exact { holds with mutes := sound }
      | _ => exact discards.elim
  | _ => exact discards.elim

theorem Memory.left [Binary32 F] [Binary64 W] {adapter : Adapter F W S} {quiet errored : Bool}
    {later : Ring F S W} (restarted : Memory geometry (fun serial => stream < serial) ring)
    (moves : ProducerMoves geometry shape (effect geometry
      (.leave { (state.reset adapter).2 with quiet := quiet } errored) ring) later) :
    Ends geometry delay stream first later := by
  suffices ends : Ends geometry delay stream first (effect geometry
      (.leave { (state.reset adapter).2 with quiet := quiet } errored) ring) from
    ends.stable moves
  refine .inr ⟨restarted.serial, [], ?_, fun _ interval member => ?_⟩
  · exact
      { pcm := restarted.pcm
        mutes := restarted.mutes
        serial_eq := rfl
        paced := ⟨fun pending => (pending rfl).elim,
          fun _ member => (List.not_mem_nil member).elim⟩
        delays := ⟨fun positive => positive, Nat.le_refl _, fun _ _ => rfl⟩
        ordered := History.ordered_clear
        sorted := .nil }
  · rw [List.drop_length] at member
    cases member

section Render

variable [Binary32 F] [Binary64 W] {adapter : Adapter F W S}

/-- The mutes in every phase of a refill. -/
def heedingOutline (geometry : Geometry) (delay : S → Int) (stream first : Nat)
    (asked : List Interval) : RefillOutline F S W where
  ready state ring := Heeding geometry delay stream first asked state ring ∧ ¬state.Draining
  filled state ring := Heeding geometry delay stream first asked state ring ∧ ¬state.Draining
  steered state ring := Heeding geometry delay stream first asked state ring ∧ ¬state.Draining
  refilled result state ring := Heeding geometry delay stream first asked state ring ∧
    ¬state.Draining ∧ (result = .ready → state.outputPending ≠ 0)

theorem heedingRefill (advances : adapter.Advances delay) :
    RefillSteps adapter geometry (ProducerMoves geometry shape)
      (heedingOutline geometry delay stream first asked) := by
  have lined (line : List (Option Position)) :
      RefillKeeps adapter geometry (Lined (F := F) geometry delay line) :=
    (ConsumerState.pacedKept advances line).and
      (ConsumerState.delaysKept geometry.lookahead line)
  have steady (state : ConsumerState F S W) (fact : Prop) : Steady geometry
      (ProducerMoves geometry shape) fun ring =>
        Heeding geometry delay stream first asked state ring ∧ fact :=
    (Heeding.steady state).beside fact
  exact
    { readySteady := fun state => steady state _
      filledSteady := fun state => steady state _
      steeredSteady := fun state => steady state _
      refilledSteady := fun result state => steady state _
      refused := fun state ring holds _ => ⟨holds.1, holds.2, fun ready => by cases ready⟩
      cached := fun state ring holds _ pending => ⟨holds.1, holds.2, fun _ => pending⟩
      space := fun state ring wanted holds refilling =>
        have kept := state.makeInputSpace_keeps wanted geometry.capacity
        ⟨holds.1.step [] [] kept.muteHistory_eq fun line => (lined line).space wanted refilling,
          not_draining_of_finite kept.finite_eq holds.2⟩
      take := fun state ring slot rest holds refilling unpadded _ unreadEq => by
        have kept := state.acceptSource_keeps geometry.gapCapacity slot
        obtain ⟨⟨popped, line, listens, covers⟩, converting⟩ := holds
        have taken : Heeding geometry delay stream first asked state
            (takeSlot geometry slot ring) :=
          ⟨popped, line, listens.takeSlot unreadEq, covers⟩
        have accepted := taken.step (slot :: rest) rest kept.muteHistory_eq
          fun line => (lined line).take refilling unpadded
        have converts := not_draining_of_finite kept.finite_eq converting
        exact ⟨fun _ => ⟨accepted, converts⟩,
          fun _ => ⟨accepted, converts, fun ready => by cases ready⟩⟩
      fill := fun state ring holds _ _ => holds
      pad := fun state ring holds refilling =>
        have kept := state.padInput_keeps (min geometry.capacity converterQuantum)
        ⟨holds.1.step [] [] kept.muteHistory_eq
            fun line => (lined line).pad refilling (.inr (.inr rfl)),
          not_draining_of_finite kept.finite_eq holds.2⟩
      stalled := fun state ring holds _ _ _ _ =>
        ⟨holds.1, holds.2, fun ready => by cases ready⟩
      query := fun state ring holds refilling => by
        have queried : Heeding geometry delay stream first asked { state with
            converter := (adapter.converterQueuedInput state.converter).2 } ring :=
          holds.1.step [] [] rfl fun line => (lined line).query refilling
        exact ⟨fun _ => ⟨queried, holds.2⟩,
          fun _ => ⟨queried, holds.2, fun ready => by cases ready⟩⟩
      steer := fun state ring smoothed holds refilling _ =>
        ⟨holds.1.step [] [] rfl fun line => (lined line).steer _ _ refilling, holds.2⟩
      nominal := fun state ring holds refilling _ =>
        ⟨holds.1.step [] [] rfl
          fun line => (lined line).steer state.occupancyMilli _ refilling, holds.2⟩
      keep := fun state ring holds _ _ => holds
      convert := fun state ring holds refilling => by
        have ran := state.convert_cases adapter geometry (min geometry.capacity converterQuantum)
        exact ⟨holds.1.step [] [] ran.keeps.2.2 fun line => (lined line).convert refilling,
          not_draining_of_finite ran.keeps.1 holds.2, ran.ready⟩ }

theorem safe_completeHeard {boundary : Finite} {failed : Bool}
    (serialEq : ring.resetSerial = stream)
    (pcm : ring.pcm.Sound geometry.capacity) (mutes : ring.mutes.Sound mailboxQueue) :
    (completeFinite adapter geometry boundary failed state).Safe (exec geometry)
      (ProducerMoves geometry shape) (HeedGuar first asked)
      (fun _ exit => Ends geometry delay stream first exit) ring := by
  have side : ConsumerSide geometry True shape
      (ProducerMoves (F := F) (S := S) (W := W) geometry shape) (HeedGuar first asked) :=
    heedSide True
  have steady : Steady geometry (ProducerMoves geometry shape)
      (Memory (F := F) (S := S) (W := W) geometry fun serial => stream < serial) := Memory.steady
  refine side.safe_completeFinite steady steady steady ?_ (fun _ => Memory.discards)
    (fun _ => clears_of_discards steady Memory.discards) ?_ ?_ ?_
  · intro early earlyMoves
    refine ⟨heedGuar_of_other (by simp), fun second secondMoves =>
      ⟨heedGuar_of_other (by simp), ?_⟩⟩
    exact
      { pcm := (secondMoves.pcm (earlyMoves.pcm pcm).1).1
        mutes := (secondMoves.mutes (earlyMoves.mutes mutes).1).1
        serial := by
          change stream < second.resetSerial + 1
          rw [secondMoves.serial_eq, show (effect geometry (.retire state) early).resetSerial =
            early.resetSerial from rfl, earlyMoves.serial_eq, serialEq]
          exact Nat.lt_succ_self _ }
  · exact fun _ _ current restarted => ⟨heedGuar_of_other (by simp), { restarted with }⟩
  · exact fun _ current restarted => ⟨heedGuar_of_other (by simp), { restarted with }⟩
  · exact fun current errored _ restarted after moves => restarted.left moves

omit [Binary64 W] in
/-- A released sample passes the support that waited for it. -/
theorem Heeding.released {boundary : Finite}
    (heeding : Heeding geometry delay stream first asked state ring)
    (finiteEq : state.finite = some boundary)
    (remaining : ConsumerState.remainingLookahead geometry.lookahead boundary ≠ 0) :
    (∀ current : Ring F S W, HeedGuar first asked
      (.lookup state.muteHistory (state.plcPositions state.plcPosition)) current) ∧
      Attends geometry delay stream first (state.release geometry boundary).2 ring := by
  obtain ⟨popped, line, listens, holds⟩ := heeding
  have sorted : (none :: line).Pairwise Follows :=
    List.pairwise_cons.mpr ⟨fun _ _ _ late => (by cases late), listens.sorted⟩
  obtain ⟨playedEq, delays⟩ := listens.delays.release finiteEq remaining
  obtain ⟨plc, releaseEq⟩ := release_cases geometry state boundary
  have retired : (state.release geometry boundary).2.muteHistory =
      state.muteHistory.retire ((none :: line)[geometry.lookahead]?).join := by
    rw [releaseEq, ← playedEq]
    rfl
  refine ⟨heedGuar_of_holds popped listens.ordered sorted holds playedEq, none :: line,
    { listens with
      paced := ?_
      delays := delays
      ordered := retired ▸ listens.ordered.retire _
      sorted := sorted }, fun _ interval member => retired ▸ covers_retire (holds interval member)⟩
  rw [releaseEq]
  exact ⟨listens.paced.cached, fun position member =>
    listens.paced.behind position ((List.mem_cons.mp member).resolve_left (by simp))⟩

/-- Draining a boundary looks up every support it releases. -/
theorem safe_drainHeard {boundary : Finite}
    (heeding : Heeding geometry delay stream first asked state ring)
    (finiteEq : state.finite = some boundary) :
    (drainFinite adapter geometry boundary state).Safe (exec geometry)
      (ProducerMoves geometry shape) (HeedGuar first asked)
      (fun _ exit => Ends geometry delay stream first exit) ring := by
  have side : ConsumerSide geometry True shape
      (ProducerMoves (F := F) (S := S) (W := W) geometry shape) (HeedGuar first asked) :=
    heedSide True
  have steady : Steady geometry (ProducerMoves geometry shape)
    (Heeding geometry delay stream first asked state) := Heeding.steady state
  refine side.safe_drainSupport steady ?_ ?_ ?_ ?_
  · exact fun _ current moves => (steady.stable moves heeding).same rfl rfl rfl
  · exact fun remaining current _ => (heeding.released finiteEq remaining).1 current
  · exact fun remaining current currentHolds after moves =>
      (currentHolds.released finiteEq remaining).2.left moves
  · obtain ⟨-, line, listens, -⟩ := heeding
    exact fun _ => safe_completeHeard listens.serial_eq listens.pcm listens.mutes

section Emission

variable [Widening F W] {result : RefillResult}

/-- An emission looks up its own support, then the one that waited, and passes it. -/
theorem Heeding.emitted (heeding : Heeding geometry delay stream first asked state ring)
    (converting : ¬state.Draining) (ready : result = .ready → state.outputPending ≠ 0) :
    (∀ current : Ring F S W, HeedGuar first asked
      (.lookup state.muteHistory (state.emittedSupport result)) current) ∧
    (∀ current : Ring F S W, HeedGuar first asked (.lookup state.muteHistory
      (state.delayPosition geometry.lookahead (state.emittedSupport result)).1) current) ∧
      Attends geometry delay stream first (state.emission geometry result).state ring := by
  obtain ⟨popped, line, listens, holds⟩ := heeding
  have sorted : (state.emittedSupport result :: line).Pairwise Follows := by
    refine List.pairwise_cons.mpr ⟨fun older member late lateEq early earlyEq => ?_,
      listens.sorted⟩
    unfold ConsumerState.emittedSupport at lateEq
    split at lateEq
    · rename_i isReady
      exact listens.paced.low_le (ready isReady) lateEq (earlyEq ▸ member)
    · cases lateEq
  obtain ⟨waitedEq, -⟩ := listens.delays.delayPosition converting (state.emittedSupport result)
  obtain ⟨-, delays, retired⟩ : _ ∧ (state.emission geometry result).state.Delays
    geometry.lookahead _ ∧ _ := listens.delays.emission converting
  refine ⟨heedGuar_of_newest popped listens.ordered sorted holds,
    heedGuar_of_holds popped listens.ordered sorted holds waitedEq, _,
    { listens with
      paced := ?_
      delays := delays
      ordered := retired ▸ listens.ordered.retire _
      sorted := sorted }, fun _ interval member => retired ▸ covers_retire (holds interval member)⟩
  obtain ⟨plc, plcPositions, plcPosition, muteHistory, stateEq⟩ :=
    state.emission_state geometry result
  have passed := listens.paced.popped ready
  rw [stateEq]
  exact ⟨passed.cached, passed.behind⟩

theorem heedingRender (advances : adapter.Advances delay) :
    RenderSteps adapter geometry (ProducerMoves geometry shape) (HeedGuar first asked)
      (fun _ exit => Ends geometry delay stream first exit)
      (Informed geometry delay stream first asked)
      (heedingOutline geometry delay stream first asked) where
  toRefillSteps := heedingRefill advances
  awakeSteady := Informed.steady
  start state ring informed clean _ converting := ⟨informed.heeding clean, converting⟩
  again state ring holds _ := ⟨holds.1, holds.2.1⟩
  wake state ring informed := informed.flags false state.primed
  prime state ring informed _ :=
    ⟨fun _ _ _ _ _ => informed.flags state.quiet true, fun _ => informed.flags state.quiet true⟩
  fault state ring informed _ :=
    (heedSide True).safe_reportFault (Informed.steady state) informed
      fun _ current _ moves => current.1.left moves
  refilledFault result state ring holds _ _ :=
    (heedSide True).safe_reportFault (Heeding.steady state) holds.1
      fun _ current _ moves => current.attends.left moves
  idle state early ring informed moves _ _ _ :=
    (heedSide True).safe_leave (Informed.steady state)
      ((Informed.steady state).stable moves informed) fun _ current _ later => current.1.left later
  unprimed state early ring informed moves _ _ _ _ :=
    (heedSide True).safe_leave (Informed.steady state)
      ((Informed.steady state).stable moves informed) fun _ current _ later => current.1.left later
  drain state boundary ring informed clean finiteEq _ :=
    safe_drainHeard (informed.heeding clean) finiteEq
  past state boundary ring holds finiteEq _ := safe_drainHeard holds.1 finiteEq
  fail result state boundary ring holds _ _ := by
    obtain ⟨⟨-, line, listens, -⟩, -⟩ := holds
    exact safe_completeHeard listens.serial_eq listens.pcm listens.mutes
  emit result state ring holds _ := by
    have side : ConsumerSide geometry True shape
      (ProducerMoves (F := F) (S := S) (W := W) geometry shape) (HeedGuar first asked) :=
      heedSide True
    have steady : Steady geometry (ProducerMoves geometry shape)
      (Heeding geometry delay stream first asked state) := Heeding.steady state
    obtain ⟨heeding, converting, ready⟩ := holds
    obtain ⟨newest, waited, -⟩ := heeding.emitted converting ready
    refine side.safe_emitSupports steady steady heeding (fun current _ => newest current) ?_ ?_
      (fun current _ => waited current) ?_
    · exact fun current currentHolds _ => currentHolds.same rfl rfl rfl
    · exact fun current currentHolds _ => currentHolds
    · exact fun current currentHolds after moves =>
        (currentHolds.emitted converting ready).2.2.left moves

omit [Binary32 F] [Binary64 W] [Widening F W] in
/-- What was asked for before the mailbox drain has been popped after it. -/
theorem attendsStart : DrainSteps geometry (ProducerMoves geometry shape)
    (fun (state : ConsumerState F S W) ring => Attends geometry delay stream first state ring ∧
      asked <+: ring.mutes.published ∧
        asked.length ≤ ring.mutes.passed.length + maxSpans * 2)
    (fun limit state ring => Attends geometry delay stream first state ring ∧
      asked <+: ring.mutes.published ∧ asked.length ≤ ring.mutes.passed.length + limit)
    (Informed geometry delay stream first asked) := by
  have steady (limit : Nat) (state : ConsumerState F S W) : Steady geometry
      (ProducerMoves geometry shape) fun ring => Attends geometry delay stream first state ring ∧
        asked <+: ring.mutes.published ∧ asked.length ≤ ring.mutes.passed.length + limit := by
    have base : Steady geometry (ProducerMoves geometry shape) fun ring : Ring F S W =>
      Attends geometry delay stream first state ring := Attends.steady state
    exact
      { stable := fun moves holds => by
          have passedEq := moves.popped_eq (base.mutes _ holds.1)
          exact ⟨base.stable moves holds.1, holds.2.1.trans moves.records_published_prefix,
            passedEq.symm ▸ holds.2.2⟩
        pcm := fun _ holds => base.pcm _ holds.1
        mutes := fun _ holds => base.mutes _ holds.1
        counter := fun _ _ _ holds other => ⟨base.counter _ _ _ holds.1 other, holds.2⟩
        correction := fun _ _ holds => ⟨base.correction _ _ holds.1, holds.2⟩ }
  have drained {state : ConsumerState F S W} {ring : Ring F S W}
      (attends : Attends geometry delay stream first state ring)
      (published : asked <+: ring.mutes.published)
      (reached : asked.length ≤ ring.mutes.passed.length) :
      Informed geometry delay stream first asked state ring := by
    obtain ⟨line, listens, -⟩ := id attends
    refine ⟨attends, List.prefix_of_prefix_length_le published ?_ reached⟩
    rw [listens.mutes.published_eq]
    exact List.prefix_append _ _
  exact
    { startedSteady := steady _
      drainingSteady := steady
      capture := fun state ring holds _ streaming =>
        ⟨holds.1.capture streaming _ _, holds.2⟩
      uncaptured := fun state ring holds _ => holds
      receive := fun limit state ring interval rest holds unreadEq => by
        refine ⟨holds.1.receive unreadEq, holds.2.1, ?_⟩
        rw [popRecord_passed, List.length_append, List.length_singleton]
        have bound := holds.2.2
        omega
      emptied := fun limit state ring holds empty => by
        refine drained holds.1 holds.2.1 (holds.2.1.length_le.trans ?_)
        obtain ⟨line, listens, -⟩ := holds.1
        rw [listens.mutes.published_eq, empty, List.append_nil]
      bounded := fun state ring holds => drained holds.1 holds.2.1 holds.2.2 }

end Emission

theorem safe_resetHeard (attends : Attends geometry delay stream first ring.consumer ring) :
    (consumerReset adapter).Safe (exec geometry) (ProducerMoves geometry shape)
      (HeedGuar first asked) (fun _ exit => Ends geometry delay stream first exit) ring := by
  have side : ConsumerSide geometry True shape
      (ProducerMoves (F := F) (S := S) (W := W) geometry shape) (HeedGuar first asked) :=
    heedSide True
  obtain ⟨line, listens, -⟩ := attends
  have resetting : Steady geometry (ProducerMoves geometry shape)
      (Memory (F := F) (S := S) (W := W) geometry fun serial => serial = stream) := Memory.steady
  have restarted : Steady geometry (ProducerMoves geometry shape)
      (Memory (F := F) (S := S) (W := W) geometry fun serial => stream < serial) := Memory.steady
  refine side.safe_resetStream resetting restarted
    ⟨listens.pcm, listens.mutes, listens.serial_eq⟩ Memory.discards ?_ ?_ ?_
  · intro current holds
    refine ⟨heedGuar_of_other (by simp), holds.pcm, holds.mutes, ?_⟩
    change stream < current.resetSerial + 1
    rw [holds.serial]
    exact Nat.lt_succ_self stream
  · exact fun current holds _ => ⟨heedGuar_of_other (by simp), { holds with }⟩
  · exact fun current holds after moves => holds.left moves

section Calls

variable [Widening F W]

/-- A render mutes what was asked for when it began, and a reset looks nothing up. -/
theorem safe_heeds (advances : adapter.Advances delay) (call : ConsumerCall)
    (attends : Attends geometry delay stream first ring.consumer ring) :
    (consumerBody adapter geometry call).Safe (exec geometry) (ProducerMoves geometry shape)
      (HeedGuar first ring.mutes.published)
      (fun _ exit => Ends geometry delay stream first exit) ring := by
  have order : Program.Preordered (ProducerMoves (F := F) (S := S) (W := W) geometry shape) :=
    ⟨.refl, .trans⟩
  cases call with
  | render =>
      have bounded : ring.mutes.published.length ≤ ring.mutes.passed.length + maxSpans * 2 := by
        obtain ⟨line, listens, -⟩ := id attends
        have waiting := listens.mutes.valid.distance_le
        rw [listens.mutes.published_length]
        exact Nat.add_le_add_left waiting _
      refine Program.Safe.bind order (Program.Safe.mono (fun rendered exit ends => ?_)
        (safe_consumerRenderSample (heedSide True) attendsStart (heedingRender advances)
          ⟨attends, List.prefix_refl _, bounded⟩))
      exact fun last moves => ends.stable moves
  | reset =>
      refine Program.Safe.bind order (Program.Safe.mono (fun succeeded exit ends => ?_)
        (safe_resetHeard attends))
      exact fun last moves => ends.stable moves

theorem safe_heedsAll (advances : adapter.Advances delay) (call : ConsumerCall)
    (ring : Ring F S W) : (consumerBody adapter geometry call).Safe (exec geometry)
      (ProducerMoves geometry shape)
      (fun op current => ∀ first,
        Attends geometry delay ring.resetSerial first ring.consumer ring →
          HeedGuar first ring.mutes.published op current)
      (fun _ exit => ∀ first,
        Attends geometry delay ring.resetSerial first ring.consumer ring →
          Ends geometry delay ring.resetSerial first exit) ring :=
  Program.Safe.all fun _ => Program.Safe.all fun attends => safe_heeds advances call attends

/-- The consumer's half of the outline: the accounts, and what each call leaves of
what it was asked for. -/
def promptSpec (geometry : Geometry) (advances : adapter.Advances delay) :
    ConsumerSpec adapter geometry True none fun _ _ => True where
  inv ring := DrainInv geometry ring ∧
    Attends geometry delay ring.resetSerial ring.mutes.passed.length ring.consumer ring
  guar := DrainGuar adapter geometry True
  post _ entry _ exit :=
    Attends geometry delay entry.resetSerial entry.mutes.passed.length entry.consumer entry ∧
      entry.resetSerial ≤ exit.resetSerial ∧
      ∀ first, Attends geometry delay entry.resetSerial first entry.consumer entry →
        Ends geometry delay entry.resetSerial first exit
  permits promised := promised.1
  stable {before after} moves holds := by
    refine ⟨holds.1.stable moves, ?_⟩
    rw [moves.consumer_eq, moves.serial_eq, moves.popped_eq holds.2.choose_spec.1.mutes]
    exact holds.2.stable moves
  safe call ring admitted holds := by
    have drained := (drainSpec adapter geometry True (fun _ _ => True) id).safe call ring trivial
      holds.1
    refine ((drained.and (safe_heedsAll advances call ring)).promising
      fun op current promised => promised.1).mono fun result exit ends => ?_
    obtain ⟨reached, attends⟩ := (ends.2 _ holds.2).forget
    exact ⟨⟨ends.1.1, attends⟩, holds.2, reached, ends.2⟩

omit [Widening F W] in
theorem attends_initial {settings : Settings} {gapCapacity : Nat} {converter : S}
    (positive : 0 < geometry.capacity) :
    let ring : Ring F S W := Ring.initial (ConsumerState.initial settings gapCapacity converter)
    Attends geometry delay ring.resetSerial ring.mutes.passed.length ring.consumer ring := by
  refine ⟨[], ?_, fun _ interval member => ?_⟩
  · exact
      { pcm := Channel.sound_empty positive
        mutes := Channel.sound_empty (by decide)
        serial_eq := rfl
        paced := ⟨fun pending => (pending rfl).elim,
          fun _ member => (List.not_mem_nil member).elim⟩
        delays := ⟨fun positive => positive, Nat.le_refl _, fun _ _ => rfl⟩
        ordered := History.ordered_new _
        sorted := .nil }
  · rw [List.drop_length] at member
    cases member

/-- What the system promises of the access a thread performs next. -/
def promptGuar (geometry : Geometry) (delay : S → Int) : (party : Party) → party.Call F →
    Ring F S W → Access F S W → Ring F S W → Prop
  | .producer, _, _, _, _ => True
  | .consumer, _, entry, op, current =>
      Attends geometry delay entry.resetSerial entry.mutes.passed.length entry.consumer entry ∧
        ∀ first, Attends geometry delay entry.resetSerial first entry.consumer entry →
          HeedGuar first entry.mutes.published op current

/-- The stream that a call found, for as long as it lasts. -/
def Lasts (geometry : Geometry) (delay : S → Int) (stream first : Nat) (ring : Ring F S W) : Prop :=
  stream < ring.resetSerial ∨ Attends geometry delay stream first ring.consumer ring

omit [Binary32 F] [Binary64 W] [Widening F W] in
theorem Lasts.stable {later : Ring F S W} (lasts : Lasts geometry delay stream first ring)
    (moves : ProducerMoves geometry shape ring later) :
    Lasts geometry delay stream first later := by
  rcases lasts with newer | attends
  · exact .inl (moves.serial_eq.symm ▸ newer)
  · exact .inr (moves.consumer_eq.symm ▸ attends.stable moves)

omit [Binary32 F] [Binary64 W] [Widening F W] in
/-- A call keeps the stream it began in, or begins a later one. -/
theorem Lasts.call {exit : Ring F S W} (lasts : Lasts geometry delay stream first ring)
    (reached : ring.resetSerial ≤ exit.resetSerial)
    (ends : ∀ first, Attends geometry delay ring.resetSerial first ring.consumer ring →
      Ends geometry delay ring.resetSerial first exit) :
    Lasts geometry delay stream first exit := by
  rcases lasts with newer | attends
  · exact .inl (Nat.lt_of_lt_of_le newer reached)
  · obtain rfl := attends.choose_spec.1.serial_eq
    rcases ends first attends with same | ⟨newer, -⟩
    · exact .inr same
    · exact .inl newer

/-- In every schedule, against every converter that advances and in either mode of
concealment: a mute record that was published before a render began and was not
popped when some render of the stream began mutes every position that it meets. -/
theorem muted_of_published {settings : Settings} {config : RingConfig F S W}
    (advances : adapter.Advances delay)
    (reached : RingReachable adapter settings (fun _ _ => True) geometry config)
    {call : ConsumerCall} {entry : Ring F S W} {history : History} {position : Position}
    {next : Bool → RingProgram F S W (ConsumerResult F)}
    (running : config.thread .consumer =
      .running call entry (.act (.lookup history (some position)) next))
    {found : Ring F S W} (began : found = entry ∨ found.resetSerial = entry.resetSerial ∧
      ∃ record ∈ config.returned .consumer, record.entry = found)
    {interval : Interval}
    (published : interval ∈ entry.mutes.published.drop found.mutes.passed.length)
    (meets : interval.Meets position) : history.muted (some position) = true := by
  obtain ⟨ring, created, steps⟩ := reached
  have positive : 0 < geometry.capacity :=
    Nat.lt_of_lt_of_le (by decide) (create_capacity created)
  obtain ⟨-, outputDelay, queued, converter, -, initial⟩ := create_cases created
  let spec := promptSpec geometry advances
  let outline := spec.outline fun call _ => uniform_none call
  have start : spec.inv ring := by
    subst initial
    exact ⟨drainInv_initial positive, attends_initial positive⟩
  have initially := spec.initially (fun call _ => uniform_none call) positive initial start
  have judged := outline.safe_of_running initially (promptGuar geometry delay)
    (fun _ _ _ _ _ => True) (fun party call entry admitted holds => by
      cases party with
      | producer =>
          exact ((outline.safe .producer call entry admitted holds).promising
            fun _ _ _ => trivial).mono fun _ _ _ => trivial
      | consumer =>
          exact ((safe_heedsAll advances call entry).promising
            fun _ _ heeds => ⟨holds.2, heeds⟩).mono fun _ _ _ => trivial) steps running
  obtain ⟨fresh, heeds⟩ := (judged _ ((outline.order .consumer).refl _)).1
  suffices attends : Attends geometry delay entry.resetSerial found.mutes.passed.length
      entry.consumer entry from
    heeds _ attends history position rfl interval published meets
  rcases began with rfl | ⟨serialEq, record, member, rfl⟩
  · exact fresh
  · -- The stream of the record lasts from its entry to this one.
    have posted := Outline.post_of_returned _
      (outline.holds_of_reachable initially steps .consumer) member
    have lasts := outline.kept_of_returned initially .consumer
      (Lasts geometry delay record.entry.resetSerial record.entry.mutes.passed.length)
      (fun moves lasts => lasts.stable moves)
      (fun _ post lasts => lasts.call post.2.1 post.2.2) steps member (.inr posted.1)
    rw [Config.settled_of_running running] at lasts
    rcases lasts with newer | attends
    · exact absurd newer (serialEq ▸ Nat.lt_irrefl _)
    · exact serialEq ▸ attends

end Calls

end Render

end PcmRing
