import PcmRing.DrainedBoundary

/-!
# Invariants of the consumer

A predicate on the consumer state and the queues that every local step of the
consumer keeps holds whenever the consumer is between two calls, in every
schedule.  The accounts of the consumer may be used in every step.
-/

namespace PcmRing

open AtomicProgram TwoLapQueue

variable {F S W : Type}

/-- Two memories with the same queues and the same stream. -/
structure SameQueues (before after : Ring F S W) : Prop where
  pcm_eq : after.pcm = before.pcm
  mutes_eq : after.mutes = before.mutes
  serial_eq : after.resetSerial = before.resetSerial
  start_eq : after.ledger.streamStart = before.ledger.streamStart
  recordsStart_eq : after.ledger.recordsStart = before.ledger.recordsStart
  slots_eq : after.ledger.slots = before.ledger.slots
  records_eq : after.ledger.records = before.ledger.records

/-- The accesses that note something and touch no queue. -/
def Access.Notes : Access F S W → Prop
  | .storeCounter .. | .storeRatioCorrection _ | .leave .. | .feed _ | .release | .retire _ => True
  | _ => False

theorem sameQueues_of_notes {geometry : Geometry} (op : Access F S W) (notes : op.Notes)
    (ring : Ring F S W) : SameQueues ring (effect geometry op ring) := by
  cases op <;> first | exact notes.elim | exact ⟨rfl, rfl, rfl, rfl, rfl, rfl, rfl⟩

variable [Binary32 F] [Binary64 W] [Widening F W]

/-- Every local step of the consumer keeps a predicate, which is another one
while the ratio of a conversion is set. -/
structure SteeredInvariant (adapter : Adapter F W S) (geometry : Geometry)
    (shape : List (SourceSample F) → List SlotNote → Prop)
    (inv set : ConsumerState F S W → Ring F S W → Prop) : Prop where
  published : ∀ {slack state before after}, Accounts geometry slack state before →
    ProducerMoves geometry shape before after → inv state before → inv state after
  same : ∀ {state before after}, SameQueues before after → inv state before → inv state after
  capture : ∀ {state ring}, Accounts geometry 0 state ring → FinishPending ring.finish →
    state.finite = none → inv state ring →
    inv (state.capture ring.finish (ring.pcm.unread geometry.capacity).length) ring
  receive : ∀ {state ring interval rest}, Accounts geometry 0 state ring →
    ring.mutes.unread mailboxQueue = interval :: rest → inv state ring →
    inv (state.receive interval) (popRecord geometry interval ring)
  flags : ∀ {state ring} quiet primed, inv state ring →
    inv { state with quiet := quiet, primed := primed } ring
  space : ∀ {state ring} wanted, Accounts geometry 0 state ring → state.Refilling →
    inv state ring → inv (state.makeInputSpace wanted geometry.capacity) ring
  take : ∀ {state ring slot rest}, Accounts geometry 0 state ring → state.Refilling →
    state.inputPadding = false → state.inputOffset + state.inputPending < geometry.capacity →
    ring.pcm.unread geometry.capacity = slot :: rest → inv state ring →
    inv (state.acceptSource geometry.gapCapacity slot).2 (takeSlot geometry slot ring)
  pad : ∀ {state ring}, Accounts geometry 0 state ring → state.Refilling →
    (state.finite.isSome → 0 < state.inputPending ∨ state.inputPadding = true ∨
      ring.pcm.unread geometry.capacity = []) → inv state ring →
    inv (state.padInput (min geometry.capacity converterQuantum)) ring
  query : ∀ {state ring}, Accounts geometry 0 state ring → state.Refilling → inv state ring →
    inv { state with converter := (adapter.converterQueuedInput state.converter).2 } ring
  steer : ∀ {state ring} smoothed, state.Refilling → inv state ring →
    set { state with
      occupancyMilli := smoothed
      ratio := steeredRatio W geometry smoothed state.ratio } ring
  nominal : ∀ {state ring}, state.Refilling → inv state ring →
    set { state with ratio := nominalRatio W geometry.outputRateHz geometry.inputRateHz } ring
  keep : ∀ {state ring}, state.Refilling →
    Binary64.eq state.ratio (Binary64.ofRat 0) = false → inv state ring → set state ring
  setPublished : ∀ {slack state before after}, Accounts geometry slack state before →
    ProducerMoves geometry shape before after → set state before → set state after
  setSame : ∀ {state before after}, SameQueues before after → set state before → set state after
  convert : ∀ {state ring}, Accounts geometry 0 state ring → state.Refilling →
    set state ring →
    inv (state.convert adapter geometry (min geometry.capacity converterQuantum)).2 ring
  emit : ∀ {slack result state ring}, Accounts geometry slack state ring →
    (result = .ready → state.outputPending ≠ 0) → Emits result state → inv state ring →
    inv (state.emission geometry result).state ring
  release : ∀ {state boundary ring}, Accounts geometry 0 state ring →
    state.finite = some boundary →
    ConsumerState.remainingLookahead geometry.lookahead boundary ≠ 0 → inv state ring →
    inv (state.release geometry boundary).2 ring
  reset : ∀ {state : ConsumerState F S W} {earlier ring : Ring F S W} quiet,
    inv state earlier → Completed geometry ring →
    inv { (state.reset adapter).2 with quiet := quiet } ring

/-- Every local step of the consumer keeps a predicate. -/
structure LocalInvariant (adapter : Adapter F W S) (geometry : Geometry)
    (shape : List (SourceSample F) → List SlotNote → Prop)
    (inv : ConsumerState F S W → Ring F S W → Prop) : Prop where
  published : ∀ {slack state before after}, Accounts geometry slack state before →
    ProducerMoves geometry shape before after → inv state before → inv state after
  same : ∀ {state before after}, SameQueues before after → inv state before → inv state after
  capture : ∀ {state ring}, Accounts geometry 0 state ring → FinishPending ring.finish →
    state.finite = none → inv state ring →
    inv (state.capture ring.finish (ring.pcm.unread geometry.capacity).length) ring
  receive : ∀ {state ring interval rest}, Accounts geometry 0 state ring →
    ring.mutes.unread mailboxQueue = interval :: rest → inv state ring →
    inv (state.receive interval) (popRecord geometry interval ring)
  flags : ∀ {state ring} quiet primed, inv state ring →
    inv { state with quiet := quiet, primed := primed } ring
  space : ∀ {state ring} wanted, Accounts geometry 0 state ring → state.Refilling →
    inv state ring → inv (state.makeInputSpace wanted geometry.capacity) ring
  take : ∀ {state ring slot rest}, Accounts geometry 0 state ring → state.Refilling →
    state.inputPadding = false → state.inputOffset + state.inputPending < geometry.capacity →
    ring.pcm.unread geometry.capacity = slot :: rest → inv state ring →
    inv (state.acceptSource geometry.gapCapacity slot).2 (takeSlot geometry slot ring)
  pad : ∀ {state ring}, Accounts geometry 0 state ring → state.Refilling →
    (state.finite.isSome → 0 < state.inputPending ∨ state.inputPadding = true ∨
      ring.pcm.unread geometry.capacity = []) → inv state ring →
    inv (state.padInput (min geometry.capacity converterQuantum)) ring
  query : ∀ {state ring}, Accounts geometry 0 state ring → state.Refilling → inv state ring →
    inv { state with converter := (adapter.converterQueuedInput state.converter).2 } ring
  steer : ∀ {state ring} smoothed ratio, state.Refilling → inv state ring →
    inv { state with occupancyMilli := smoothed, ratio := ratio } ring
  convert : ∀ {state ring}, Accounts geometry 0 state ring → state.Refilling →
    inv state ring →
    inv (state.convert adapter geometry (min geometry.capacity converterQuantum)).2 ring
  emit : ∀ {slack result state ring}, Accounts geometry slack state ring →
    (result = .ready → state.outputPending ≠ 0) → Emits result state → inv state ring →
    inv (state.emission geometry result).state ring
  release : ∀ {state boundary ring}, Accounts geometry 0 state ring →
    state.finite = some boundary →
    ConsumerState.remainingLookahead geometry.lookahead boundary ≠ 0 → inv state ring →
    inv (state.release geometry boundary).2 ring
  reset : ∀ {state : ConsumerState F S W} {earlier ring : Ring F S W} quiet,
    inv state earlier → Completed geometry ring →
    inv { (state.reset adapter).2 with quiet := quiet } ring

/-- A predicate that no step breaks holds while the ratio is set too. -/
theorem LocalInvariant.steered {adapter : Adapter F W S} {geometry : Geometry}
    {shape : List (SourceSample F) → List SlotNote → Prop}
    {inv : ConsumerState F S W → Ring F S W → Prop}
    (keeps : LocalInvariant adapter geometry shape inv) :
    SteeredInvariant adapter geometry shape inv inv :=
  { keeps with
    steer := fun smoothed refilling holds => keeps.steer smoothed _ refilling holds
    nominal := fun refilling holds => keeps.steer _ _ refilling holds
    keep := fun _ _ holds => holds
    setPublished := keeps.published
    setSame := keeps.same
    convert := keeps.convert }

namespace SteeredInvariant

variable {adapter : Adapter F W S} {geometry : Geometry} {resets : Prop} {slack : Nat}
  {shape : List (SourceSample F) → List SlotNote → Prop}
  {inv set : ConsumerState F S W → Ring F S W → Prop} {ring : Ring F S W}
  {state : ConsumerState F S W}
  (keeps : SteeredInvariant adapter geometry shape inv set)

omit [Binary32 F] [Binary64 W] [Widening F W] in
/-- A steady assertion about the accounts stays steady beside a predicate that the
producer keeps and that only the queues are part of. -/
private theorem steady_beside {assertion : Ring F S W → Prop}
    {kept : ConsumerState F S W → Ring F S W → Prop}
    (base : Steady geometry (ProducerMoves geometry shape) assertion)
    (accounts : ∀ ring, assertion ring → Accounts geometry slack state ring)
    (published : ∀ {before after}, Accounts geometry slack state before →
      ProducerMoves geometry shape before after → kept state before → kept state after)
    (same : ∀ {before after}, SameQueues before after → kept state before → kept state after) :
    Steady geometry (ProducerMoves geometry shape) fun ring =>
      assertion ring ∧ kept state ring where
  stable moves holds :=
    ⟨base.stable moves holds.1, published (accounts _ holds.1) moves holds.2⟩
  pcm _ holds := base.pcm _ holds.1
  mutes _ holds := base.mutes _ holds.1
  counter _ _ _ holds other :=
    ⟨base.counter _ _ _ holds.1 other,
      same (sameQueues_of_notes (.storeCounter _ _) trivial _) holds.2⟩
  correction _ _ holds :=
    ⟨base.correction _ _ holds.1,
      same (sameQueues_of_notes (.storeRatioCorrection _) trivial _) holds.2⟩

include keeps

/-- A steady assertion about the accounts stays steady beside the invariant. -/
theorem steady {assertion : Ring F S W → Prop}
    (base : Steady geometry (ProducerMoves geometry shape) assertion)
    (accounts : ∀ ring, assertion ring → Accounts geometry slack state ring) :
    Steady geometry (ProducerMoves geometry shape) fun ring => assertion ring ∧ inv state ring :=
  steady_beside base accounts keeps.published keeps.same

theorem setSteady {assertion : Ring F S W → Prop}
    (base : Steady geometry (ProducerMoves geometry shape) assertion)
    (accounts : ∀ ring, assertion ring → Accounts geometry slack state ring) :
    Steady geometry (ProducerMoves geometry shape) fun ring => assertion ring ∧ set state ring :=
  steady_beside base accounts keeps.setPublished keeps.setSame

omit keeps in
/-- The phases of a refill, each beside the invariant. -/
def outline (geometry : Geometry) (inv set : ConsumerState F S W → Ring F S W → Prop) :
    RefillOutline F S W where
  ready state ring := (drainOutline geometry).ready state ring ∧ inv state ring
  filled state ring := (drainOutline geometry).filled state ring ∧ inv state ring
  steered state ring := (drainOutline geometry).steered state ring ∧ set state ring
  refilled result state ring :=
    (drainOutline geometry).refilled result state ring ∧ inv state ring

theorem refillSteps : RefillSteps adapter geometry (ProducerMoves geometry shape)
    (outline geometry inv set) := by
  have base : RefillSteps adapter geometry (ProducerMoves geometry shape)
    (drainOutline geometry) := drainRefill
  exact
    { readySteady := fun state => keeps.steady (base.readySteady state) fun _ holds => holds.1
      filledSteady := fun state => keeps.steady (base.filledSteady state) fun _ holds => holds.1.1
      steeredSteady := fun state =>
        keeps.setSteady (base.steeredSteady state) fun _ holds => holds.1
      refilledSteady := fun result state =>
        keeps.steady (base.refilledSteady result state) fun _ holds => holds.1
      refused := fun state ring holds failed =>
        ⟨base.refused state ring holds.1 failed, holds.2⟩
      cached := fun state ring holds works pending =>
        ⟨base.cached state ring holds.1 works pending, holds.2⟩
      space := fun state ring wanted holds refilling =>
        ⟨base.space state ring wanted holds.1 refilling,
          keeps.space wanted holds.1.1 refilling holds.2⟩
      take := fun state ring slot rest holds refilling unpadded room unreadEq =>
        have taken := base.take state ring slot rest holds.1 refilling unpadded room unreadEq
        have kept := keeps.take holds.1.1 refilling unpadded room unreadEq holds.2
        ⟨fun accepted => ⟨taken.1 accepted, kept⟩, fun dropped => ⟨taken.2 dropped, kept⟩⟩
      fill := fun state ring holds refilling waiting =>
        ⟨base.fill state ring holds.1 refilling waiting, holds.2⟩
      pad := fun state ring holds refilling =>
        ⟨base.pad state ring holds.1 refilling,
          keeps.pad holds.1.1.1 refilling holds.1.2 holds.2⟩
      stalled := fun state ring holds refilling empty streaming stuck =>
        ⟨base.stalled state ring holds.1 refilling empty streaming stuck, holds.2⟩
      query := fun state ring holds refilling =>
        have queried := base.query state ring holds.1 refilling
        have kept := keeps.query holds.1.1.1 refilling holds.2
        ⟨fun answered => ⟨queried.1 answered, kept⟩, fun refused => ⟨queried.2 refused, kept⟩⟩
      steer := fun state ring smoothed holds refilling streaming =>
        ⟨base.steer state ring smoothed holds.1 refilling streaming,
          keeps.steer _ refilling holds.2⟩
      nominal := fun state ring holds refilling unset =>
        ⟨base.nominal state ring holds.1 refilling unset, keeps.nominal refilling holds.2⟩
      keep := fun state ring holds refilling nonzero =>
        ⟨base.keep state ring holds.1 refilling nonzero, keeps.keep refilling nonzero holds.2⟩
      convert := fun state ring holds refilling =>
        ⟨base.convert state ring holds.1 refilling,
          keeps.convert holds.1.1 refilling holds.2⟩ }

omit keeps in
/-- Predicates on what a render returns beside the state it leaves, and on what a
boundary retires, that every end of a render meets. -/
structure Answers (adapter : Adapter F W S) (geometry : Geometry)
    (inv : ConsumerState F S W → Ring F S W → Prop)
    (said : ConsumerState F S W → Rendered F → Prop)
    (noted : ConsumerState F S W → Ring F S W → Prop) : Prop where
  silent : ∀ state errored, said state (0, false, errored)
  emit : ∀ {slack result state ring}, Accounts geometry slack state ring →
    (result = .ready → state.outputPending ≠ 0) → Emits result state → inv state ring →
    said (state.emission geometry result).state (state.emission geometry result).rendered
  release : ∀ {state boundary ring}, Accounts geometry 0 state ring →
    state.finite = some boundary →
    ConsumerState.remainingLookahead geometry.lookahead boundary ≠ 0 → inv state ring →
    said (state.release geometry boundary).2 (state.release geometry boundary).1
  retire : ∀ {slack state ring} finite, Accounts geometry slack state ring → inv state ring →
    noted { state with finite := finite } ring

omit keeps [Binary32 F] [Binary64 W] [Widening F W] in
/-- What is retired is noted. -/
def RetireGuar (noted : ConsumerState F S W → Ring F S W → Prop) (op : Access F S W)
    (ring : Ring F S W) : Prop :=
  ∀ state, op = .retire state → noted state ring

omit keeps [Binary32 F] [Binary64 W] [Widening F W] in
private theorem retireGuar_of_other {noted : ConsumerState F S W → Ring F S W → Prop}
    {op : Access F S W} (other : ∀ state, op ≠ .retire state) : RetireGuar noted op ring :=
  fun state same => (other state same).elim

omit keeps [Binary32 F] [Binary64 W] [Widening F W] in
private theorem retireSide {noted : ConsumerState F S W → Ring F S W → Prop} :
    ConsumerSide geometry resets shape
      (ProducerMoves (F := F) (S := S) (W := W) geometry shape) (RetireGuar noted) where
  order := ⟨.refl, .trans⟩
  moves := id
  permits _ _ _ plain _ same := by
    rw [same] at plain
    exact plain.elim

omit keeps in
theorem Answers.any : Answers adapter geometry inv (fun _ _ => True) fun _ _ => True :=
  ⟨fun _ _ => trivial, fun _ _ _ _ => trivial, fun _ _ _ _ => trivial, fun _ _ _ => trivial⟩

theorem carried {before after : Ring F S W} (moves : ProducerMoves geometry shape before after)
    (holds : DrainInv geometry before ∧ inv before.consumer before) :
    inv after.consumer after := by
  rw [moves.consumer_eq]
  exact keeps.published holds.1.1 moves holds.2

private theorem left {errored : Bool} (accounts : Accounts geometry slack state ring)
    (holds : inv state ring) {after : Ring F S W}
    (moves : ProducerMoves geometry shape (effect geometry (.leave state errored) ring) after) :
    inv after.consumer after := by
  have accountsLeft : Accounts geometry slack state
      (effect geometry (.leave state errored) ring) :=
    { accounts with
      dropped_le := by
        have bound := accounts.dropped_le
        change ring.pcm.passed.length ≤ ring.ledger.streamStart + state.sourceTaken +
          (if errored then ring.ledger.errors + 1 else ring.ledger.errors) + slack
        split <;> omega }
  rw [moves.consumer_eq]
  exact keeps.published accountsLeft moves
    (keeps.same (sameQueues_of_notes (.leave state errored) trivial ring) holds)

private theorem leftReset {earlier : Ring F S W} {quiet errored : Bool}
    (holds : inv state earlier) (completed : Completed geometry ring) {after : Ring F S W}
    (moves : ProducerMoves geometry shape
      (effect geometry (.leave { (state.reset adapter).2 with quiet := quiet } errored) ring)
      after) : inv after.consumer after := by
  have awake : DrainInv geometry (effect geometry
      (.leave { (state.reset adapter).2 with quiet := quiet } errored) ring) :=
    completed.drainInv
  have fresh := awake.1
  rw [moves.consumer_eq]
  exact keeps.published fresh moves (keeps.same (sameQueues_of_notes (.leave _ errored) trivial
    ring) (keeps.reset quiet holds completed))

omit keeps [Binary32 F] [Binary64 W] [Widening F W] in
/-- Dropping what is unread moves the start of the stream behind it. -/
private theorem completed_discards (op : Access F S W) (ring : Ring F S W)
    (holds : Completed geometry ring) (permitted : ConsumerPermits geometry resets op ring)
    (discards : op.Discards) :
    Completed geometry (effect geometry op ring) := by
  cases op with
  | pcm access =>
      have sound := Channel.sound_reader holds.pcm permitted
      cases access with
      | snapshotWritten => exact { holds with pcm := sound }
      | discardTo cursor =>
          exact { holds with pcm := sound, start_eq := passed_discardTo.symm }
      | _ => exact discards.elim
  | mutes access =>
      have sound := Channel.sound_reader holds.mutes permitted
      cases access with
      | snapshotWritten => exact { holds with mutes := sound }
      | discardTo cursor =>
          exact { holds with mutes := sound, records_eq := passed_discardTo.symm }
      | _ => exact discards.elim
  | _ => exact discards.elim

theorem safe_complete {said : ConsumerState F S W → Rendered F → Prop}
    {noted : ConsumerState F S W → Ring F S W → Prop}
    (answers : Answers adapter geometry inv said noted) {boundary : Finite} {failed : Bool}
    {ended : ConsumerState F S W} (finite : Option Finite)
    (endedEq : ended = { state with finite := finite })
    (accounts : Accounts geometry slack state ring) (holds : inv state ring) :
    (completeFinite adapter geometry boundary failed ended).Safe (exec geometry)
      (ProducerMoves geometry shape) (RetireGuar noted)
      (fun rendered exit => inv exit.consumer exit ∧ said exit.consumer rendered) ring := by
  have side : ConsumerSide geometry True shape
    (ProducerMoves (F := F) (S := S) (W := W) geometry shape) (RetireGuar noted) := retireSide
  refine side.safe_completeFinite completedSteady completedSteady completedSteady ?_
    (fun _ => completed_discards) (fun _ => clears_of_discards completedSteady
      completed_discards) ?_ ?_ ?_
  · intro first firstMoves
    refine ⟨?_, fun second secondMoves => ?_⟩
    · intro retired same
      cases same
      rw [endedEq]
      exact answers.retire finite (accounts.stable firstMoves)
        (keeps.published accounts firstMoves holds)
    have retired : Accounts geometry slack state (effect geometry (.retire ended) first) :=
      { accounts.stable firstMoves with }
    have later := retired.stable secondMoves
    exact ⟨retireGuar_of_other (by simp),
      ⟨later.pcm, later.mutes, rfl, rfl, rfl⟩⟩
  · exact fun _ _ current completed => ⟨retireGuar_of_other (by simp), { completed with }⟩
  · exact fun _ current completed => ⟨retireGuar_of_other (by simp), { completed with }⟩
  · intro current errored _ completed after moves
    have resetEq : ended.reset adapter = state.reset adapter := by rw [endedEq]; rfl
    rw [resetEq] at moves
    exact ⟨keeps.leftReset holds completed moves, answers.silent _ errored⟩

theorem safe_drain {said : ConsumerState F S W → Rendered F → Prop}
    {noted : ConsumerState F S W → Ring F S W → Prop}
    (answers : Answers adapter geometry inv said noted)
    {boundary : Finite} (accounts : Accounts geometry 0 state ring)
    (finiteEq : state.finite = some boundary) (holds : inv state ring) :
    (drainFinite adapter geometry boundary state).Safe (exec geometry)
      (ProducerMoves geometry shape) (RetireGuar noted)
      (fun rendered exit => inv exit.consumer exit ∧ said exit.consumer rendered) ring := by
  have side : ConsumerSide geometry True shape
    (ProducerMoves (F := F) (S := S) (W := W) geometry shape) (RetireGuar noted) := retireSide
  have steady : Steady geometry (ProducerMoves geometry shape) fun ring =>
      (Accounts geometry 0 (state.release geometry boundary).2 ring ∧ True) ∧
        inv (state.release geometry boundary).2 ring :=
    keeps.steady (Accounts.steady True) fun _ holds => holds.1
  refine side.safe_drainFinite steady ?_ (fun _ _ _ => retireGuar_of_other (by simp)) ?_ ?_
  · intro remaining current moves
    have later := accounts.stable moves
    exact ⟨⟨later.release finiteEq remaining, trivial⟩,
      keeps.same (sameQueues_of_notes .release trivial current)
        (keeps.release later finiteEq remaining (keeps.published accounts moves holds))⟩
  · intro remaining current currentHolds after moves
    refine ⟨keeps.left currentHolds.1.1 currentHolds.2 moves, ?_⟩
    rw [moves.consumer_eq]
    exact answers.release accounts finiteEq remaining holds
  · intro _
    exact keeps.safe_complete answers _ rfl accounts holds

theorem renderSteps {said : ConsumerState F S W → Rendered F → Prop}
    {noted : ConsumerState F S W → Ring F S W → Prop}
    (answers : Answers adapter geometry inv said noted) :
    RenderSteps adapter geometry (ProducerMoves geometry shape) (RetireGuar noted)
      (fun rendered exit => inv exit.consumer exit ∧ said exit.consumer rendered)
      (fun state ring => Awake geometry state ring ∧ inv state ring) (outline geometry inv set) := by
  have side : ConsumerSide geometry True shape
    (ProducerMoves (F := F) (S := S) (W := W) geometry shape) (RetireGuar noted) := retireSide
  have awakeSteady (state : ConsumerState F S W) : Steady geometry
      (ProducerMoves geometry shape) fun ring => Awake geometry state ring ∧ inv state ring :=
    keeps.steady (Accounts.steady _) fun _ holds => holds.1
  have refilledSteady (result : RefillResult) (state : ConsumerState F S W) :
      Steady geometry (ProducerMoves geometry shape) ((outline geometry inv set).refilled result
        state) := keeps.refillSteps.refilledSteady result state
  exact
    { toRefillSteps := keeps.refillSteps
      awakeSteady := awakeSteady
      start := fun state ring holds _ _ converting => ⟨⟨holds.1.1, converting⟩, holds.2⟩
      again := fun state ring holds _ => ⟨⟨holds.1.1, holds.1.2.1⟩, holds.2⟩
      wake := fun state ring holds =>
        ⟨⟨{ holds.1.1 with awake := fun _ => rfl }, holds.1.2⟩, keeps.flags _ _ holds.2⟩
      prime := fun state ring holds _ =>
        ⟨fun _ _ _ _ _ => ⟨⟨{ holds.1.1 with }, holds.1.2⟩, keeps.flags _ _ holds.2⟩,
          fun _ => ⟨⟨{ holds.1.1 with }, holds.1.2⟩, keeps.flags _ _ holds.2⟩⟩
      fault := fun state ring holds _ =>
        side.safe_reportFault (awakeSteady state) holds fun _ current _ moves =>
          ⟨keeps.left current.1.1 current.2 moves, answers.silent _ true⟩
      refilledFault := fun result state ring holds _ _ =>
        side.safe_reportFault (refilledSteady result state) holds fun _ current _ moves =>
          ⟨keeps.left current.1.1 current.2 moves, answers.silent _ true⟩
      idle := fun state early ring holds moves _ _ _ =>
        side.safe_leave (awakeSteady state) ((awakeSteady state).stable moves holds)
          fun _ current _ later =>
            ⟨keeps.left current.1.1 current.2 later, answers.silent _ _⟩
      unprimed := fun state early ring holds moves _ _ _ _ =>
        side.safe_leave (awakeSteady state) ((awakeSteady state).stable moves holds)
          fun _ current _ later =>
            ⟨keeps.left current.1.1 current.2 later, answers.silent _ _⟩
      drain := fun state boundary ring holds _ finiteEq _ =>
        keeps.safe_drain answers holds.1.1 finiteEq holds.2
      past := fun state boundary ring holds finiteEq _ =>
        keeps.safe_drain answers holds.1.1 finiteEq holds.2
      fail := fun result state boundary ring holds _ _ =>
        keeps.safe_complete answers state.finite rfl holds.1.1 holds.2
      emit := fun result state ring holds emits => by
        refine side.safe_emit (refilledSteady result state) (refilledSteady result state) holds
          (fun _ _ _ => retireGuar_of_other (by simp)) ?_ (fun _ current _ => current)
          (fun _ _ _ => retireGuar_of_other (by simp)) ?_
        · intro current currentHolds _
          exact ⟨⟨{ currentHolds.1.1 with }, currentHolds.1.2⟩,
            keeps.same (sameQueues_of_notes (.feed _) trivial _) currentHolds.2⟩
        · intro current currentHolds after moves
          obtain ⟨⟨accounts, -, cached⟩, inside⟩ := currentHolds
          refine ⟨keeps.left (accounts.emission cached) (keeps.emit accounts cached emits inside)
            moves, ?_⟩
          rw [moves.consumer_eq]
          exact answers.emit accounts cached emits inside }

/-- The walk of the invariant through the start of a render. -/
theorem drainSteps : DrainSteps geometry (ProducerMoves geometry shape)
    (fun state ring => Awake geometry state ring ∧ inv state ring)
    (fun _ state ring => Awake geometry state ring ∧ inv state ring)
    (fun state ring => Awake geometry state ring ∧ inv state ring) := by
  have base : DrainSteps geometry (ProducerMoves geometry shape) (Awake geometry)
    (fun _ => Awake geometry) (Awake (F := F) (S := S) (W := W) geometry) := drainStart
  have steady (state : ConsumerState F S W) : Steady geometry
      (ProducerMoves geometry shape) fun ring => Awake geometry state ring ∧ inv state ring :=
    keeps.steady (Accounts.steady _) fun _ holds => holds.1
  exact
    { startedSteady := steady
      drainingSteady := fun _ => steady
      capture := fun state ring holds pending streaming =>
        ⟨base.capture state ring holds.1 pending streaming,
          keeps.capture holds.1.1 pending streaming holds.2⟩
      uncaptured := fun state ring holds _ => holds
      receive := fun limit state ring interval rest holds unreadEq =>
        ⟨base.receive limit state ring interval rest holds.1 unreadEq,
          keeps.receive holds.1.1 unreadEq holds.2⟩
      emptied := fun _ state ring holds _ => holds
      bounded := fun state ring holds => holds }

theorem safe_render {said : ConsumerState F S W → Rendered F → Prop}
    {noted : ConsumerState F S W → Ring F S W → Prop}
    (answers : Answers adapter geometry inv said noted)
    (awake : DrainInv geometry ring) (holds : inv ring.consumer ring) :
    (consumerRenderSample adapter geometry).Safe (exec geometry) (ProducerMoves geometry shape)
      (RetireGuar noted)
      (fun rendered exit => inv exit.consumer exit ∧ said exit.consumer rendered) ring := by
  have side : ConsumerSide geometry True shape
    (ProducerMoves (F := F) (S := S) (W := W) geometry shape) (RetireGuar noted) := retireSide
  exact safe_consumerRenderSample side keeps.drainSteps (keeps.renderSteps answers)
    ⟨awake, holds⟩

theorem safe_reset (noted : ConsumerState F S W → Ring F S W → Prop)
    (awake : DrainInv geometry ring) (holds : inv ring.consumer ring) :
    (consumerReset adapter).Safe (exec geometry) (ProducerMoves geometry shape)
      (RetireGuar noted) (fun _ exit => inv exit.consumer exit) ring := by
  have side : ConsumerSide geometry True shape
    (ProducerMoves (F := F) (S := S) (W := W) geometry shape) (RetireGuar noted) := retireSide
  refine side.safe_reset awake.1.pcm awake.1.mutes (fun _ => retireGuar_of_other (by simp))
    (fun _ _ => retireGuar_of_other (by simp)) ?_
  intro current completed after moves
  exact keeps.leftReset holds completed moves

end SteeredInvariant

section Runs

variable {adapter : Adapter F W S} {geometry : Geometry}
  {inv set noted : ConsumerState F S W → Ring F S W → Prop}
  {said : ConsumerState F S W → Rendered F → Prop}
  (allowed : (party : Party) → party.Call F → Prop)

/-- The accounts and a kept predicate, as the consumer's half of an outline. -/
def invariantSpec (keeps : SteeredInvariant adapter geometry (SingleLine none) inv set)
    (answers : SteeredInvariant.Answers adapter geometry inv said noted) :
    ConsumerSpec adapter geometry True none allowed where
  inv ring := DrainInv geometry ring ∧ inv ring.consumer ring
  guar op ring := DrainGuar adapter geometry True op ring ∧
    SteeredInvariant.RetireGuar noted op ring
  post call _ result exit := (DrainInv geometry exit ∧ inv exit.consumer exit) ∧
    allowed .consumer call ∧
    (call = .render → ∃ rendered, result = .rendered rendered ∧ said exit.consumer rendered)
  permits promised := promised.1.1
  stable moves holds := ⟨holds.1.stable moves, keeps.carried moves holds⟩
  safe call ring admitted holds := by
    have order : Program.Preordered (ProducerMoves (F := F) (S := S) (W := W) geometry
        (SingleLine none)) := ⟨.refl, .trans⟩
    cases call with
    | render =>
        refine Program.Safe.bind order (Program.Safe.mono (fun rendered exit ends last moves => ?_)
          ((safe_consumerRenderSample drainSide drainStart drainRender holds.1).and
            (keeps.safe_render answers holds.1 holds.2)))
        have left := And.intro (ends.1.stable moves) (keeps.carried moves ⟨ends.1, ends.2.1⟩)
        refine ⟨left, left, admitted, fun _ => ⟨rendered, rfl, ?_⟩⟩
        rw [moves.consumer_eq]
        exact ends.2.2
    | reset =>
        refine Program.Safe.bind order (Program.Safe.mono (fun succeeded exit ends last moves => ?_)
          ((safe_resetDrain trivial holds.1).and (keeps.safe_reset noted holds.1 holds.2)))
        have left := And.intro (ends.1.stable moves) (keeps.carried moves ends)
        exact ⟨left, left, admitted, fun other => by cases other⟩

variable {allowed}

theorem invariant_holds (keeps : SteeredInvariant adapter geometry (SingleLine none) inv set)
    (answers : SteeredInvariant.Answers adapter geometry inv said noted) {settings : Settings}
    {ring : Ring F S W} (created : Ring.create adapter settings = .ok (geometry, ring))
    (start : inv ring.consumer ring) {config : RingConfig F S W}
    (reached : Reachable (body adapter geometry) (exec geometry) allowed ring config)
    (party : Party) : ((invariantSpec allowed keeps answers).outline
      fun call _ => uniform_none call).Holds config party := by
  have positive : 0 < geometry.capacity :=
    Nat.lt_of_lt_of_le (by decide) (create_capacity created)
  obtain ⟨-, outputDelay, delay, converter, -, initial⟩ := create_cases created
  exact (invariantSpec allowed keeps answers).holds (fun call _ => uniform_none call) positive
    initial ⟨initial ▸ drainInv_initial positive, start⟩ reached party

theorem invariant_of_idle (keeps : SteeredInvariant adapter geometry (SingleLine none) inv set)
    {settings : Settings} {ring : Ring F S W}
    (created : Ring.create adapter settings = .ok (geometry, ring))
    (start : inv ring.consumer ring) {config : RingConfig F S W}
    (reached : Reachable (body adapter geometry) (exec geometry) allowed ring config)
    (idle : config.thread .consumer = .idle) :
    DrainInv geometry config.memory ∧ inv config.memory.consumer config.memory :=
  Outline.inv_of_idle _ (invariant_holds keeps .any created start reached .consumer) idle

end Runs

end PcmRing
