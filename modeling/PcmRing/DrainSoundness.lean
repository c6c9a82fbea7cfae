import PcmRing.SourceAccounts
import PcmRing.RenderExits
import PcmRing.RingOutline

/-!
# A drained boundary is exhausted

At the step that stores a `Drained` word the FIFO is empty, everything accepted
since the last stream reset went through the converter, no cached output before
the boundary is left, and the lookahead and the converter are reset, whatever
the converter answered on the way.
-/

namespace PcmRing

open AtomicProgram TwoLapQueue

variable {F S W : Type}

/-- The source position of a cached output. -/
def ConsumerState.mappedPosition (state : ConsumerState F S W) (index : Nat) : Int :=
  state.cacheStart + ((state.cacheEnd - state.cacheStart) * index).tdiv state.cacheCount

/-- The boundary of a retired consumer left nothing of its burst behind;
`accepted` counts the slots the ring has accepted. -/
structure Retired.Exhausted [Binary32 F] [Binary64 W] (adapter : Adapter F W S)
    (geometry : Geometry) (accepted : Nat) (boundary : Finite) (retired : Retired F S W) :
    Prop where
  accepted_eq : retired.state.sourceAccepted = retired.state.sourceTaken
  accepted_le : retired.start + retired.state.sourceAccepted ≤ accepted
  /-- Only slots whose drop a render reported are missing. -/
  dropped_le : accepted ≤ retired.start + retired.state.sourceAccepted + retired.errors
  stop_eq : boundary.stop = retired.state.sourceTaken
  rendered : boundary.stop ≠ 0 → ∀ index, retired.state.outputOffset ≤ index →
    index < retired.state.outputOffset + retired.state.outputPending →
    (boundary.stop : Int) * frameUnit ≤ retired.state.mappedPosition index
  released_eq : retired.released = geometry.lookahead
  reset_eq : (retired.state.reset adapter).1 = true

/-- What a `Drained` word means at the step that stores it. -/
structure DrainedSound [Binary32 F] [Binary64 W] (adapter : Adapter F W S)
    (geometry : Geometry) (word : Nat) (ring : Ring F S W) : Prop where
  empty : ring.pcm.unread geometry.capacity = []
  retired : ∃ retired boundary, ring.ledger.retired = some retired ∧
    retired.state.finite = some boundary ∧ boundary.token = word / 4 ∧
    retired.Exhausted adapter geometry ring.pcm.published.length boundary

/-- What the consumer promises about its accesses. -/
def DrainGuar [Binary32 F] [Binary64 W] (adapter : Adapter F W S) (geometry : Geometry)
    (resets : Prop) (op : Access F S W) (ring : Ring F S W) : Prop :=
  ConsumerPermits geometry resets op ring ∧
    ∀ word, op = .storeFinish word → word % 4 = 1 → DrainedSound adapter geometry word ring

/-- A boundary only starts to release its lookahead once its end is reached. -/
def Awake (geometry : Geometry) (state : ConsumerState F S W) (ring : Ring F S W) : Prop :=
  Accounts geometry 0 state ring ∧ ∀ boundary ∈ state.finite, boundary.plcRemaining.isSome →
    boundary.stop = 0 ∨ state.PastBoundary ∧ state.outputPending ≠ 0

variable {geometry : Geometry} {resets : Prop} {slack : Nat}
  {state : ConsumerState F S W} {ring : Ring F S W}
  {shape : List (SourceSample F) → List SlotNote → Prop}

theorem Accounts.steady (fact : Prop) : Steady geometry (ProducerMoves geometry shape)
    fun ring => Accounts geometry slack state ring ∧ fact where
  stable moves holds := ⟨holds.1.stable moves, holds.2⟩
  pcm _ holds := holds.1.pcm
  mutes _ holds := holds.1.mutes
  counter _ _ _ holds _ := ⟨{ holds.1 with }, holds.2⟩
  correction _ _ holds := ⟨{ holds.1 with }, holds.2⟩

theorem mappedPosition_mono (order : state.cacheStart ≤ state.cacheEnd)
    (positive : 0 < state.cacheCount) {first second : Nat} (le : first ≤ second) :
    state.mappedPosition first ≤ state.mappedPosition second := by
  have width : 0 ≤ state.cacheEnd - state.cacheStart := Int.sub_nonneg_of_le order
  unfold ConsumerState.mappedPosition
  rw [Int.tdiv_eq_ediv_of_nonneg (Int.mul_nonneg width (Int.natCast_nonneg _)),
    Int.tdiv_eq_ediv_of_nonneg (Int.mul_nonneg width (Int.natCast_nonneg _))]
  refine Int.add_le_add_left (Int.ediv_le_ediv (Int.ofNat_lt.mpr positive) ?_) _
  exact Int.mul_le_mul_of_nonneg_left (Int.ofNat_le.mpr le) width

theorem mappedPosition_le_cacheEnd (order : state.cacheStart ≤ state.cacheEnd) {index : Nat}
    (positive : 0 < state.cacheCount) (le : index ≤ state.cacheCount) :
    state.mappedPosition index ≤ state.cacheEnd := by
  have top : state.mappedPosition state.cacheCount = state.cacheEnd := by
    unfold ConsumerState.mappedPosition
    rw [Int.mul_tdiv_cancel _ (by omega)]
    omega
  exact top ▸ mappedPosition_mono order positive le

/-- A boundary whose end was reached is exhausted. -/
theorem Accounts.exhausted (accounts : Accounts geometry 0 state ring) {boundary : Finite}
    (finiteEq : state.finite = some boundary)
    (ends : boundary.stop = 0 ∨ state.PastBoundary ∧ state.outputPending ≠ 0) :
    ring.pcm.unread geometry.capacity = [] ∧ state.sourceAccepted = state.sourceTaken ∧
      boundary.stop = state.sourceTaken ∧
      (boundary.stop ≠ 0 → ∀ index, state.outputOffset ≤ index →
        index < state.outputOffset + state.outputPending →
        (boundary.stop : Int) * frameUnit ≤ state.mappedPosition index) := by
  obtain ⟨-, -, low, high⟩ := accounts.boundary boundary finiteEq
  rw [Nat.add_zero] at high
  have stopEq := Nat.le_antisymm high low
  suffices reached : boundary.stop ≤ state.converterAccepted ∧
      (boundary.stop ≠ 0 → ∀ index, state.outputOffset ≤ index →
        index < state.outputOffset + state.outputPending →
        (boundary.stop : Int) * frameUnit ≤ state.mappedPosition index) by
    cases padding : state.inputPadding with
    | true =>
        obtain ⟨accepted, -, empty⟩ := accounts.padded padding
        rw [empty, List.length_nil, Nat.add_zero] at stopEq
        exact ⟨empty, accepted, stopEq, reached.2⟩
    | false =>
        obtain ⟨sum, none⟩ := accounts.unpadded padding
        have bound := reached.1
        rw [ConsumerState.converterAccepted, none] at bound
        have nothing : (ring.pcm.unread geometry.capacity).length = 0 := by omega
        exact ⟨List.length_eq_zero_iff.mp nothing, by omega, by omega, reached.2⟩
  rcases ends with zero | ⟨past, pending⟩
  · exact ⟨by omega, fun positive => (positive zero).elim⟩
  · obtain ⟨boundary', member, position⟩ := past
    obtain rfl : boundary = boundary' := Option.some.inj (finiteEq.symm.trans member)
    obtain ⟨count, order, reach⟩ := accounts.cached pending
    have positive : 0 < state.cacheCount := by omega
    refine ⟨?_, fun _ index late _ =>
      Int.le_trans position (mappedPosition_mono order positive late)⟩
    have inside : state.cacheSourcePosition ≤ state.cacheEnd :=
      mappedPosition_le_cacheEnd order positive (by omega)
    have scaled := Int.le_trans position (Int.le_trans inside reach)
    exact Int.ofNat_le.mp (Int.le_of_mul_le_mul_right scaled (by decide))

theorem not_draining_of_finite {other : ConsumerState F S W} (finiteEq : other.finite = state.finite)
    (converting : ¬state.Draining) : ¬other.Draining := by
  rintro ⟨boundary, member, ends⟩
  exact converting ⟨boundary, finiteEq ▸ member, ends⟩

variable [Binary32 F] [Binary64 W] {adapter : Adapter F W S}

/-- The accounts in every phase of a refill. -/
def drainOutline (geometry : Geometry) : RefillOutline F S W where
  ready state ring := Accounts geometry 0 state ring ∧ ¬state.Draining
  filled state ring := (Accounts geometry 0 state ring ∧ ¬state.Draining) ∧
    (state.finite.isSome → 0 < state.inputPending ∨ state.inputPadding = true ∨
      ring.pcm.unread geometry.capacity = [])
  steered state ring := Accounts geometry 0 state ring ∧ ¬state.Draining
  refilled result state ring :=
    Accounts geometry (if result = .adapterError then 1 else 0) state ring ∧
      ¬state.Draining ∧ (result = .ready → state.outputPending ≠ 0)

omit [Binary32 F] [Binary64 W] in
private theorem filledSteady (state : ConsumerState F S W) : Steady geometry
    (ProducerMoves geometry shape) ((drainOutline geometry).filled state) where
  stable := by
    rintro before after moves ⟨ready, waiting⟩
    refine ⟨⟨ready.1.stable moves, ready.2⟩, fun pending => ?_⟩
    obtain ⟨boundary, member⟩ := Option.isSome_iff_exists.mp pending
    rw [moves.unread_fixed ready.1.pcm (ready.1.boundary boundary member).1]
    exact waiting pending
  pcm _ holds := holds.1.1.pcm
  mutes _ holds := holds.1.1.mutes
  counter _ _ _ holds _ := ⟨⟨{ holds.1.1 with }, holds.1.2⟩, holds.2⟩
  correction _ _ holds := ⟨⟨{ holds.1.1 with }, holds.1.2⟩, holds.2⟩

theorem drainRefill : RefillSteps adapter geometry (ProducerMoves geometry shape)
    (drainOutline geometry) where
  readySteady state := Accounts.steady _
  filledSteady := filledSteady
  steeredSteady state := Accounts.steady _
  refilledSteady result state := Accounts.steady _
  refused state ring holds failed :=
    ⟨holds.1.mono (Nat.zero_le _), holds.2, fun ready => by cases ready⟩
  cached state ring holds works pending := ⟨holds.1, holds.2, fun _ => pending⟩
  space state ring wanted holds refilling :=
    ⟨holds.1.makeInputSpace wanted, not_draining_of_finite
      (state.makeInputSpace_keeps wanted geometry.capacity).finite_eq holds.2⟩
  take state ring slot rest holds refilling unpadded _ unreadEq := by
    have accounts := holds.1.acceptSource unpadded unreadEq
    have converting := not_draining_of_finite
      (state.acceptSource_keeps geometry.gapCapacity slot).finite_eq holds.2
    refine ⟨fun kept => ⟨?_, converting⟩, fun dropped => ⟨?_, converting, ?_⟩⟩
    · rw [kept] at accounts
      exact accounts
    · rw [dropped] at accounts
      exact accounts
    · exact fun ready => by cases ready
  fill state ring holds refilling waiting := ⟨holds, fun _ => waiting⟩
  pad state ring holds refilling := by
    have keeps := state.padInput_keeps (min geometry.capacity converterQuantum)
    by_cases streaming : state.finite = none
    · have same : state.padInput (min geometry.capacity converterQuantum) = state := by
        unfold ConsumerState.padInput
        exact if_neg fun padding => by simp [streaming] at padding
      rw [same]
      exact holds
    · have pending := Option.isSome_iff_ne_none.mpr streaming
      refine ⟨⟨holds.1.1.padInput (holds.2 pending) _,
        not_draining_of_finite keeps.finite_eq holds.1.2⟩, fun _ => ?_⟩
      unfold ConsumerState.padInput
      split
      · exact .inr (.inl rfl)
      · exact holds.2 pending
  stalled state ring holds refilling empty streaming stuck :=
    ⟨holds.1.1, holds.1.2, fun ready => by cases ready⟩
  query state ring holds refilling :=
    ⟨fun _ => ⟨⟨{ holds.1.1 with }, holds.1.2⟩, holds.2⟩,
      fun _ => ⟨{ holds.1.1.mono (Nat.zero_le 1) with }, holds.1.2, fun ready => by cases ready⟩⟩
  steer state ring smoothed holds refilling streaming := ⟨{ holds.1.1 with }, holds.1.2⟩
  nominal state ring holds refilling unset := ⟨{ holds.1.1 with }, holds.1.2⟩
  keep state ring holds refilling set := holds.1
  convert state ring holds refilling := by
    have ran := state.convert_cases adapter geometry (min geometry.capacity converterQuantum)
    obtain ⟨accounts, cached⟩ := holds.1.converts refilling ran
    exact ⟨accounts.mono (Nat.zero_le _), not_draining_of_finite ran.keeps.1 holds.2, cached⟩

omit [Binary32 F] [Binary64 W] in
theorem Accounts.left {errored : Bool} (accounts : Accounts geometry slack state ring)
    (owed : slack ≤ if errored then 1 else 0)
    (settled : 0 < slack → state.finite = none) :
    Accounts geometry 0 state (effect geometry (.leave state errored) ring) := by
  refine
    { accounts with
      dropped_le := ?_, boundary := fun boundary member => ?_ }
  · have bound := accounts.dropped_le
    cases errored with
    | true =>
        change ring.pcm.passed.length ≤
          ring.ledger.streamStart + state.sourceTaken + (ring.ledger.errors + 1) + 0
        have owed : slack ≤ 1 := owed
        omega
    | false =>
        change ring.pcm.passed.length ≤
          ring.ledger.streamStart + state.sourceTaken + ring.ledger.errors + 0
        have owed : slack ≤ 0 := owed
        omega
  · have none : slack = 0 := by
      by_contra some
      rw [settled (Nat.pos_of_ne_zero some)] at member
      cases member
    rw [none] at accounts
    exact accounts.boundary boundary member

/-- The consumer's invariant between its calls. -/
def DrainInv (geometry : Geometry) (ring : Ring F S W) : Prop :=
  Awake geometry ring.consumer ring

omit [Binary32 F] [Binary64 W] in
theorem DrainInv.stable {after : Ring F S W} (holds : DrainInv geometry ring)
    (moves : ProducerMoves geometry shape ring after) : DrainInv geometry after := by
  unfold DrainInv
  rw [moves.consumer_eq]
  exact ⟨holds.1.stable moves, holds.2⟩

/-- The memory once a boundary is being completed. -/
structure Completing (adapter : Adapter F W S) (geometry : Geometry) (token : Nat)
    (drained : Prop) (ring : Ring F S W) : Prop where
  pcm : ring.pcm.Sound geometry.capacity
  mutes : ring.mutes.Sound mailboxQueue
  pending : FinishPending ring.finish
  token_eq : token = ring.finish / 4
  start_eq : ring.ledger.streamStart = ring.pcm.passed.length
  released_eq : ring.ledger.released = 0
  records_eq : ring.ledger.recordsStart = ring.mutes.passed.length
  sound : drained → DrainedSound adapter geometry (token * 4 + FinishStatus.drained.bits) ring

/-- The memory once a boundary is completed. -/
structure Completed (geometry : Geometry) (ring : Ring F S W) : Prop where
  pcm : ring.pcm.Sound geometry.capacity
  mutes : ring.mutes.Sound mailboxQueue
  start_eq : ring.ledger.streamStart = ring.pcm.passed.length
  released_eq : ring.ledger.released = 0
  records_eq : ring.ledger.recordsStart = ring.mutes.passed.length

theorem DrainedSound.stable {word : Nat} {after : Ring F S W}
    (sound : DrainedSound adapter geometry word ring)
    (channel : ring.pcm.Sound geometry.capacity) (pending : FinishPending ring.finish)
    (moves : ProducerMoves geometry shape ring after) :
    DrainedSound adapter geometry word after where
  empty := (moves.unread_fixed channel pending).trans sound.empty
  retired := by
    rw [moves.retired_eq, moves.published_fixed pending]
    exact sound.retired

theorem completingSteady (adapter : Adapter F W S) (token : Nat) (drained : Prop) :
    Steady geometry (ProducerMoves geometry shape)
      (Completing (F := F) adapter geometry token drained) where
  stable moves holds :=
    { pcm := (moves.pcm holds.pcm).1
      mutes := (moves.mutes holds.mutes).1
      pending := (moves.finish holds.pending).symm ▸ holds.pending
      token_eq := (moves.finish holds.pending).symm ▸ holds.token_eq
      start_eq := by
        rw [moves.streamStart_eq, moves.passed_eq holds.pcm]
        exact holds.start_eq
      released_eq := moves.released_eq.trans holds.released_eq
      records_eq := by
        rw [moves.recordsStart_eq, (moves.mutes holds.mutes).2.passed_eq]
        exact holds.records_eq
      sound := fun drained => (holds.sound drained).stable holds.pcm holds.pending moves }
  pcm _ holds := holds.pcm
  mutes _ holds := holds.mutes
  counter _ _ _ holds _ := { holds with sound := fun drained => { holds.sound drained with } }
  correction _ _ holds := { holds with sound := fun drained => { holds.sound drained with } }

omit [Binary32 F] [Binary64 W] in
theorem completedSteady : Steady geometry (ProducerMoves geometry shape)
    (Completed (F := F) (S := S) (W := W) geometry) where
  stable moves holds :=
    { pcm := (moves.pcm holds.pcm).1
      mutes := (moves.mutes holds.mutes).1
      start_eq := by
        rw [moves.streamStart_eq, moves.passed_eq holds.pcm]
        exact holds.start_eq
      released_eq := moves.released_eq.trans holds.released_eq
      records_eq := by
        rw [moves.recordsStart_eq, (moves.mutes holds.mutes).2.passed_eq]
        exact holds.records_eq }
  pcm _ holds := holds.pcm
  mutes _ holds := holds.mutes
  counter _ _ _ holds _ := { holds with }
  correction _ _ holds := { holds with }

theorem Completed.drainInv {errored quiet : Bool} (holds : Completed geometry ring) :
    DrainInv geometry (effect geometry
      (.leave { (state.reset adapter).2 with quiet := quiet } errored) ring) where
  left :=
    { pcm := holds.pcm
      mutes := holds.mutes
      taken_le := Nat.le_of_eq holds.start_eq
      dropped_le := by
        change ring.pcm.passed.length ≤ ring.ledger.streamStart + 0 + _ + 0
        rw [holds.start_eq]
        omega
      unpadded := fun _ => ⟨rfl, rfl⟩
      padded := fun padding => Bool.noConfusion padding
      cached := fun pending => (pending rfl).elim
      boundary := fun boundary member => by cases member
      released := by
        change ring.ledger.released + geometry.lookahead = _
        rw [holds.released_eq, Nat.zero_add]
      awake := fun pending => by cases pending }
  right boundary member := by cases member

/-- The post of a render: the invariant of the next call. -/
abbrev DrainPost (geometry : Geometry) (_ : Rendered F) (ring : Ring F S W) : Prop :=
  DrainInv geometry ring

theorem drainGuar_plain {op : Access F S W} (permitted : ConsumerPermits geometry resets op ring)
    (plain : op.Plain) : DrainGuar adapter geometry resets op ring :=
  ⟨permitted, fun word same => by rw [same] at plain; exact plain.elim⟩

theorem drainSide : ConsumerSide geometry resets shape
    (ProducerMoves (F := F) (S := S) (W := W) geometry shape) (DrainGuar adapter geometry resets) where
  order := ⟨.refl, .trans⟩
  moves := id
  permits _ _ := drainGuar_plain

omit [Binary32 F] [Binary64 W] in
theorem Awake.leave {errored : Bool} (holds : Awake geometry state ring) :
    DrainInv geometry (effect geometry (.leave state errored) ring) :=
  ⟨holds.1.left (Nat.zero_le _) fun positive => (Nat.lt_irrefl 0 positive).elim, holds.2⟩

theorem Accounts.drainedSound {first : Ring F S W} {boundary : Finite}
    (accounts : Accounts geometry 0 state ring) (finiteEq : state.finite = some boundary)
    (remaining : boundary.plcRemaining = some 0)
    (ends : boundary.stop = 0 ∨ state.PastBoundary ∧ state.outputPending ≠ 0)
    (works : (state.reset adapter).1 = true)
    (moves : ProducerMoves geometry shape (effect geometry (.retire state) first) ring) :
    DrainedSound adapter geometry (boundary.token * 4 + FinishStatus.drained.bits)
      (effect geometry .fetchAddResetSerial ring) := by
  obtain ⟨empty, acceptedEq, stopEq, rendered⟩ := accounts.exhausted finiteEq ends
  have startEq : ring.ledger.streamStart = first.ledger.streamStart := moves.streamStart_eq
  have errorsEq : ring.ledger.errors = first.ledger.errors := moves.errors_eq
  have releasedEq : ring.ledger.released = first.ledger.released := moves.released_eq
  have publishedEq : ring.pcm.published.length = ring.pcm.passed.length := by
    rw [accounts.pcm.published_eq, empty, List.append_nil]
  have taken := accounts.taken_le
  have dropped := accounts.dropped_le
  refine ⟨empty, ⟨state, first.ledger.streamStart, first.ledger.errors, first.ledger.released⟩,
    boundary, moves.retired_eq, finiteEq, ?_, ?_⟩
  · simp only [FinishStatus.bits]
    omega
  · refine
      { accepted_eq := acceptedEq, accepted_le := ?_, dropped_le := ?_, stop_eq := stopEq
        rendered := rendered, released_eq := ?_, reset_eq := works }
    · change first.ledger.streamStart + state.sourceAccepted ≤ ring.pcm.published.length
      omega
    · change ring.pcm.published.length ≤
        first.ledger.streamStart + state.sourceAccepted + first.ledger.errors
      omega
    · have released := accounts.released
      rw [finiteEq, Option.bind_some, remaining, Option.getD_some, Nat.add_zero, releasedEq]
        at released
      exact released

omit [Binary32 F] [Binary64 W] in
/-- Dropping unread values moves the start of the stream behind them. -/
theorem passed_discardTo {α : Type} {channel : Channel α} {capacity cursor : Nat} :
    (channel.exec capacity (.discardTo cursor)).2.passed.length =
      channel.passed.length + distance capacity cursor channel.queue.read := by
  simp [Channel.exec, Channel.passed, Consumption.cells]

theorem Completing.discards {token : Nat} {drained : Prop} (failed : ¬drained)
    (op : Access F S W) (holds : Completing adapter geometry token drained ring)
    (permitted : ConsumerPermits geometry resets op ring) (discards : op.Discards) :
    Completing adapter geometry token drained (effect geometry op ring) := by
  cases op with
  | pcm access =>
      have sound := Channel.sound_reader holds.pcm permitted
      cases access with
      | snapshotWritten =>
          exact { holds with pcm := sound, sound := fun drained => (failed drained).elim }
      | discardTo cursor =>
          exact { holds with
            pcm := sound
            start_eq := passed_discardTo.symm
            sound := fun drained => (failed drained).elim }
      | _ => exact discards.elim
  | mutes access =>
      have sound := Channel.sound_reader holds.mutes permitted
      cases access with
      | snapshotWritten =>
          exact { holds with mutes := sound, sound := fun drained => (failed drained).elim }
      | discardTo cursor =>
          exact { holds with
            mutes := sound
            records_eq := passed_discardTo.symm
            sound := fun drained => (failed drained).elim }
      | _ => exact discards.elim
  | _ => exact discards.elim

/-- Completing a boundary stores `Drained` only when it is exhausted. -/
theorem safe_completeDrain {boundary : Finite} {adapterFailed : Bool}
    (accounts : Accounts geometry slack state ring) (finiteEq : state.finite = some boundary)
    (exhausted : adapterFailed = false → slack = 0 ∧ boundary.plcRemaining = some 0 ∧
      (boundary.stop = 0 ∨ state.PastBoundary ∧ state.outputPending ≠ 0)) :
    (completeFinite adapter geometry boundary adapterFailed state).Safe (exec geometry)
      (ProducerMoves geometry shape) (DrainGuar adapter geometry resets) (DrainPost geometry) ring := by
  have permitted {current : Ring F S W} {status : FinishStatus} {drained : Prop}
      (settled : status ≠ .pending)
      (holds : Completing adapter geometry boundary.token drained current) :
      ConsumerPermits geometry resets (.storeFinish (boundary.token * 4 + status.bits)) current := by
    refine ⟨holds.pending, ?_, ?_⟩ <;> rw [holds.token_eq] <;> cases status <;>
      simp only [FinishStatus.bits] <;> first | omega | exact (settled rfl).elim
  have steady : Steady geometry (ProducerMoves geometry shape)
      (Completing (F := F) adapter geometry boundary.token
        ((state.reset adapter).1 = true ∧ adapterFailed = false)) :=
    completingSteady adapter boundary.token _
  have discards (cause : (state.reset adapter).1 = false ∨ adapterFailed = true) :
      ∀ op current, Completing adapter geometry boundary.token
        ((state.reset adapter).1 = true ∧ adapterFailed = false) current →
      ConsumerPermits geometry resets op current → op.Discards →
      Completing adapter geometry boundary.token
        ((state.reset adapter).1 = true ∧ adapterFailed = false) (effect geometry op current) := by
    intro op current holds discarding discards
    refine holds.discards ?_ op discarding discards
    rintro ⟨works, succeeded⟩
    rcases cause with fails | fails
    · exact Bool.noConfusion (fails.symm.trans works)
    · exact Bool.noConfusion (fails.symm.trans succeeded)
  refine drainSide.safe_completeFinite steady steady completedSteady ?_ discards
    (fun cause => clears_of_discards steady (discards cause)) ?_ ?_ ?_
  · intro first firstMoves
    refine ⟨⟨trivial, fun word same => by cases same⟩, fun second secondMoves => ?_⟩
    have retired : Accounts geometry slack state (effect geometry (.retire state) first) :=
      { accounts.stable firstMoves with }
    have holds := retired.stable secondMoves
    obtain ⟨pending, tokenEq, -⟩ := holds.boundary boundary finiteEq
    refine ⟨⟨.inr pending, fun word same => by cases same⟩,
      { pcm := holds.pcm, mutes := holds.mutes, pending := pending, token_eq := tokenEq
        start_eq := rfl, released_eq := rfl, records_eq := rfl, sound := ?_ }⟩
    rintro ⟨works, succeeded⟩
    obtain ⟨rfl, remaining, ends⟩ := exhausted succeeded
    exact holds.drainedSound finiteEq remaining ends works secondMoves
  · intro works succeeded current holds
    refine ⟨⟨permitted (by decide) holds, fun word same _ => ?_⟩, { holds with }⟩
    cases same
    exact holds.sound ⟨works, succeeded⟩
  · intro cause current holds
    refine ⟨⟨permitted (by decide) holds, fun word same drained => ?_⟩, { holds with }⟩
    cases same
    simp only [FinishStatus.bits] at drained
    omega
  · intro current errored _ holds after moves
    exact holds.drainInv.stable moves

omit [Binary64 W] in
/-- Releasing one lookahead sample leaves everything but the count alone. -/
theorem release_cases (geometry : Geometry) (state : ConsumerState F S W)
    (boundary : Finite) : ∃ plc,
    (state.release geometry boundary).2 = ({ state with
      finite := some ⟨boundary.token, boundary.stop,
        some (ConsumerState.remainingLookahead geometry.lookahead boundary - 1)⟩
      plcPosition := (state.plcPosition + 1) % geometry.lookahead
      plc := plc }).retirePosition (state.plcPositions state.plcPosition) := by
  unfold ConsumerState.release ConsumerState.drainLookahead
  cases plcEq : state.plc with
  | none => exact ⟨none, by simp⟩
  | some plc => exact ⟨_, rfl⟩

omit [Binary64 W] in
theorem Accounts.release {boundary : Finite} (accounts : Accounts geometry 0 state ring)
    (finiteEq : state.finite = some boundary)
    (remaining : ConsumerState.remainingLookahead geometry.lookahead boundary ≠ 0) :
    Accounts geometry 0 (state.release geometry boundary).2 (effect geometry .release ring) := by
  have released := accounts.released
  rw [finiteEq, Option.bind_some] at released
  obtain ⟨plc, releaseEq⟩ := release_cases geometry state boundary
  rw [releaseEq]
  refine
    { accounts with
      padded := fun padding => ?_, boundary := fun other member => ?_, released := ?_
      awake := fun _ => accounts.awake (Option.isSome_of_eq_some finiteEq) }
  · obtain ⟨accepted, -, empty⟩ := accounts.padded padding
    exact ⟨accepted, rfl, empty⟩
  · obtain rfl := Option.some.inj member
    exact accounts.boundary boundary finiteEq
  · change ring.ledger.released + 1 + _ = _
    unfold ConsumerState.remainingLookahead at remaining
    simp only [ConsumerState.retirePosition, Option.bind_some, Option.getD_some,
      ConsumerState.remainingLookahead]
    omega

theorem safe_drainDrain {boundary : Finite} (accounts : Accounts geometry 0 state ring)
    (finiteEq : state.finite = some boundary)
    (ends : boundary.stop = 0 ∨ state.PastBoundary ∧ state.outputPending ≠ 0) :
    (drainFinite adapter geometry boundary state).Safe (exec geometry)
      (ProducerMoves geometry shape) (DrainGuar adapter geometry resets) (DrainPost geometry) ring := by
  have releasedEq := accounts.released
  rw [finiteEq, Option.bind_some] at releasedEq
  have steady : Steady geometry (ProducerMoves geometry shape) fun ring : Ring F S W =>
      Accounts geometry 0 (state.release geometry boundary).2 ring ∧ True := Accounts.steady True
  refine drainSide.safe_drainFinite steady ?_ ?_ ?_ ?_
  · exact fun remaining current moves =>
      ⟨(accounts.stable moves).release finiteEq remaining, trivial⟩
  · intro position current _
    exact ⟨trivial, fun word same => by cases same⟩
  · intro remaining current holds after moves
    refine DrainInv.stable ?_ moves
    refine Awake.leave ⟨holds.1, fun other member _ => ?_⟩
    obtain ⟨plc, releaseEq⟩ := release_cases geometry state boundary
    rw [releaseEq] at member ⊢
    obtain rfl := Option.some.inj member
    refine ends.imp id fun ⟨past, pending⟩ => ⟨?_, pending⟩
    obtain ⟨boundary', member', position⟩ := past
    obtain rfl : boundary = boundary' := Option.some.inj (finiteEq.symm.trans member')
    exact ⟨_, rfl, position⟩
  · intro none
    have settled : Accounts geometry 0 { state with
        finite := some { boundary with plcRemaining := some 0 } } ring := by
      refine
        { accounts with
          padded := fun padding => ?_, boundary := fun other member => ?_, released := ?_
          awake := fun _ => accounts.awake (Option.isSome_of_eq_some finiteEq) }
      · obtain ⟨accepted, -, empty⟩ := accounts.padded padding
        exact ⟨accepted, rfl, empty⟩
      · obtain rfl := Option.some.inj member
        exact accounts.boundary boundary finiteEq
      · unfold ConsumerState.remainingLookahead at none
        rw [none] at releasedEq
        exact releasedEq
    refine safe_completeDrain settled rfl fun _ => ⟨rfl, rfl, ?_⟩
    · refine ends.imp id fun ⟨past, pending⟩ => ⟨?_, pending⟩
      obtain ⟨boundary', member', position⟩ := past
      obtain rfl : boundary = boundary' := Option.some.inj (finiteEq.symm.trans member')
      exact ⟨_, rfl, position⟩

end PcmRing
