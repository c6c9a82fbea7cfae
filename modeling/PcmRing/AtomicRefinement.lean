import PcmRing.AtomicRing
import PcmRing.UninterruptedPrograms
import PcmRing.PrefixCredit
import PcmRing.FaultVisibility

/-!
# Uninterrupted calls refine the atomic ring

Each call of the ring, carried out access by access without interruption,
returns what the atomic ring returns and leaves the view it leaves.
-/

namespace PcmRing

open AtomicProgram TwoLapQueue

variable {F S W α β : Type} {geometry : Geometry}

/-- The program computes `spec` of what can be seen of a ring. -/
def Atomic (geometry : Geometry) (program : RingProgram F S W α)
    (spec : RingView F S W → α × RingView F S W) : Prop :=
  program.Computes (exec geometry) (ProducerHolds geometry True none) (Ring.view geometry) spec

private theorem alone (geometry : Geometry) : ConsumerSide (F := F) (S := S) (W := W) geometry
    True (SingleLine none) Eq fun _ _ => True :=
  aloneSide

/-- A consumer access keeps what the producer relies on. -/
theorem ProducerHolds.after {ring : Ring F S W} (holds : ProducerHolds geometry True none ring)
    {op : Access F S W} (permitted : ConsumerPermits geometry True op ring) :
    ProducerHolds geometry True none (effect geometry op ring) :=
  holds.stable (ConsumerMoves.of_permits permitted)

theorem Atomic.andThen {program : RingProgram F S W α}
    {spec : RingView F S W → α × RingView F S W} (first : Atomic geometry program spec)
    (later : α → RingView F S W → β × RingView F S W) {next : α → RingProgram F S W β}
    (rest : ∀ value, Atomic geometry (next value) (later value)) :
    Atomic geometry (program >>= next) fun view => later (spec view).1 (spec view).2 :=
  Program.Computes.bind first rest

theorem atomic_pure (value : α) : Atomic (F := F) (S := S) (W := W) geometry (pure value)
    fun view => (value, view) :=
  Program.computes_pure value

section Accesses

theorem atomic_access (op : Access F S W) (spec : RingView F S W → op.Resp × RingView F S W)
    (permitted : ∀ ring, ConsumerPermits geometry True op ring)
    (sees : ∀ ring : Ring F S W, ProducerHolds geometry True none ring →
      (answer geometry op ring, (effect geometry op ring).view geometry) =
        spec (ring.view geometry)) : Atomic geometry (access op) spec :=
  Program.computes_perform
    (fun ring holds => holds.after (permitted ring)) (fun ring holds => sees ring holds)

theorem Atomic.first {op : Access F S W} {spec : RingView F S W → op.Resp × RingView F S W}
    (performs : Atomic geometry (access op) spec) {next : RingProgram F S W α}
    {later : RingView F S W → α × RingView F S W} (rest : Atomic geometry next later) :
    Atomic geometry (access op >>= fun _ => next) fun view => later (spec view).2 :=
  Program.Computes.bind performs fun _ => rest

theorem atomic_leave (state : ConsumerState F S W) (rendered : Rendered F) :
    Atomic geometry (leave state rendered) fun view =>
      (rendered, { view with consumer := state }) :=
  Atomic.first (atomic_access (.leave state rendered.2.2)
    (fun view => ((), { view with consumer := state })) (fun _ => trivial) fun _ _ => rfl)
    (atomic_pure rendered)

/-- Whatever the program returns, it changes the view by `shift`. -/
def Shifts (geometry : Geometry) (program : RingProgram F S W α)
    (shift : RingView F S W → RingView F S W) : Prop :=
  ∀ ring : Ring F S W, ProducerHolds geometry True none ring →
    ProducerHolds geometry True none (program.run (exec geometry) ring).2 ∧
      (program.run (exec geometry) ring).2.view geometry = shift (ring.view geometry)

theorem Shifts.bind {program : RingProgram F S W α} {next : α → RingProgram F S W β}
    {shift shift' : RingView F S W → RingView F S W} (first : Shifts geometry program shift)
    (second : ∀ value, Shifts geometry (next value) shift') :
    Shifts geometry (program >>= next) fun view => shift' (shift view) := by
  intro ring holds
  rw [Program.run_bind]
  obtain ⟨between, same⟩ := first ring holds
  obtain ⟨after, same'⟩ := second (program.run (exec geometry) ring).1 _ between
  exact ⟨after, same'.trans (congrArg shift' same)⟩

theorem Shifts.still {program : RingProgram F S W α} {next : α → RingProgram F S W β}
    {shift : RingView F S W → RingView F S W} (first : Shifts geometry program shift)
    (second : ∀ value, Shifts geometry (next value) id) :
    Shifts geometry (program >>= next) shift :=
  first.bind second

theorem shifts_pure (value : α) : Shifts (F := F) (S := S) (W := W) geometry (pure value) id :=
  fun _ holds => ⟨holds, rfl⟩

theorem shifts_access (op : Access F S W) (shift : RingView F S W → RingView F S W)
    (permitted : ∀ ring, ConsumerPermits geometry True op ring)
    (same : ∀ ring : Ring F S W, (effect geometry op ring).view geometry =
      shift (ring.view geometry)) :
    Shifts geometry (access op) shift :=
  fun ring holds => ⟨holds.after (permitted ring), same ring⟩

theorem Shifts.first {program : RingProgram F S W α} {shift : RingView F S W → RingView F S W}
    (shifts : Shifts geometry program shift) {next : RingProgram F S W β}
    {later : RingView F S W → β × RingView F S W} (rest : Atomic geometry next later) :
    Atomic geometry (program >>= fun _ => next) fun view => later (shift view) := by
  intro ring holds
  rw [Program.run_bind]
  obtain ⟨between, same⟩ := shifts ring holds
  dsimp only
  rw [← same]
  exact rest _ between

theorem Shifts.skip {program : RingProgram F S W α} (silent : Shifts geometry program id)
    {next : RingProgram F S W β} {later : RingView F S W → β × RingView F S W}
    (rest : Atomic geometry next later) : Atomic geometry (program >>= fun _ => next) later :=
  silent.first rest

/-- A counter of the consumer that the view leaves out. -/
theorem silent_storeCounter {counter : Counter} (value : Nat)
    (other : counter ≠ .discarded ∧ counter ≠ .missing) :
    Shifts (F := F) (S := S) (W := W) geometry (access (.storeCounter counter value)) id := by
  refine shifts_access _ _ (fun _ => other.1) fun ring => ?_
  simp only [Ring.view, Ring.account, effect, Ledger.note, Function.update_of_ne (Ne.symm other.1),
    Function.update_of_ne (Ne.symm other.2)]
  rfl

theorem run_addCounter (counter : Counter) (value : Nat) (ring : Ring F S W) :
    ((saturatingAddCounter counter value).run (exec geometry) ring).2 =
      effect geometry (.storeCounter counter (min (ring.counters counter + value) (2 ^ 64 - 1)))
        ring := rfl

theorem silent_addCounter {counter : Counter} (value : Nat)
    (other : counter ≠ .discarded ∧ counter ≠ .missing) :
    Shifts (F := F) (S := S) (W := W) geometry (saturatingAddCounter counter value) id := by
  intro ring holds
  rw [run_addCounter]
  exact silent_storeCounter _ other ring holds

theorem silent_averageShortfall [Binary64 W] (consecutive : Nat) :
    Shifts (F := F) (S := S) (W := W) geometry (averageShortfall geometry consecutive) id :=
  Shifts.still (shifts_access (.loadCounter .shortfallAverageMicro) id (fun _ => trivial)
    fun _ => rfl) fun _ => silent_storeCounter _ ⟨by simp, by simp⟩

/-- A missing output counted in the view. -/
def RingView.miss (missing : Bool) (view : RingView F S W) : RingView F S W :=
  { view with missing := if missing then min (view.missing + 1) (2 ^ 64 - 1) else view.missing }

theorem shifts_countMissing : Shifts (F := F) (S := S) (W := W) geometry
    (saturatingAddCounter .missing 1) (RingView.miss true) := by
  intro ring holds
  rw [run_addCounter]
  refine ⟨holds.stable (ConsumerMoves.of_permits (by simp [ConsumerPermits])), ?_⟩
  unfold RingView.miss
  generalize 2 ^ 64 - 1 = bound
  simp only [Ring.view, Ring.account, effect, Ledger.note, Function.update_self]
  rfl

theorem shifts_recordShortfall [Binary64 W] (missing : Bool) :
    Shifts (F := F) (S := S) (W := W) geometry (recordShortfall geometry missing)
      (RingView.miss missing) := by
  cases missing with
  | false =>
      exact Shifts.still (silent_storeCounter 0 ⟨by simp, by simp⟩) fun _ =>
        silent_averageShortfall 0
  | true =>
      exact Shifts.still shifts_countMissing fun _ =>
        Shifts.still (silent_addCounter 1 ⟨by simp, by simp⟩) silent_averageShortfall

theorem atomic_takeSlot : Atomic (F := F) (S := S) (W := W) geometry
    (consumerTakeSourceSample geometry) fun view =>
      (view.slots.head?, { view with slots := view.slots.tail }) := by
  refine Program.computes_of_safe fun ring holds => ?_
  rw [consumerTakeSourceSample, ← bind_pure (pcmPort.take geometry.capacity)]
  refine Port.safe_take (pcm_lawful geometry) (alone geometry).pcmReader holds.pcm ?_ ?_
  · rintro current rfl empty _ rfl
    refine ⟨holds, ?_⟩
    simp [Ring.view, empty]
  · rintro current slot rest rfl unreadEq _ rfl
    have permits : ConsumerPermits geometry True (.pcm (.advanceRead
        ((ring.pcm.queue.read + 1) % (geometry.capacity * 2)) slot)) ring := ⟨rfl, rest, unreadEq⟩
    refine ⟨holds.after permits, ?_⟩
    have after := takeSlot_unread holds.pcm unreadEq
    change (some slot, { ring.view geometry with
      slots := (takeSlot geometry slot ring).pcm.unread geometry.capacity }) = _
    rw [after]
    simp [Ring.view, unreadEq]

theorem atomic_popRecord : Atomic (F := F) (S := S) (W := W) geometry
    (mailboxPop mutePort) fun view =>
      (view.records.head?, { view with records := view.records.tail }) := by
  refine Program.computes_of_safe fun ring holds => ?_
  rw [mailboxPop, ← bind_pure (mutePort.take mailboxQueue)]
  refine Port.safe_take (mute_lawful geometry) (alone geometry).muteReader holds.mutes ?_ ?_
  · rintro current rfl empty _ rfl
    refine ⟨holds, ?_⟩
    simp [Ring.view, empty]
  · rintro current interval rest rfl unreadEq _ rfl
    have permits : ConsumerPermits geometry True (.mutes (.advanceRead
        ((ring.mutes.queue.read + 1) % (mailboxQueue * 2)) interval)) ring := ⟨rfl, rest, unreadEq⟩
    refine ⟨holds.after permits, ?_⟩
    have after := Channel.unread_advanceRead holds.mutes unreadEq
    change (some interval, { ring.view geometry with
      records := (popRecord geometry interval ring).mutes.unread mailboxQueue }) = _
    change (popRecord geometry interval ring).mutes.unread mailboxQueue = rest at after
    rw [after]
    simp [Ring.view, unreadEq]

theorem atomic_available : Atomic (F := F) (S := S) (W := W) geometry (available geometry)
    fun view => (view.slots.length, view) := by
  refine Program.computes_of_safe fun ring holds => ?_
  have bounded : (ring.pcm.unread geometry.capacity).length ≤ geometry.capacity := by
    rw [Channel.unread_length]
    exact holds.pcm.valid.distance_le
  unfold available
  refine Port.safe_occupied (pcm_lawful geometry) (alone geometry).pcmReader holds.pcm ?_
  rintro early current rfl rfl _ rfl
  exact ⟨holds, Prod.ext (Nat.min_eq_left bounded) rfl⟩

/-- Dropping what is unread of one queue leaves nothing to read. -/
theorem discarded_unread {γ : Type} {capacity : Nat} {channel : Channel γ}
    (sound : channel.Sound capacity)
    (permitted : channel.ReaderPermits capacity (.discardTo channel.queue.written)) :
    (channel.exec capacity (.discardTo channel.queue.written)).2.unread capacity = [] :=
  (Channel.sound_reader sound permitted).unread_eq_nil.mpr rfl

theorem shifts_discardSlots : Shifts (F := F) (S := S) (W := W) geometry pcmPort.discard
    fun view => { view with slots := [] } := by
  intro ring holds
  have safe : (pcmPort (F := F) (S := S) (W := W)).discard.Safe (exec geometry) Eq
      (fun _ _ => True) (fun _ after => ProducerHolds geometry True none after ∧
        after.view geometry = { ring.view geometry with slots := [] }) ring := by
    rw [← bind_pure pcmPort.discard]
    refine Port.safe_discard (pcm_lawful geometry) (alone geometry).pcmReader holds.pcm ?_
    rintro early current rfl rfl permitted _ rfl
    have looks : ConsumerPermits geometry True (.pcm .snapshotWritten) ring := trivial
    have snapshot := holds.after looks
    have permits : ConsumerPermits geometry True (.pcm (.discardTo ring.pcm.queue.written))
        (effect geometry (.pcm .snapshotWritten) ring) := permitted
    refine ⟨snapshot.after permits, ?_⟩
    have empty := discarded_unread snapshot.pcm permitted
    change { ring.view geometry with
      slots := ((effect geometry (.pcm .snapshotWritten) ring).pcm.exec geometry.capacity
        (.discardTo ring.pcm.queue.written)).2.unread geometry.capacity } = _
    exact congrArg (fun slots => { ring.view geometry with slots := slots }) empty
  exact safe.run

theorem shifts_discardRecords : Shifts (F := F) (S := S) (W := W) geometry
    (mailboxReset mutePort) fun view => { view with records := [] } := by
  intro ring holds
  have safe : (mailboxReset (mutePort (F := F) (S := S) (W := W))).Safe (exec geometry) Eq
      (fun _ _ => True) (fun _ after => ProducerHolds geometry True none after ∧
        after.view geometry = { ring.view geometry with records := [] }) ring := by
    rw [mailboxReset, ← bind_pure mutePort.discard]
    refine Port.safe_discard (mute_lawful geometry) (alone geometry).muteReader holds.mutes ?_
    rintro early current rfl rfl permitted _ rfl
    have looks : ConsumerPermits geometry True (.mutes .snapshotWritten) ring := trivial
    have snapshot := holds.after looks
    have permits : ConsumerPermits geometry True (.mutes (.discardTo ring.mutes.queue.written))
        (effect geometry (.mutes .snapshotWritten) ring) := permitted
    refine ⟨snapshot.after permits, ?_⟩
    have empty := discarded_unread snapshot.mutes permitted
    change { ring.view geometry with
      records := ((effect geometry (.mutes .snapshotWritten) ring).mutes.exec mailboxQueue
        (.discardTo ring.mutes.queue.written)).2.unread mailboxQueue } = _
    exact congrArg (fun records => { ring.view geometry with records := records }) empty
  exact safe.run

theorem shifts_discardBurst : Shifts (F := F) (S := S) (W := W) geometry discardBurst
    fun view => { view with slots := [], records := [] } := by
  have burst : Shifts (F := F) (S := S) (W := W) geometry
      (pcmPort.discard >>= fun _ => mailboxReset mutePort)
      fun view => { view with slots := [], records := [] } :=
    shifts_discardSlots.bind fun _ => shifts_discardRecords
  have counting : Shifts (F := F) (S := S) (W := W) geometry
      (saturatingAddCounter .adapterErrorCount 1) id := silent_addCounter 1 ⟨by simp, by simp⟩
  have counted := burst.still fun _ => counting.still fun _ => shifts_pure ()
  rw [bind_assoc] at counted
  exact counted

/-- A stale stamp is forgotten. -/
theorem shifts_serial : Shifts (F := F) (S := S) (W := W) geometry (access .fetchAddResetSerial)
    fun view => { view with account := { view.account with stamp := none } } := by
  intro ring holds
  have permits : ConsumerPermits geometry True .fetchAddResetSerial ring := .inl trivial
  refine ⟨holds.after permits, ?_⟩
  have stale : ¬ring.producerEpoch = ring.resetSerial + 1 := by
    have := holds.epoch_le
    omega
  change { ring.view geometry with account := { ring.account with
    stamp := if ring.producerEpoch = ring.resetSerial + 1 then ring.producerStamp else none } } = _
  rw [if_neg stale]
  rfl

theorem shifts_storeFinish (word : Nat) : Shifts (F := F) (S := S) (W := W) geometry
    (access (.storeFinish word)) fun view => { view with finish := word } :=
  fun _ holds => ⟨{ holds with }, rfl⟩

theorem atomic_lookup (history : History) (position : Option Position)
    {next : Bool → RingProgram F S W α} {later : RingView F S W → α × RingView F S W}
    (rest : Atomic geometry (next (history.muted position)) later) :
    Atomic geometry (access (.lookup history position) >>= next) later :=
  fun ring holds => rest ring holds

end Accesses

section Ends

variable [Binary32 F] [Binary64 W] {adapter : Adapter F W S}

omit [Binary32 F] [Binary64 W] in
theorem silent_countErrors : Shifts (F := F) (S := S) (W := W) geometry
    (saturatingAddCounter .adapterErrorCount 1) id :=
  silent_addCounter 1 ⟨by simp, by simp⟩

omit [Binary64 W] in
theorem atomic_reportFault (state : ConsumerState F S W) :
    Atomic geometry (reportFault state) (RingView.silent state true) :=
  silent_countErrors.first (atomic_leave state (0, false, true))

theorem atomic_completeFinite (boundary : Finite) (failed : Bool) (state : ConsumerState F S W) :
    Atomic geometry (completeFinite adapter geometry boundary failed state)
      (RingView.complete adapter boundary failed state) := by
  have retired : Shifts (F := F) (S := S) (W := W) geometry (access (.retire state)) id :=
    shifts_access _ _ (fun _ => trivial) fun _ => rfl
  have counted : Shifts (F := F) (S := S) (W := W) geometry
      (recordShortfall geometry false) id := shifts_recordShortfall false
  unfold completeFinite
  by_cases errored : (!(state.reset adapter).1 || failed) = true
  · have ends := retired.first (shifts_serial.first (counted.first (shifts_discardBurst.first
      ((shifts_storeFinish (boundary.token * 4 + FinishStatus.adapterError.bits)).first
        (atomic_leave { (state.reset adapter).2 with quiet := true } (0, false, true))))))
    simp only [if_pos errored]
    refine ends.congr fun view => ?_
    simp only [RingView.complete, errored, if_true, id]
  · have ends := retired.first (shifts_serial.first (counted.first
      ((shifts_storeFinish (boundary.token * 4 + FinishStatus.drained.bits)).first
        (atomic_leave { (state.reset adapter).2 with quiet := true } (0, false, false)))))
    simp only [if_neg errored]
    refine ends.congr fun view => ?_
    simp only [RingView.complete, errored, id]
    rfl

theorem atomic_drainFinite (boundary : Finite) (state : ConsumerState F S W) :
    Atomic geometry (drainFinite adapter geometry boundary state)
      (RingView.drain adapter geometry boundary state) := by
  have released : Shifts (F := F) (S := S) (W := W) geometry (access .release) id :=
    shifts_access _ _ (fun _ => trivial) fun _ => rfl
  unfold drainFinite RingView.drain
  refine Program.Computes.ite (fun remaining => ?_) fun none => ?_
  · refine released.skip (atomic_lookup _ _ ?_)
    exact atomic_leave _ _
  · exact atomic_completeFinite _ _ _

variable [Widening F W]

theorem atomic_emit (result : RefillResult) (state : ConsumerState F S W) :
    Atomic geometry (emit geometry result state) (RingView.emit geometry result state) := by
  have failure (failed : Bool) : Shifts (F := F) (S := S) (W := W) geometry
      (countFailure failed) id := by
    cases failed with
    | false => exact shifts_pure ()
    | true => exact silent_countErrors.still fun _ => shifts_pure ()
  have fed (input : Option F) : Shifts (F := F) (S := S) (W := W) geometry
      (access (.feed input)) fun view => { view with fed := view.fed ++ [input] } :=
    shifts_access _ _ (fun _ => trivial) fun _ => rfl
  have kept : (state.popped result).2.resetFailed = state.resetFailed := by
    unfold ConsumerState.popped
    split <;> rfl
  have tail (output : (F × Bool) × ConsumerState F S W) :
      Atomic geometry (do
        let delayed := output.2.delayPosition geometry.lookahead
          (if result = .ready then state.cachePosition else none)
        let silenced ← access (.lookup state.muteHistory delayed.1)
        leave (delayed.2.retirePosition delayed.1) (if silenced then 0 else output.1.1,
          output.1.2, decide (result = .adapterError))) fun view =>
        let delayed := output.2.delayPosition geometry.lookahead
          (if result = .ready then state.cachePosition else none)
        ((if state.muteHistory.muted delayed.1 then 0 else output.1.1, output.1.2,
          decide (result = .adapterError)),
          { view with consumer := delayed.2.retirePosition delayed.1 }) :=
    atomic_lookup _ _ (atomic_leave _ _)
  have counted : Shifts (F := F) (S := S) (W := W) geometry
      (recordShortfall geometry (state.emission geometry result).input.isNone)
      (RingView.miss (state.emission geometry result).input.isNone) := shifts_recordShortfall _
  unfold emit emitOutput
  refine atomic_lookup _ _ ?_
  by_cases failed : state.resetFailed = true
  · have ends := counted.first ((failure (decide (result = .adapterError))).skip
      (tail ((0, false), (state.popped result).2)))
    simp only [if_pos (kept.trans failed), pure_bind]
    refine ends.congr fun view => ?_
    simp only [RingView.emit, RingView.miss, ConsumerState.emission, if_pos (kept.trans failed),
      if_pos failed]
  · have works : ¬(state.popped result).2.resetFailed = true := kept ▸ failed
    have ends := counted.first ((failure (decide (result = .adapterError))).skip
      ((fed (state.emission geometry result).input).first
        (tail ((state.popped result).2.concealed (state.emission geometry result).input))))
    simp only [if_neg works, bind_assoc, pure_bind]
    refine ends.congr fun view => ?_
    simp only [RingView.emit, RingView.miss, ConsumerState.emission, if_neg works, if_neg failed]

end Ends

section Refill

theorem atomic_takeSources (wanted : Nat) (state : ConsumerState F S W) :
    Atomic geometry (takeSources geometry wanted state) fun view =>
      ((state.takeAll geometry.gapCapacity wanted view.slots).1,
        { view with slots := (state.takeAll geometry.gapCapacity wanted view.slots).2 }) := by
  induction wanted generalizing state with
  | zero => exact atomic_pure _
  | succ wanted ih =>
      unfold takeSources
      cases padding : state.inputPadding with
      | true =>
          rw [if_pos rfl]
          refine (atomic_pure (true, state)).congr fun view => ?_
          cases slotsEq : view.slots with
          | nil => simp [ConsumerState.takeAll, ← slotsEq]
          | cons slot rest => simp [ConsumerState.takeAll, padding, ← slotsEq]
      | false =>
          rw [if_neg (by simp)]
          let later (slot : Option (SourceSample F)) (view : RingView F S W) :
              (Bool × ConsumerState F S W) × RingView F S W :=
            slot.elim ((true, state), view) fun sample =>
              let accepted := state.acceptSource geometry.gapCapacity sample
              if accepted.1 then
                ((accepted.2.takeAll geometry.gapCapacity wanted view.slots).1,
                  { view with
                    slots := (accepted.2.takeAll geometry.gapCapacity wanted view.slots).2 })
              else (accepted, view)
          refine (atomic_takeSlot.andThen later fun slot => ?_).congr fun view => ?_
          · cases slot with
            | none => exact atomic_pure _
            | some sample =>
                dsimp only [later, Option.elim_some]
                generalize state.acceptSource geometry.gapCapacity sample = accepted
                obtain ⟨ok, after⟩ := accepted
                cases ok with
                | false => exact atomic_pure _
                | true => exact ih after
          · cases slotsEq : view.slots with
            | nil => simp [ConsumerState.takeAll, later]
            | cons slot rest =>
                simp only [ConsumerState.takeAll, later, padding, List.head?_cons,
                  List.tail_cons, Option.elim_some]
                split <;> simp_all

variable [Binary64 W] {adapter : Adapter F W S}

theorem atomic_steer (occupancy : Nat) (state : ConsumerState F S W) :
    Atomic geometry (steer geometry occupancy state) fun view =>
      (state.steered geometry occupancy, view) := by
  have stored (smoothed : Nat) : Shifts (F := F) (S := S) (W := W) geometry
      (access (.storeCounter .filteredOccupancyMilli smoothed)) id :=
    silent_storeCounter _ ⟨by simp, by simp⟩
  have corrected (ppm : Int) : Shifts (F := F) (S := S) (W := W) geometry
      (access (.storeRatioCorrection ppm)) id :=
    shifts_access _ _ (fun _ => trivial) fun _ => rfl
  unfold steer ConsumerState.steered
  split
  · exact (stored _).skip ((corrected _).skip (atomic_pure _))
  · split
    · exact atomic_pure _
    · exact atomic_pure _

theorem atomic_convertOutput (quantum : Nat) (state : ConsumerState F S W) :
    Atomic geometry (convertOutput adapter geometry quantum state) fun view =>
      (state.converted adapter geometry quantum view.slots.length, view) := by
  unfold convertOutput ConsumerState.converted
  generalize adapter.converterQueuedInput state.converter = reply
  obtain ⟨answer, converter⟩ := reply
  cases answer with
  | none => exact atomic_pure _
  | some queued =>
      exact Program.Computes.bind atomic_available fun readable =>
        Program.Computes.bind (atomic_steer (occupancyOf readable state.inputPending queued)
          { state with converter := converter }) fun steered =>
            atomic_pure (steered.convert adapter geometry quantum)

theorem atomic_refillOutput [Binary32 F] (state : ConsumerState F S W) :
    Atomic geometry (refillOutput adapter geometry state) fun view =>
      ((state.refilled adapter geometry view.slots).1,
        { view with slots := (state.refilled adapter geometry view.slots).2 }) := by
  unfold refillOutput ConsumerState.refilled
  split
  · exact atomic_pure _
  · split
    · exact atomic_pure _
    · dsimp only
      generalize desiredInput geometry (min geometry.capacity converterQuantum) state -
        state.inputPending = wanted
      let later (taken : Bool × ConsumerState F S W) (view : RingView F S W) :
          (RefillResult × ConsumerState F S W) × RingView F S W :=
        (if taken.1 then
            let padded := taken.2.padInput (min geometry.capacity converterQuantum)
            if padded.inputPending = 0 ∧ padded.zeroProgress then (.starved, padded)
            else padded.converted adapter geometry (min geometry.capacity converterQuantum)
              view.slots.length
          else (.adapterError, taken.2), view)
      refine ((atomic_takeSources wanted _).andThen later fun taken => ?_).congr fun view => ?_
      · obtain ⟨ok, after⟩ := taken
        cases ok with
        | false => exact atomic_pure _
        | true =>
            dsimp only
            split
            · rename_i stalled
              exact (atomic_pure _).congr fun view => by simp only [later, if_true, if_pos stalled]
            · rename_i runs
              exact (atomic_convertOutput _ _).congr fun view => by
                simp only [later, if_true, if_neg runs]
      · dsimp only [later]
        split
        · split <;> rfl
        · rfl

theorem atomic_refillTail [Binary32 F] (limit : Nat) (result : RefillResult)
    (state : ConsumerState F S W) :
    Atomic geometry (refillTail adapter geometry limit result state) fun view =>
      ((state.refilledTail adapter geometry limit result view.slots).1,
        { view with slots := (state.refilledTail adapter geometry limit result view.slots).2 }) := by
  induction limit generalizing result state with
  | zero => exact atomic_pure _
  | succ limit ih =>
      unfold refillTail ConsumerState.refilledTail
      split
      · exact Program.Computes.bind (atomic_refillOutput state) fun refilled =>
          ih refilled.1 refilled.2
      · exact atomic_pure _

end Refill

section Render

variable [Binary32 F] [Binary64 W] [Widening F W] {adapter : Adapter F W S}

theorem atomic_renderTail (boundary : Finite) (result : RefillResult)
    (state : ConsumerState F S W) :
    Atomic geometry (renderTail adapter geometry boundary result state)
      (RingView.renderTail adapter geometry boundary result state) := by
  unfold renderTail RingView.renderTail
  refine .ite (fun _ => atomic_completeFinite _ _ _) fun _ => ?_
  refine .ite (fun _ => atomic_drainFinite _ _) fun _ => ?_
  exact .ite (fun _ => atomic_reportFault _) fun _ => atomic_emit _ _

theorem atomic_renderOutput (state : ConsumerState F S W) :
    Atomic geometry (renderOutput adapter geometry state)
      (RingView.renderOutput adapter geometry state) := by
  let later (refilled : RefillResult × ConsumerState F S W) (view : RingView F S W) :
      Rendered F × RingView F S W :=
    refilled.2.finite.elim
      (if refilled.2.muteFault then view.silent refilled.2 true
        else view.emit geometry refilled.1 refilled.2)
      fun boundary =>
        let tail := refilled.2.refilledTail adapter geometry geometry.finiteRefillLimit
          refilled.1 view.slots
        { view with slots := tail.2 }.renderTail adapter geometry boundary tail.1.1 tail.1.2
  refine ((atomic_refillOutput state).andThen later fun refilled => ?_).congr fun view => ?_
  · dsimp only [later]
    cases refilled.2.finite with
    | some boundary =>
        exact Program.Computes.bind (atomic_refillTail _ refilled.1 refilled.2) fun tail =>
          atomic_renderTail boundary tail.1 tail.2
    | none => exact .ite (fun _ => atomic_reportFault _) fun _ => atomic_emit _ _
  · dsimp only [later, RingView.renderOutput]
    cases (state.refilled adapter geometry view.slots).1.2.finite <;> rfl

theorem atomic_renderPrimed (state : ConsumerState F S W) :
    Atomic geometry (renderPrimed adapter geometry state)
      (RingView.renderPrimed adapter geometry state) := by
  unfold renderPrimed RingView.renderPrimed
  cases state.finite with
  | some boundary =>
      exact .ite (fun _ => atomic_drainFinite _ _) fun _ => atomic_renderOutput _
  | none => exact atomic_renderOutput _

theorem atomic_renderAwake (state : ConsumerState F S W) :
    Atomic geometry (renderAwake adapter geometry state)
      (RingView.renderAwake adapter geometry state) := by
  have rest (readable : Nat) : Atomic geometry
      (if readable < geometry.reserve ∧ state.finite.isNone then leave state (0, false, false)
        else renderPrimed adapter geometry { state with primed := true })
      fun view => if readable < geometry.reserve ∧ state.finite.isNone then
        view.silent state false
      else view.renderPrimed adapter geometry { state with primed := true } :=
    .ite (fun _ => atomic_leave _ _) fun _ => atomic_renderPrimed _
  unfold renderAwake RingView.renderAwake
  refine .ite (fun _ => atomic_renderPrimed _) fun _ => ?_
  exact Program.Computes.bind atomic_available rest

theorem atomic_renderReady (state : ConsumerState F S W) :
    Atomic geometry (renderReady adapter geometry state)
      (RingView.renderReady adapter geometry state) := by
  have rest (readable : Nat) : Atomic geometry
      (if readable = 0 then leave state (0, false, state.resetFailed)
        else renderAwake adapter geometry { state with quiet := false })
      fun view => if readable = 0 then view.silent state state.resetFailed
      else view.renderAwake adapter geometry { state with quiet := false } :=
    .ite (fun _ => atomic_leave _ _) fun _ => atomic_renderAwake _
  unfold renderReady RingView.renderReady
  refine .ite (fun _ => atomic_reportFault _) fun _ => ?_
  refine .ite (fun _ => ?_) fun _ => atomic_renderAwake _
  exact Program.Computes.bind atomic_available rest

omit [Binary32 F] [Binary64 W] [Widening F W] in
theorem atomic_drainMailbox (limit : Nat) (state : ConsumerState F S W) :
    Atomic geometry (drainMailbox limit state) fun view =>
      (state.receiveAll (view.records.take limit),
        { view with records := view.records.drop limit }) := by
  induction limit generalizing state with
  | zero => exact atomic_pure _
  | succ limit ih =>
      let later (popped : Option Interval) (view : RingView F S W) :
          ConsumerState F S W × RingView F S W :=
        popped.elim (state, view) fun interval =>
          ((state.receive interval).receiveAll (view.records.take limit),
            { view with records := view.records.drop limit })
      unfold drainMailbox
      refine (atomic_popRecord.andThen later fun popped => ?_).congr fun view => ?_
      · cases popped with
        | none => exact atomic_pure _
        | some interval => exact ih _
      · cases recordsEq : view.records with
        | nil =>
            simp only [later, ConsumerState.receiveAll, List.head?_nil, List.tail_nil,
              List.take_nil, List.drop_nil, List.foldl_nil, Option.elim_none]
        | cons interval records => simp [later, ConsumerState.receiveAll]

omit [Binary32 F] [Binary64 W] [Widening F W] in
theorem atomic_receive (state : ConsumerState F S W) :
    Atomic geometry (drainMailbox (maxSpans * 2) state) fun view =>
      (state.receiveAll view.records, { view with records := [] }) := by
  intro ring holds
  have drained : Atomic geometry (drainMailbox (maxSpans * 2) state) fun view =>
      (state.receiveAll (view.records.take (maxSpans * 2)),
        { view with records := view.records.drop (maxSpans * 2) }) :=
    atomic_drainMailbox (maxSpans * 2) state
  obtain ⟨after, seen⟩ := drained ring holds
  have bounded : (ring.view geometry).records.length ≤ maxSpans * 2 := by
    change (ring.mutes.unread mailboxQueue).length ≤ _
    rw [Channel.unread_length]
    exact holds.mutes.valid.distance_le
  dsimp only at seen
  rw [List.take_of_length_le bounded, List.drop_of_length_le bounded] at seen
  exact ⟨after, seen⟩

omit [Binary32 F] [Binary64 W] [Widening F W] in
theorem atomic_captureBoundary (state : ConsumerState F S W) :
    Atomic geometry (captureBoundary geometry state) fun view =>
      (if FinishPending view.finish ∧ state.finite.isNone then
          state.capture view.finish view.slots.length else state, view) := by
  have loaded : Atomic (F := F) (S := S) (W := W) geometry (access (.loadFinish .render))
      fun view => (view.finish, view) :=
    atomic_access _ _ (fun _ => by simp [ConsumerPermits]) fun _ _ => rfl
  have captured (finish : Nat) : Atomic (F := F) (S := S) (W := W) geometry
      (available geometry >>= fun readable => return state.capture finish readable)
      fun view => (state.capture finish view.slots.length, view) :=
    Program.Computes.bind atomic_available fun readable =>
      atomic_pure (state.capture finish readable)
  have rest (finish : Nat) : Atomic geometry
      (if FinishPending finish ∧ state.finite.isNone then do
          let readable ← available geometry
          return state.capture finish readable
        else return state) fun view =>
      if FinishPending finish ∧ state.finite.isNone then
        (state.capture finish view.slots.length, view)
      else (state, view) :=
    .ite (fun _ => captured finish) fun _ => atomic_pure _
  unfold captureBoundary
  refine (Program.Computes.bind loaded rest).congr fun view => ?_
  dsimp only
  split <;> rfl

omit [Binary32 F] [Binary64 W] [Widening F W] in
theorem atomic_enter : Atomic (F := F) (S := S) (W := W) geometry (access .enter)
    fun view => (view.consumer, view) :=
  atomic_access _ _ (fun _ => trivial) fun _ _ => rfl

theorem atomic_consumerRenderSample :
    Atomic (F := F) (S := S) (W := W) geometry (consumerRenderSample adapter geometry)
      (RingView.render adapter geometry) :=
  Program.Computes.bind atomic_enter fun state =>
    Program.Computes.bind (atomic_captureBoundary state) fun captured =>
      Program.Computes.bind (atomic_receive captured) fun received =>
        atomic_renderReady received

omit [Binary32 F] [Binary64 W] [Widening F W] in
theorem atomic_cancelFinish : Atomic (F := F) (S := S) (W := W) geometry cancelFinish fun view =>
    ((), { view with finish := if FinishPending view.finish then
      view.finish + FinishStatus.cancelled.bits else view.finish }) := by
  have loaded : Atomic (F := F) (S := S) (W := W) geometry (access (.loadFinish .reset))
      fun view => (view.finish, view) :=
    atomic_access _ _ (fun _ => by simp [ConsumerPermits]) fun _ _ => rfl
  have stored (finish : Nat) : Atomic (F := F) (S := S) (W := W) geometry
      (access (.storeFinish (finish + FinishStatus.cancelled.bits)))
      fun view => ((), { view with finish := finish + FinishStatus.cancelled.bits }) :=
    fun ring holds => ⟨{ holds with }, rfl⟩
  have rest (finish : Nat) : Atomic (F := F) (S := S) (W := W) geometry
      (if FinishPending finish then access (.storeFinish (finish + FinishStatus.cancelled.bits))
        else return ()) fun view =>
      if FinishPending finish then
        ((), { view with finish := finish + FinishStatus.cancelled.bits })
      else ((), view) :=
    .ite (fun _ => stored finish) fun _ => atomic_pure ()
  refine (Program.Computes.bind loaded rest).congr fun view => ?_
  dsimp only
  split <;> rfl

omit [Widening F W] in
theorem atomic_consumerReset :
    Atomic (F := F) (S := S) (W := W) geometry (consumerReset adapter)
      (RingView.reset adapter) := by
  have left (state : ConsumerState F S W) : Atomic (F := F) (S := S) (W := W) geometry
      (access (.leave state false)) fun view => ((), { view with consumer := state }) :=
    atomic_access _ _ (fun _ => trivial) fun _ _ => rfl
  have rest (state : ConsumerState F S W) : Atomic (F := F) (S := S) (W := W) geometry
      (mailboxReset mutePort >>= fun _ => access .fetchAddResetSerial >>= fun _ =>
        cancelFinish >>= fun _ => access (.leave (state.reset adapter).2 false) >>= fun _ =>
          pure (state.reset adapter).1) fun view =>
      ((state.reset adapter).1, { view with
        records := []
        account := { view.account with stamp := none }
        consumer := (state.reset adapter).2
        finish := if FinishPending view.finish then view.finish + FinishStatus.cancelled.bits
          else view.finish }) :=
    shifts_discardRecords.first <| shifts_serial.first <|
      Program.Computes.bind atomic_cancelFinish fun _ =>
        Program.Computes.bind (left (state.reset adapter).2) fun _ => atomic_pure _
  exact shifts_discardSlots.first (Program.Computes.bind atomic_enter rest)

theorem atomic_consumerBody (call : ConsumerCall) :
    Atomic (F := F) (S := S) (W := W) geometry (consumerBody adapter geometry call)
      (RingView.consume adapter geometry call) := by
  cases call with
  | render => exact Program.Computes.bind atomic_consumerRenderSample fun output =>
      atomic_pure (ConsumerResult.rendered output)
  | reset => exact Program.Computes.bind atomic_consumerReset fun succeeded =>
      atomic_pure (ConsumerResult.reset succeeded)

end Render

end PcmRing
