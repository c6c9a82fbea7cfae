import PcmRing.HeardMutes
import PcmRing.UnitRender

/-!
# The ring is a plain queue at unit rate

With a converter that hands on every sample at once, the FIFO, the workspace and
the output cache amount to one queue: each render that plays emits the accepted
slot behind the last one, or a shortfall if there is none, and behind a finite
boundary the lookahead of concealment.
-/

namespace PcmRing

open TwoLapQueue

variable {F S W : Type}

/-- An accepted interval mutes a support. -/
def StreamLog.Mutes (log : StreamLog) (support : Option Position) : Prop :=
  ∃ position ∈ support, ∃ interval ∈ log.accepted, interval.Meets position

instance (log : StreamLog) (support : Option Position) : Decidable (log.Mutes support) :=
  match support with
  | none => isFalse fun ⟨_, member, _⟩ => by cases member
  | some position =>
      decidable_of_iff (∃ interval ∈ log.accepted, interval.Meets position)
        (by simp [StreamLog.Mutes])

/-- A stream as a queue: its accepted slots, how many were emitted, and what
concealment retains. -/
structure PlainQueue (F : Type) where
  line : List (SourceSample F)
  /-- The supports handed to the lookahead, and the accepted mutes. -/
  log : StreamLog
  emitted : Nat
  primed : Bool
  /-- Silent since a completed stream. -/
  quiet : Bool
  /-- Lookahead samples released behind the boundary. -/
  released : Nat
  plc : Option (Plc F)
  /-- Everything fed onward to concealment. -/
  fed : List (Option F)
  missing : Nat

namespace PlainQueue

/-- More was accepted. -/
def accept (slots : List (SourceSample F)) (records : List Interval) (queue : PlainQueue F) :
    PlainQueue F :=
  { queue with
    line := queue.line ++ slots
    log := { queue.log with accepted := queue.log.accepted ++ records } }

/-- No stream was played yet. -/
def fresh (plc : Option (Plc F)) : PlainQueue F where
  line := []
  log := ⟨[], []⟩
  emitted := 0
  primed := false
  quiet := false
  released := 0
  plc := plc
  fed := []
  missing := 0

variable [Binary32 F]

/-- The stream is over; the next one has not begun. -/
def restart (quiet : Bool) (queue : PlainQueue F) : PlainQueue F :=
  { queue with
    line := []
    log := ⟨[], []⟩
    emitted := 0
    primed := false
    quiet := quiet
    released := 0
    plc := queue.plc.map Plc.reset }

/-- The next sample: nothing for a gap, nor behind the last slot. -/
def sample (queue : PlainQueue F) : Option F :=
  ((queue.line)[queue.emitted]?).bind fun slot =>
    if slot.missing then none else some (canonicalize slot.pcm)

/-- A sample leaves concealment unless the support that waited is muted. -/
def play (lookahead : Nat) (support : Option Position) (output : F × Bool)
    (queue : PlainQueue F) : Rendered F × PlainQueue F :=
  let log := { queue.log with line := support :: queue.log.line }
  ((if log.Mutes (log.support lookahead) then 0 else output.1, output.2, false),
    { queue with log := log, primed := true, quiet := false })

/-- Release one retained lookahead sample. -/
def release (lookahead : Nat) (queue : PlainQueue F) : Rendered F × PlainQueue F :=
  let drained := queue.plc.map Plc.drainSample
  { queue with
    released := queue.released + 1
    plc := drained.map Prod.snd }.play lookahead none ((drained.map Prod.fst).getD (0, false))

variable (W : Type) [Binary64 W] [Widening F W]

/-- Conceal an input, or pass it on as it is. -/
def conceal (input : Option F) (queue : PlainQueue F) : F × Bool :=
  (queue.plc.map fun (plc : Plc F) => (plc.process W input).1).getD
    (input.getD 0, input.isSome)

/-- The next sample goes through concealment; a muted one as silence. -/
def emit (lookahead : Nat) (support : Option Position) (queue : PlainQueue F) :
    Rendered F × PlainQueue F :=
  let input := if queue.log.Mutes support then some 0 else queue.sample
  { queue with
    emitted := min (queue.emitted + 1) queue.line.length
    plc := queue.plc.map fun (plc : Plc F) => (plc.process W input).2
    fed := queue.fed ++ [input]
    missing := if input.isNone then min (queue.missing + 1) (2 ^ 64 - 1) else queue.missing
    }.play lookahead support (queue.conceal W input)

omit [Binary32 F] in
/-- Nothing plays before the reserve, nor after a completed stream. -/
def Rests (geometry : Geometry) (pending : Bool) (queue : PlainQueue F) : Prop :=
  pending = false ∧ (queue.quiet = true ∧ queue.line.isEmpty = true ∨
    queue.primed = false ∧ queue.line.length < geometry.reserve)

instance (geometry : Geometry) (pending : Bool) (queue : PlainQueue F) :
    Decidable (queue.Rests geometry pending) :=
  inferInstanceAs (Decidable (_ ∧ _))

/-- One render of a queue whose next slot has a given source support. -/
def render (geometry : Geometry) (pending : Bool) (support : Option Position)
    (queue : PlainQueue F) : Rendered F × PlainQueue F :=
  if queue.Rests geometry pending then
    ((0, false, false), { queue with quiet := queue.quiet && queue.line.isEmpty })
  else if queue.emitted < queue.line.length then queue.emit W geometry.lookahead support
  else if pending = false then queue.emit W geometry.lookahead none
  else if queue.released < geometry.lookahead then queue.release geometry.lookahead
  else ((0, false, false), queue.restart true)

end PlainQueue

/-- The source support of what a render emits. -/
def RenderExit.support (exit : RenderExit F S W) : Option Position :=
  match exit with
  | .emitted _ state .ready => state.cachePosition
  | _ => none

/-- The ring between two calls holds the stream of a queue. -/
structure Plays [Binary32 F] [Binary64 W] [OrderedBinary64 W] (geometry : Geometry)
    (queue : PlainQueue F) (view : RingView F Unit W) : Prop where
  standing : Standing queue.line view.slots view.consumer
  hears : Hears geometry (fun _ => 0) queue.log view
  heeds : Heeds queue.log view
  next_eq : view.consumer.nextIndex = queue.emitted
  reached : queue.emitted ≤ queue.line.length
  primed_eq : view.consumer.primed = queue.primed
  quiet_eq : view.consumer.quiet = queue.quiet
  plc_eq : view.consumer.plc = queue.plc
  fed_eq : view.fed = queue.fed
  missing_eq : view.missing = queue.missing
  waiting : queue.primed = false → view.consumer.sourceTaken = 0
  unprimed : queue.quiet = true → queue.primed = false
  captured : view.consumer.finite.isSome = true →
    FinishPending view.finish ∧ queue.quiet = false
  streaming : view.consumer.finite = none → queue.released = 0
  draining : ∀ boundary ∈ view.consumer.finite,
    ConsumerState.remainingLookahead geometry.lookahead boundary + queue.released =
        geometry.lookahead ∧
      (boundary.plcRemaining.isSome = true → queue.line.length ≤ queue.emitted)

section Playing

variable [Binary32 F] [Binary64 W] [OrderedBinary64 W] [Widening F W] {geometry : Geometry}
  {queue : PlainQueue F} {view : RingView F Unit W} {line slots : List (SourceSample F)}
  {state : ConsumerState F Unit W}

/-- The consumer of a render that has taken in its boundary and its records. -/
structure Begun (geometry : Geometry) (queue : PlainQueue F) (pending : Bool)
    (slots : List (SourceSample F)) (state : ConsumerState F Unit W) : Prop where
  standing : Standing queue.line slots state
  delays : state.Delays geometry.lookahead queue.log.line
  next_eq : state.nextIndex = queue.emitted
  primed_eq : state.primed = queue.primed
  quiet_eq : state.quiet = (queue.quiet && !pending)
  plc_eq : state.plc = queue.plc
  waiting : queue.primed = false → state.sourceTaken = 0
  unprimed : queue.quiet = true → queue.primed = false
  pending_eq : state.finite.isSome = pending
  streaming : pending = false → queue.released = 0
  draining : ∀ boundary ∈ state.finite,
    ConsumerState.remainingLookahead geometry.lookahead boundary + queue.released =
        geometry.lookahead ∧
      (boundary.plcRemaining.isSome = true → queue.line.length ≤ queue.emitted)

omit [Widening F W] in
/-- A render that finds room for every record begins with the stream of the queue. -/
theorem Plays.begun (plays : Plays geometry queue view)
    (clean : view.started.muteFault = view.consumer.muteFault) :
    Begun geometry queue (decide (FinishPending view.finish)) view.slots view.started := by
  obtain ⟨-, delays, -, -⟩ := plays.hears.started
  have ordered : view.consumer.muteHistory.Ordered := plays.hears.ordered
  have standing := plays.standing
  have faultless : view.started.muteFault = false := clean.trans standing.clean
  unfold RingView.started at delays faultless ⊢
  by_cases captures : FinishPending view.finish ∧ view.consumer.finite.isNone = true
  · rw [if_pos captures] at delays faultless ⊢
    obtain ⟨history, fault, receivedEq, -⟩ := receiveAll_heard view.records
      (view.consumer.capture view.finish view.slots.length) ordered
    rw [receivedEq] at delays faultless ⊢
    have none := Option.isNone_iff_eq_none.mp captures.2
    have whole := standing.split.whole
    refine
      { standing :=
          { ordered := standing.ordered.agree ⟨rfl, rfl, rfl, rfl, rfl⟩ rfl
              ⟨rfl, rfl, rfl, rfl, rfl, rfl⟩ ⟨rfl, rfl, rfl⟩ rfl
            split := standing.split
            contiguous := standing.contiguous
            working := standing.working
            ratio := standing.ratio
            clean := faultless
            padded := fun _ => rfl
            boundary := fun boundary member => by
              cases member
              exact whole.symm }
        delays := delays
        next_eq := plays.next_eq
        primed_eq := plays.primed_eq
        quiet_eq := by rw [decide_eq_true captures.1, Bool.not_true, Bool.and_false]; rfl
        plc_eq := plays.plc_eq
        waiting := plays.waiting
        unprimed := plays.unprimed
        pending_eq := (decide_eq_true captures.1).symm
        streaming := fun _ => plays.streaming none
        draining := fun boundary member => ?_ }
    cases member
    exact ⟨by rw [plays.streaming none]; rfl, fun some => by cases some⟩
  · rw [if_neg captures] at delays faultless ⊢
    obtain ⟨history, fault, receivedEq, -⟩ := receiveAll_heard view.records view.consumer ordered
    rw [receivedEq] at delays faultless ⊢
    have pendingEq : view.consumer.finite.isSome = decide (FinishPending view.finish) := by
      by_cases pending : FinishPending view.finish
      · rw [decide_eq_true pending]
        cases finiteEq : view.consumer.finite with
        | none => exact (captures ⟨pending, by rw [finiteEq]; rfl⟩).elim
        | some boundary => rfl
      · rw [decide_eq_false pending]
        exact Bool.eq_false_iff.mpr fun some => pending (plays.captured some).1
    exact
      { standing :=
          { ordered := standing.ordered.agree ⟨rfl, rfl, rfl, rfl, rfl⟩ rfl
              ⟨rfl, rfl, rfl, rfl, rfl, rfl⟩ ⟨rfl, rfl, rfl⟩ rfl
            split := standing.split
            contiguous := standing.contiguous
            working := standing.working
            ratio := standing.ratio
            clean := faultless
            padded := standing.padded
            boundary := standing.boundary }
        delays := delays
        next_eq := plays.next_eq
        primed_eq := plays.primed_eq
        quiet_eq := by
          change view.consumer.quiet = _
          rw [plays.quiet_eq]
          by_cases pending : FinishPending view.finish
          · rw [(plays.captured (pendingEq.trans (decide_eq_true pending))).2]
            rfl
          · rw [decide_eq_false pending, Bool.not_false, Bool.and_true]
        plc_eq := plays.plc_eq
        waiting := plays.waiting
        unprimed := plays.unprimed
        pending_eq := pendingEq
        streaming := fun idle => plays.streaming
          (Option.not_isSome_iff_eq_none.mp (by
            rw [pendingEq, idle]
            decide))
        draining := plays.draining }

omit [Widening F W] in
theorem Begun.rests_iff {pending : Bool} (begun : Begun geometry queue pending slots state) :
    state.Rests geometry slots ↔ queue.Rests geometry pending := by
  have untaken (primed : queue.primed = false) : slots = queue.line := by
    rw [← begun.standing.split.rest, begun.waiting primed, List.drop_zero]
  unfold ConsumerState.Rests PlainQueue.Rests
  rw [begun.quiet_eq, begun.primed_eq]
  constructor
  · rintro (⟨quiet, empty⟩ | ⟨primed, below, streaming⟩)
    · obtain ⟨quiet, idle⟩ := Bool.and_eq_true_iff.mp quiet
      refine ⟨by simpa using idle, .inl ⟨quiet, ?_⟩⟩
      rw [← untaken (begun.unprimed quiet), empty]
      rfl
    · refine ⟨?_, .inr ⟨primed, ?_⟩⟩
      · rw [← begun.pending_eq, streaming]
        rfl
      · rw [← untaken primed]
        exact below
  · rintro ⟨idle, ⟨quiet, empty⟩ | ⟨primed, below⟩⟩
    · refine .inl ⟨by rw [quiet, idle]; rfl, ?_⟩
      rw [untaken (begun.unprimed quiet)]
      exact List.isEmpty_iff.mp empty
    · refine .inr ⟨primed, untaken primed ▸ below, ?_⟩
      rw [← begun.pending_eq] at idle
      exact Option.not_isSome_iff_eq_none.mp (by rw [idle]; decide)

omit [Widening F W] in
/-- What a render looks up is muted exactly by the accepted intervals: the support
of its own sample, and the one that waited for the lookahead. -/
theorem Plays.muted_iff (plays : Plays geometry queue view)
    (clean : view.started.muteFault = view.consumer.muteFault) {support looked : Option Position}
    (sorted : (support :: queue.log.line).Pairwise Follows)
    (looks : looked = support ∨
      looked = ((support :: queue.log.line)[geometry.lookahead]?).join) :
    view.started.muteHistory.muted looked = true ↔ queue.log.Mutes looked := by
  obtain ⟨-, -, ordered, covers⟩ := plays.hears.started
  have covers := covers (clean.trans plays.standing.clean)
  cases lookedEq : looked with
  | none =>
      constructor
      · exact fun muted => by cases muted
      · exact fun ⟨_, member, _⟩ => by cases member
  | some position =>
      constructor
      · intro muted
        obtain ⟨interval, member, meets⟩ :=
          plays.heeds.started ((History.muted_iff ordered).mp muted)
        exact ⟨position, rfl, interval, member, meets⟩
      · rintro ⟨met, same, interval, member, meets⟩
        cases same
        rcases looks with same | waited
        · refine (History.muted_iff ordered).mpr
            (covers interval member _ (fun played earlier => ?_) meets)
          exact (List.pairwise_cons.mp sorted).1 _ (List.mem_of_mem_drop earlier) position
            (same.symm.trans lookedEq) played rfl
        · exact muted_of_covers ordered sorted (covers interval member)
            (waited.symm.trans lookedEq) meets

omit [OrderedBinary64 W] in
/-- Concealment does to the consumer what it does to the queue. -/
theorem concealed_conceal (plcEq : state.plc = queue.plc) (input : Option F) :
    state.concealed input = (queue.conceal W input,
      { state with plc := queue.plc.map fun (plc : Plc F) => (plc.process W input).2 }) := by
  unfold ConsumerState.concealed PlainQueue.conceal
  rw [← plcEq]
  split
  · rename_i plc found
    rw [found]
    rfl
  · rename_i found
    rw [found]
    cases state
    cases found
    rfl

omit [OrderedBinary64 W] in
theorem emission_working {result : RefillResult}
    (working : (state.popped result).2.resetFailed = false) (geometry : Geometry) :
    let input := if state.muteHistory.muted (state.emittedSupport result) then some 0
      else (state.popped result).1
    let output := (state.popped result).2.concealed input
    let delayed := output.2.delayPosition geometry.lookahead (state.emittedSupport result)
    state.emission geometry result =
      { input := input
        rendered := (if state.muteHistory.muted delayed.1 then 0 else output.1.1, output.1.2,
          decide (result = .adapterError))
        state := delayed.2.retirePosition delayed.1 } := by
  have streams : ¬(state.popped result).2.resetFailed = true := Bool.eq_false_iff.mp working
  unfold ConsumerState.emission
  dsimp only
  rw [if_neg streams]
  rfl

omit [OrderedBinary64 W] in
/-- An emission is one of the queue, if the history mutes what the queue mutes. -/
theorem emission_emits {result : RefillResult}
    (delays : state.Delays geometry.lookahead queue.log.line) (converting : ¬state.Draining)
    (working : state.resetFailed = false) (plcEq : state.plc = queue.plc)
    (converts : result ≠ .adapterError) (sampleEq : (state.popped result).1 = queue.sample)
    (muted : ∀ looked, looked = state.emittedSupport result ∨
      looked = ((state.emittedSupport result :: queue.log.line)[geometry.lookahead]?).join →
        (state.muteHistory.muted looked = true ↔ queue.log.Mutes looked)) :
    let emitted := queue.emit W geometry.lookahead (state.emittedSupport result)
    (state.emission geometry result).rendered = emitted.1 ∧
      queue.fed ++ [(state.emission geometry result).input] = emitted.2.fed ∧
      (if (state.emission geometry result).input.isNone then min (queue.missing + 1) (2 ^ 64 - 1)
        else queue.missing) = emitted.2.missing ∧
      (state.emission geometry result).state.plc = emitted.2.plc := by
  have fields : (state.popped result).2.resetFailed = false ∧
      (state.popped result).2.plc = queue.plc ∧
      (state.popped result).2.finite = state.finite ∧
      (state.popped result).2.plcPositions = state.plcPositions ∧
      (state.popped result).2.plcPosition = state.plcPosition := by
    unfold ConsumerState.popped
    split <;> exact ⟨working, plcEq, rfl, rfl, rfl⟩
  obtain ⟨popped, poppedPlc, finiteEq, positions, cursor⟩ := fields
  have inputEq : (if state.muteHistory.muted (state.emittedSupport result) then some 0
      else (state.popped result).1) = if queue.log.Mutes (state.emittedSupport result)
        then some 0 else queue.sample := if_congr (muted _ (.inl rfl)) rfl sampleEq
  have emissionEq := emission_working popped geometry
  dsimp only at emissionEq
  rw [inputEq] at emissionEq
  unfold PlainQueue.emit PlainQueue.play
  dsimp only
  generalize (if queue.log.Mutes (state.emittedSupport result) then some 0
    else queue.sample) = input at emissionEq ⊢
  rw [concealed_conceal poppedPlc] at emissionEq
  dsimp only at emissionEq
  generalize concealedEq : ({ (state.popped result).2 with
    plc := queue.plc.map fun (plc : Plc F) => (plc.process W input).2 } :
      ConsumerState F Unit W) = concealed at emissionEq
  have kept : concealed.Delays geometry.lookahead queue.log.line ∧ ¬concealed.Draining := by
    rw [← concealedEq]
    refine ⟨delays.agree (by simp only [ConsumerState.retained, finiteEq]) positions cursor, ?_⟩
    rintro ⟨boundary, member, ends⟩
    exact converting ⟨boundary, finiteEq ▸ member, ends⟩
  obtain ⟨playedEq, -⟩ := kept.1.delayPosition kept.2 (state.emittedSupport result)
  obtain ⟨newPositions, newCursor, delayedEq⟩ :=
    ConsumerState.delayPosition_state geometry.lookahead (state.emittedSupport result) concealed
  rw [playedEq, delayedEq, decide_eq_false converts] at emissionEq
  rw [emissionEq]
  refine ⟨?_, rfl, rfl, ?_⟩
  · dsimp only
    congr 1
    exact if_congr (muted _ (.inr rfl)) rfl rfl
  · rw [← concealedEq]
    rfl

omit [Binary64 W] [OrderedBinary64 W] [Widening F W] in
/-- The next cached output is its slot's sample, or nothing for a gap. -/
theorem InOrder.sample (ordered : InOrder line state)
    (pending : state.outputPending ≠ 0) {slot : SourceSample F}
    (slotAt : (line)[state.nextIndex]? = some slot) :
    (state.popped .ready).1 = if slot.missing then none else some (canonicalize slot.pcm) := by
  have positive := Nat.pos_of_ne_zero pending
  obtain ⟨-, flag⟩ := ordered.classified.batch state.outputOffset (Nat.le_refl _) (by omega)
  rw [← ConsumerState.cacheSourcePosition_eq, ordered.position pending] at flag
  have missing : MissingFrom line ((state.nextIndex : Int) * frameUnit) ↔
      slot.missing = true := by
    unfold MissingFrom MissingAt
    rw [Int.mul_ediv_cancel _ (by decide)]
    constructor
    · rintro ⟨index, same, other, otherAt, gap⟩
      obtain rfl : state.nextIndex = index := by omega
      rw [slotAt] at otherAt
      cases otherAt
      exact gap
    · exact fun gap => ⟨state.nextIndex, rfl, slot, slotAt, gap⟩
  have value := ordered.cached 0 positive
  rw [Nat.add_zero, Nat.add_zero] at value
  unfold ConsumerState.popped ConsumerState.nextCached
  rw [if_pos rfl]
  dsimp only
  rw [value]
  unfold pcmAt
  rw [slotAt]
  cases gap : slot.missing with
  | true => rw [if_pos (flag.mpr (missing.mpr gap))]; rfl
  | false =>
      rw [if_neg (fun flagged => Bool.noConfusion (gap.symm.trans (missing.mp (flag.mp flagged))))]
      rfl

omit [OrderedBinary64 W] in
/-- An emission only touches the cache, concealment and the mute history. -/
theorem emission_kept (geometry : Geometry) (state : ConsumerState F Unit W)
    {result : RefillResult} (cached : result = .ready → state.outputPending ≠ 0) :
    ∃ offset pending plc positions cursor history,
      (state.emission geometry result).state = { state with
        outputOffset := offset, outputPending := pending, plc := plc
        plcPositions := positions, plcPosition := cursor, muteHistory := history } ∧
      pending + (if result = .ready then 1 else 0) = state.outputPending := by
  obtain ⟨plc, positions, cursor, history, stateEq⟩ := state.emission_state geometry result
  rw [stateEq]
  by_cases ready : result = .ready
  · have some := cached ready
    rw [if_pos ready]
    unfold ConsumerState.popped
    rw [if_pos ready]
    refine ⟨_, state.outputPending - 1, plc, positions, cursor, history, rfl, ?_⟩
    omega
  · rw [if_neg ready]
    unfold ConsumerState.popped
    rw [if_neg ready]
    exact ⟨_, _, plc, positions, cursor, history, rfl, rfl⟩

theorem Standing.emission (standing : Standing line slots state) (geometry : Geometry)
    {result : RefillResult}
    (cached : result = .ready → state.outputPending ≠ 0) :
    Standing line slots (state.emission geometry result).state ∧
      (state.emission geometry result).state.nextIndex =
        state.nextIndex + if result = .ready then 1 else 0 := by
  have ordered : InOrder line (state.emission geometry result).state := by
    obtain ⟨plc, positions, cursor, history, stateEq⟩ := state.emission_state geometry result
    rw [stateEq]
    exact (standing.ordered.popped result cached).agree ⟨rfl, rfl, rfl, rfl, rfl⟩ rfl
      ⟨rfl, rfl, rfl, rfl, rfl, rfl⟩ ⟨rfl, rfl, rfl⟩ rfl
  obtain ⟨offset, pending, plc, positions, cursor, history, stateEq, pendingEq⟩ :=
    emission_kept geometry state cached
  have whole := standing.ordered.pending_le
  rw [stateEq] at ordered ⊢
  refine ⟨?_, ?_⟩
  · exact
      { ordered := ordered
        split := standing.split
        contiguous := standing.contiguous
        working := standing.working
        ratio := standing.ratio
        clean := standing.clean
        padded := standing.padded
        boundary := standing.boundary }
  · change state.converterAccepted - pending = state.converterAccepted - state.outputPending + _
    omega

theorem Plays.emitted (positive : 0 < geometry.capacity) (plays : Plays geometry queue view)
    (clean : view.started.muteFault = view.consumer.muteFault)
    {before after : ConsumerState F Unit W} {rest : List (SourceSample F)} {result : RefillResult}
    (exitEq : view.exit unitConverter geometry = .emitted rest after result)
    (beforeEq : before = { view.started with quiet := false, primed := true })
    (decides : Decides queue.line rest before after)
    (cached : result = .ready → after.outputPending ≠ 0) (converts : result ≠ .adapterError)
    (ready : result = .ready ↔ queue.emitted < queue.line.length) :
    let emitted := queue.emit W geometry.lookahead (view.exit unitConverter geometry).support
    (view.render unitConverter geometry).1 = emitted.1 ∧
      Plays geometry emitted.2 (view.render unitConverter geometry).2 := by
  have begun := plays.begun clean
  have advances : Adapter.Advances _ _ := unitConverter_advances (F := F) (W := W)
  have hears := (plays.hears.render advances positive).hears
  have heeds := plays.heeds.render unitConverter positive
  have kept : RefillKeeps unitConverter geometry fun (_ : ConsumerState F Unit W) _ => True := by
    constructor <;> intros <;> trivial
  have ended : (view.exit unitConverter geometry).Meets geometry _ view.started.muteHistory :=
    ConsumerState.readyExit_meets kept positive trivial
  have supportEq : (view.exit unitConverter geometry).support = after.emittedSupport result := by
    rw [exitEq]
    cases result <;> rfl
  rw [RingView.render_eq_close] at hears heeds ⊢
  rw [supportEq]
  rw [exitEq] at hears heeds ended ⊢
  obtain ⟨-, historyEq, converting, -, -⟩ := ended
  have beside := decides.beside
  have working := decides.standing.working
  have finiteEq : after.finite = view.started.finite := by
    rw [beside.finite_eq, beforeEq]
  have nextEq : after.nextIndex = queue.emitted := by
    rw [decides.next_eq, beforeEq]
    exact begun.next_eq
  have plcEq : after.plc = queue.plc := by
    rw [beside.plc_eq, beforeEq]
    exact begun.plc_eq
  have delays : after.Delays geometry.lookahead queue.log.line :=
    begun.delays.agree (by simp only [ConsumerState.retained, finiteEq])
      (by rw [beside.plcPositions_eq, beforeEq]) (by rw [beside.plcPosition_eq, beforeEq])
  have sampleEq : (after.popped result).1 = queue.sample := by
    unfold PlainQueue.sample
    by_cases isReady : result = .ready
    · have inside := ready.mp isReady
      have slotAt := List.getElem?_eq_getElem inside
      rw [isReady, slotAt]
      exact decides.standing.ordered.sample (cached isReady)
        ((congrArg (fun index => (queue.line)[index]?) nextEq).trans slotAt)
    · have outside := mt ready.mpr isReady
      rw [List.getElem?_eq_none (not_lt.mp outside)]
      unfold ConsumerState.popped
      rw [if_neg isReady]
      rfl
  obtain ⟨renderedEq, fedEq, missingEq, plcEq'⟩ := emission_emits delays converting
    working plcEq converts sampleEq fun looked looks => by
      rw [historyEq]
      exact plays.muted_iff clean hears.sorted looks
  obtain ⟨standing, advanced⟩ := decides.standing.emission geometry cached
  obtain ⟨offset, pending, plc, positions, cursor, history, stateEq, -⟩ :=
    emission_kept geometry after cached
  refine ⟨renderedEq, ?_⟩
  have flags : (after.emission geometry result).state.quiet = false ∧
      (after.emission geometry result).state.primed = true ∧
      (after.emission geometry result).state.finite = view.started.finite := by
    rw [stateEq]
    refine ⟨?_, ?_, finiteEq⟩
    · change after.quiet = false
      rw [beside.quiet_eq, beforeEq]
    · change after.primed = true
      rw [beside.primed_eq, beforeEq]
  have some_iff := begun.pending_eq
  have reached := plays.reached
  exact
    { standing := standing
      hears := hears
      heeds := heeds
      next_eq := by
        change (after.emission geometry result).state.nextIndex =
          min (queue.emitted + 1) queue.line.length
        rw [advanced, nextEq]
        split <;> rename_i isReady
        · have inside := ready.mp isReady
          omega
        · have outside := mt ready.mpr isReady
          omega
      reached := Nat.min_le_right _ _
      primed_eq := flags.2.1
      quiet_eq := flags.1
      plc_eq := plcEq'
      fed_eq := by
        change (if after.resetFailed then view.fed
          else view.fed ++ [(after.emission geometry result).input]) = _
        rw [working, plays.fed_eq]
        exact fedEq
      missing_eq := by
        change (if (after.emission geometry result).input.isNone then
          min (view.missing + 1) (2 ^ 64 - 1) else view.missing) = _
        rw [plays.missing_eq]
        exact missingEq
      waiting := fun unprimed => by cases unprimed
      unprimed := fun quiet => by cases quiet
      captured := fun captured => by
        have pending : FinishPending view.finish := by
          apply of_decide_eq_true
          rw [← some_iff, ← flags.2.2]
          exact captured
        exact ⟨pending, rfl⟩
      streaming := fun streams => begun.streaming (by
        rw [← some_iff, ← flags.2.2]
        exact Option.isSome_eq_false_iff.mpr (Option.isNone_iff_eq_none.mpr streams))
      draining := fun boundary member => by
        have member : boundary ∈ (after.emission geometry result).state.finite := member
        rw [flags.2.2] at member
        obtain ⟨remains, behind⟩ := begun.draining boundary member
        refine ⟨remains, fun retained => ?_⟩
        have expired := behind retained
        change queue.line.length ≤ min (queue.emitted + 1) queue.line.length
        omega }

omit [Widening F W] in
theorem plays_restart (plcEq : state.plc = queue.plc) (quiet : Bool)
    (consumer : view.consumer = { (state.reset unitConverter).2 with quiet := quiet })
    (slots : view.slots = []) (fed : view.fed = queue.fed) (missing : view.missing = queue.missing)
    (hears : Hears geometry (fun _ => 0) ⟨[], []⟩ view) (heeds : Heeds ⟨[], []⟩ view) :
    Plays geometry (queue.restart quiet) view := by
  have zeroEq := value_int (W := W) 0 (by decide)
  constructor
  · rw [consumer, slots]
    constructor
    · exact .fresh _ ⟨rfl, rfl, rfl, rfl, rfl⟩ rfl rfl rfl
    · exact ⟨rfl, rfl⟩
    · exact ⟨(0, 0), fun index slot mark slotAt => by cases slotAt⟩
    · rfl
    · exact .inl (by exact_mod_cast zeroEq)
    · rfl
    · exact fun padded => by cases padded
    · exact fun boundary member => by cases member
  · exact hears
  · exact heeds
  all_goals try rw [consumer]
  · rfl
  · exact Nat.le_refl 0
  · rfl
  · rfl
  · change state.plc.map Plc.reset = queue.plc.map Plc.reset
    rw [plcEq]
  · exact fed
  · exact missing
  · exact fun _ => rfl
  · exact fun _ => rfl
  · exact fun captured => by cases captured
  · exact fun _ => rfl
  · exact fun boundary member => by cases member

/-- A render behind the last slot releases the lookahead, then ends the stream. -/
theorem Plays.drained (positive : 0 < geometry.capacity) (plays : Plays geometry queue view)
    (clean : view.started.muteFault = view.consumer.muteFault)
    {before after : ConsumerState F Unit W} {rest : List (SourceSample F)} {boundary : Finite}
    (exitEq : view.exit unitConverter geometry = after.drainExit geometry boundary rest)
    (beforeEq : before = { view.started with quiet := false, primed := true })
    (decides : Decides queue.line rest before after) (finiteEq : after.finite = some boundary)
    (pending : FinishPending view.finish) (expired : queue.line.length ≤ queue.emitted) :
    let drained := if queue.released < geometry.lookahead then queue.release geometry.lookahead
      else ((0, false, false), queue.restart true)
    (view.render unitConverter geometry).1 = drained.1 ∧
      Plays geometry drained.2 (view.render unitConverter geometry).2 := by
  have begun := plays.begun clean
  have advances : Adapter.Advances _ _ := unitConverter_advances (F := F) (W := W)
  have hears := (plays.hears.render advances positive).hears
  have heeds := plays.heeds.render unitConverter positive
  have kept : RefillKeeps unitConverter geometry fun (_ : ConsumerState F Unit W) _ => True := by
    constructor <;> intros <;> trivial
  have ended : (view.exit unitConverter geometry).Meets geometry _ view.started.muteHistory :=
    ConsumerState.readyExit_meets kept positive trivial
  have beside := decides.beside
  have startedFinite : view.started.finite = some boundary := by
    rw [← finiteEq, beside.finite_eq, beforeEq]
  have plcEq : after.plc = queue.plc := by
    rw [beside.plc_eq, beforeEq]
    exact begun.plc_eq
  have nextEq : after.nextIndex = queue.emitted := by
    rw [decides.next_eq, beforeEq]
    exact begun.next_eq
  obtain ⟨remains, -⟩ := begun.draining boundary startedFinite
  rw [RingView.render_eq_close] at hears heeds ⊢
  rw [exitEq] at hears heeds ended ⊢
  unfold ConsumerState.drainExit at hears heeds ended ⊢
  by_cases left : ConsumerState.remainingLookahead geometry.lookahead boundary ≠ 0
  · rw [if_pos left] at hears heeds ended ⊢
    rw [if_pos (by omega)]
    have delays : after.Delays geometry.lookahead queue.log.line :=
      begun.delays.agree (by simp only [ConsumerState.retained, finiteEq, startedFinite])
        (by rw [beside.plcPositions_eq, beforeEq]) (by rw [beside.plcPosition_eq, beforeEq])
    obtain ⟨-, historyEq, -, -, -⟩ := ended
    obtain ⟨playedEq, -⟩ := delays.release finiteEq left
    have muted := plays.muted_iff clean hears.sorted (.inr playedEq)
    rw [← historyEq, playedEq] at muted
    have drainedEq : (after.drainLookahead geometry.lookahead boundary).1 =
        ((queue.plc.map Plc.drainSample).map Prod.fst).getD (0, false) ∧
        (after.drainLookahead geometry.lookahead boundary).2.plc =
          (queue.plc.map Plc.drainSample).map Prod.snd := by
      unfold ConsumerState.drainLookahead
      rw [plcEq]
      cases queue.plc <;> exact ⟨rfl, rfl⟩
    refine ⟨?_, ?_⟩
    · change ((if after.muteHistory.muted (after.plcPositions after.plcPosition) then 0
        else (after.drainLookahead geometry.lookahead boundary).1.1,
        (after.drainLookahead geometry.lookahead boundary).1.2, false) : Rendered F) = _
      rw [drainedEq.1, playedEq]
      exact congrArg (fun sample : F => (sample, _, false)) (if_congr muted rfl rfl)
    · obtain ⟨plc, releaseEq⟩ := release_cases geometry after boundary
      have standing := decides.standing
      have stop := standing.boundary boundary finiteEq
      have flags : (after.release geometry boundary).2.plc =
          (queue.plc.map Plc.drainSample).map Prod.snd := drainedEq.2
      rw [releaseEq] at flags
      constructor
      · change Standing queue.line rest (after.release geometry boundary).2
        rw [releaseEq]
        exact
          { ordered := standing.ordered.agree ⟨rfl, rfl, rfl, rfl, rfl⟩ rfl
              ⟨rfl, rfl, rfl, rfl, rfl, rfl⟩ ⟨rfl, rfl, rfl⟩ rfl
            split := standing.split
            contiguous := standing.contiguous
            working := standing.working
            ratio := standing.ratio
            clean := standing.clean
            padded := fun _ => rfl
            boundary := fun other member => by
              cases member
              exact stop }
      · exact hears
      · exact heeds
      all_goals
        try
          simp only [RenderExit.close]
          rw [releaseEq]
      · exact nextEq
      · exact plays.reached
      · change after.primed = true
        rw [beside.primed_eq, beforeEq]
      · change after.quiet = false
        rw [beside.quiet_eq, beforeEq]
      · exact flags
      · exact plays.fed_eq
      · exact plays.missing_eq
      · exact fun unprimed => by cases unprimed
      · exact fun quiet => by cases quiet
      · exact fun _ => ⟨pending, rfl⟩
      · exact fun streams => by cases streams
      · intro other member
        cases member
        refine ⟨?_, fun _ => expired⟩
        change ConsumerState.remainingLookahead geometry.lookahead boundary - 1 +
          (queue.released + 1) = geometry.lookahead
        omega
  · rw [if_neg left] at hears heeds ended ⊢
    rw [if_neg (by omega)]
    have none : rest = [] := by
      have whole := decides.standing.split.whole
      have ordered := decides.standing.ordered
      apply List.eq_nil_of_length_eq_zero
      cases padding : after.inputPadding with
      | true =>
          have ended := ordered.classified.padded padding
          omega
      | false =>
          have sum := ordered.sum padding
          unfold ConsumerState.nextIndex at nextEq
          omega
    refine ⟨rfl, plays_restart plcEq true rfl ?_ plays.fed_eq plays.missing_eq hears heeds⟩
    exact none

theorem Plays.rested (positive : 0 < geometry.capacity) (plays : Plays geometry queue view)
    (clean : view.started.muteFault = view.consumer.muteFault)
    (rests : queue.Rests geometry (decide (FinishPending view.finish)))
    (exitEq : view.exit unitConverter geometry = .silent view.slots { view.started with
      quiet := view.started.quiet && view.slots.isEmpty } false) :
    (view.render unitConverter geometry).1 = (0, false, false) ∧
      Plays geometry { queue with quiet := queue.quiet && queue.line.isEmpty }
        (view.render unitConverter geometry).2 := by
  have begun := plays.begun clean
  have advances : Adapter.Advances _ _ := unitConverter_advances (F := F) (W := W)
  have hears := (plays.hears.render advances positive).hears
  have heeds := plays.heeds.render unitConverter positive
  rw [RingView.render_eq_close, exitEq] at hears heeds ⊢
  have idle : decide (FinishPending view.finish) = false := rests.1
  have quietEq : (view.started.quiet && view.slots.isEmpty) =
      (queue.quiet && queue.line.isEmpty) := by
    rw [begun.quiet_eq, idle]
    cases quiet : queue.quiet with
    | false => rfl
    | true =>
        have untaken := begun.standing.split.rest
        rw [begun.waiting (begun.unprimed quiet), List.drop_zero] at untaken
        rw [untaken]
        rfl
  have streaming : view.started.finite = none := by
    apply Option.not_isSome_iff_eq_none.mp
    rw [begun.pending_eq, idle]
    decide
  refine ⟨rfl, ?_⟩
  exact
    { standing := begun.standing.flagged _ view.started.primed
      hears := hears
      heeds := heeds
      next_eq := begun.next_eq
      reached := plays.reached
      primed_eq := begun.primed_eq
      quiet_eq := quietEq
      plc_eq := begun.plc_eq
      fed_eq := plays.fed_eq
      missing_eq := plays.missing_eq
      waiting := begun.waiting
      unprimed := fun quiet => begun.unprimed (Bool.and_eq_true_iff.mp quiet).1
      captured := fun captured => by
        have captured : view.started.finite.isSome = true := captured
        rw [streaming] at captured
        cases captured
      streaming := fun _ => begun.streaming idle
      draining := begun.draining }

omit [OrderedBinary64 W] [Widening F W] in
/-- A boundary that still holds something to convert does not drain. -/
theorem primedExit_converting {adapter : Adapter F W Unit} (converting : ¬state.Draining) :
    state.primedExit adapter geometry slots = state.outputExit adapter geometry slots := by
  unfold ConsumerState.primedExit
  cases state.finite with
  | none => rfl
  | some boundary => exact if_neg converting

/-- What a render that does not rest converts from. -/
structure Woken (geometry : Geometry) (queue : PlainQueue F) (view : RingView F Unit W)
    (before : ConsumerState F Unit W) : Prop where
  before_eq : before = { view.started with quiet := false, primed := true }
  standing : Standing queue.line view.slots before
  next_eq : before.nextIndex = queue.emitted
  finite_eq : before.finite = view.started.finite
  exit_eq : view.exit unitConverter geometry =
    before.primedExit unitConverter geometry view.slots
  converts : ¬before.Draining → view.exit unitConverter geometry =
    before.outputExit unitConverter geometry view.slots

omit [Widening F W] in
theorem Plays.awake (plays : Plays geometry queue view)
    (clean : view.started.muteFault = view.consumer.muteFault)
    (awake : ¬queue.Rests geometry (decide (FinishPending view.finish))) :
    ∃ before, Woken geometry queue view before := by
  have begun := plays.begun clean
  rcases (begun.standing.readyExit : view.started.Rests geometry view.slots ∧ _ ∨ _) with
    ⟨rests, -⟩ | ⟨-, exitEq⟩
  · exact (awake (begun.rests_iff.mp rests)).elim
  refine ⟨_, rfl, begun.standing.flagged false true, begun.next_eq, rfl, exitEq, ?_⟩
  exact fun converting => Eq.trans exitEq (primedExit_converting converting)

omit [Widening F W] in
theorem Plays.found (unit : geometry.AtUnitRate W) (plays : Plays geometry queue view)
    (clean : view.started.muteFault = view.consumer.muteFault)
    {before : ConsumerState F Unit W} (awake : Woken geometry queue view before)
    (found : queue.emitted < queue.line.length) :
    ∃ rest after, view.exit unitConverter geometry = .emitted rest after .ready ∧
      Decides queue.line rest before after ∧ after.outputPending ≠ 0 := by
  have begun := plays.begun clean
  have standing := awake.standing
  have converting : ¬before.Draining := by
    rintro ⟨boundary, member, ends⟩
    rcases ends with zero | retained
    · rw [standing.boundary boundary member] at zero
      omega
    · have expired := (begun.draining boundary (awake.finite_eq ▸ member)).2 retained
      omega
  obtain ⟨rest, after, emittedEq, kept, cached⟩ :=
    standing.emits unit (awake.next_eq.symm ▸ found)
  exact ⟨rest, after, (awake.converts converting).trans emittedEq, kept, cached⟩

omit [Widening F W] in
/-- Without a boundary the end of the stream is a shortfall. -/
theorem Plays.starved (unit : geometry.AtUnitRate W) (plays : Plays geometry queue view)
    (clean : view.started.muteFault = view.consumer.muteFault)
    {before : ConsumerState F Unit W} (awake : Woken geometry queue view before)
    (ended : queue.line.length ≤ queue.emitted) (idle : ¬FinishPending view.finish) :
    ∃ after, view.exit unitConverter geometry = .emitted [] after .starved ∧
      Decides queue.line [] before after := by
  have begun := plays.begun clean
  have streaming : before.finite = none := by
    apply Option.not_isSome_iff_eq_none.mp
    rw [awake.finite_eq, begun.pending_eq, decide_eq_false idle]
    decide
  have outputs := awake.converts fun ⟨boundary, member, _⟩ => by
    rw [streaming] at member
    cases member
  obtain ⟨after, starvedEq, kept, -⟩ :=
    awake.standing.starves unit (awake.next_eq.symm ▸ ended) streaming
  exact ⟨after, outputs.trans starvedEq, kept⟩

theorem Plays.render_aside (unit : geometry.AtUnitRate W) (plays : Plays geometry queue view)
    (clean : view.started.muteFault = view.consumer.muteFault)
    (idle : ¬FinishPending view.finish) :
    (view.render unitConverter geometry).2.account = view.account ∧
      (view.render unitConverter geometry).2.finish = view.finish := by
  have begun := plays.begun clean
  rw [RingView.render_eq_close]
  by_cases rests : queue.Rests geometry (decide (FinishPending view.finish))
  · rcases (begun.standing.readyExit : view.started.Rests geometry view.slots ∧ _ ∨ _) with
      ⟨-, exitEq⟩ | ⟨awake, -⟩
    · have exitEq : view.exit unitConverter geometry = _ := exitEq
      rw [exitEq]
      exact ⟨rfl, rfl⟩
    · exact (awake (begun.rests_iff.mpr rests)).elim
  · obtain ⟨before, awake⟩ := plays.awake clean rests
    by_cases found : queue.emitted < queue.line.length
    · obtain ⟨rest, after, exitEq, -⟩ := plays.found unit clean awake found
      rw [exitEq]
      exact ⟨rfl, rfl⟩
    · obtain ⟨after, exitEq, -⟩ := plays.starved unit clean awake (not_lt.mp found) idle
      rw [exitEq]
      exact ⟨rfl, rfl⟩

theorem Plays.render (unit : geometry.AtUnitRate W) (plays : Plays geometry queue view)
    (clean : view.started.muteFault = view.consumer.muteFault) :
    let rendered := queue.render W geometry (decide (FinishPending view.finish))
      (view.exit unitConverter geometry).support
    (view.render unitConverter geometry).1 = rendered.1 ∧
      Plays geometry rendered.2 (view.render unitConverter geometry).2 := by
  have positive := unit.sized
  have begun := plays.begun clean
  unfold PlainQueue.render
  by_cases rests : queue.Rests geometry (decide (FinishPending view.finish))
  · rw [if_pos rests]
    rcases (begun.standing.readyExit : view.started.Rests geometry view.slots ∧ _ ∨ _) with
      ⟨-, exitEq⟩ | ⟨awake, -⟩
    · exact plays.rested positive clean rests exitEq
    · exact (awake (begun.rests_iff.mpr rests)).elim
  rw [if_neg rests]
  obtain ⟨before, awake⟩ := plays.awake clean rests
  have standing := awake.standing
  by_cases found : queue.emitted < queue.line.length
  · rw [if_pos found]
    obtain ⟨rest, after, exitEq, kept, cached⟩ := plays.found unit clean awake found
    exact plays.emitted positive clean exitEq awake.before_eq kept (fun _ => cached) (by decide)
      (iff_of_true rfl found)
  rw [if_neg found]
  have ended : queue.line.length ≤ before.nextIndex := awake.next_eq ▸ not_lt.mp found
  by_cases pending : FinishPending view.finish
  · rw [decide_eq_true pending, if_neg (by decide)]
    have some : before.finite.isSome = true := by
      rw [awake.finite_eq, begun.pending_eq]
      exact decide_eq_true pending
    obtain ⟨boundary, boundaryEq⟩ := Option.isSome_iff_exists.mp some
    by_cases draining : before.Draining
    · have drains : view.exit unitConverter geometry =
          before.drainExit geometry boundary view.slots := by
        rw [awake.exit_eq]
        unfold ConsumerState.primedExit
        rw [boundaryEq]
        exact if_pos draining
      exact plays.drained positive clean drains awake.before_eq ⟨standing, .refl before, rfl⟩
        boundaryEq pending (not_lt.mp found)
    · obtain ⟨rest, after, drainsEq, kept⟩ := standing.drains unit ended boundaryEq
      exact plays.drained positive clean ((awake.converts draining).trans drainsEq)
        awake.before_eq kept (kept.beside.finite_eq.trans boundaryEq) pending (not_lt.mp found)
  · rw [decide_eq_false pending, if_pos rfl]
    obtain ⟨after, starvedEq, kept⟩ := plays.starved unit clean awake (not_lt.mp found) pending
    have emitted := plays.emitted positive clean starvedEq awake.before_eq kept
      (fun ready => by cases ready) (by decide)
      (iff_of_false (fun ready => by cases ready) found)
    rw [starvedEq] at emitted
    exact emitted

end Playing

end PcmRing
