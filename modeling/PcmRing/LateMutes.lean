import PcmRing.MuteHistory
import PcmRing.PacedPositions

/-!
# Late mutes reach every cache

An output is silent when its source support meets any mute interval accepted
before the render that plays it began, however far its source had come by then:
taken, converted, or waiting in the lookahead of concealment.
-/

namespace PcmRing

open TwoLapQueue

variable {F S W : Type}

/-- What a stream has handed to the delay of the lookahead, the source support
of each sample, newest first, and the mute intervals it was credited with. -/
structure StreamLog where
  line : List (Option Position)
  accepted : List Interval

namespace StreamLog

/-- The source support of the latest output: it waited for the lookahead. -/
def support (lookahead : Nat) (log : StreamLog) : Option Position :=
  (log.line[lookahead]?).join

/-- What one render adds. -/
def close (exit : RenderExit F S W) (log : StreamLog) : StreamLog :=
  match exit with
  | .silent .. => log
  | .completed .. => ⟨[], []⟩
  | .released .. => { log with line := none :: log.line }
  | .emitted _ state result =>
      { log with line := (if result = .ready then state.cachePosition else none) :: log.line }

variable [Binary32 F] [Binary64 W] [Widening F W] (adapter : Adapter F W S) (geometry : Geometry)

/-- What one call adds. -/
def perform (call : RingCall F) (view : RingView F S W) (log : StreamLog) : StreamLog :=
  match call with
  | ⟨.producer, call⟩ =>
      { log with
        accepted := log.accepted ++
          (view.produce geometry call).2.account.records.drop view.account.records.length }
  | ⟨.consumer, .render⟩ => log.close (view.exit adapter geometry)
  | ⟨.consumer, .reset⟩ => ⟨[], []⟩

/-- The log after a run. -/
def performAll : List (RingCall F) → RingView F S W → StreamLog → StreamLog
  | [], _, log => log
  | call :: rest, view, log =>
      performAll rest (view.perform adapter geometry call).2 (log.perform adapter geometry call view)

end StreamLog

namespace ConsumerState

/-- Lookahead positions that are still to be played. -/
def retained (lookahead : Nat) (state : ConsumerState F S W) : Nat :=
  (state.finite.bind Finite.plcRemaining).getD lookahead

/-- The ring of positions holds the newest part of the line, oldest at the cursor. -/
structure Delays (lookahead : Nat) (line : List (Option Position)) (state : ConsumerState F S W) :
    Prop where
  cursor : 0 < lookahead → state.plcPosition < lookahead
  retained_le : state.retained lookahead ≤ lookahead
  held : ∀ index < state.retained lookahead,
    state.plcPositions ((state.plcPosition + index) % lookahead) =
      ((line)[lookahead - 1 - index]?).join

variable {lookahead : Nat} {line : List (Option Position)} {state after : ConsumerState F S W}

theorem Delays.agree (delays : Delays lookahead line state)
    (retained : after.retained lookahead = state.retained lookahead)
    (positions : after.plcPositions = state.plcPositions)
    (cursor : after.plcPosition = state.plcPosition) : Delays lookahead line after := by
  refine ⟨?_, ?_, ?_⟩
  · rw [cursor]
    exact delays.cursor
  · rw [retained]
    exact delays.retained_le
  · rw [retained, positions, cursor]
    exact delays.held

theorem retained_of_not_draining (converting : ¬state.Draining) :
    state.retained lookahead = lookahead := by
  unfold ConsumerState.retained
  cases finiteEq : state.finite with
  | none => rfl
  | some boundary =>
      cases remaining : boundary.plcRemaining with
      | none => simp [remaining]
      | some count =>
          exact (converting ⟨boundary, finiteEq, .inr (by simp [remaining])⟩).elim

/-- Indices of the ring of positions that differ by less than a lap are different cells. -/
theorem cursor_succ_ne {cursor index : Nat} (cursorLt : cursor < lookahead)
    (indexLt : index + 1 < lookahead) : ((cursor + 1) % lookahead + index) % lookahead ≠ cursor := by
  rw [Nat.mod_add_mod]
  rcases Nat.lt_or_ge (cursor + 1 + index) lookahead with small | large
  · rw [Nat.mod_eq_of_lt small]
    omega
  · rw [Nat.mod_eq_sub_mod large, Nat.mod_eq_of_lt (by omega)]
    omega

theorem cursor_succ_add (cursor index : Nat) :
    ((cursor + 1) % lookahead + index) % lookahead = (cursor + (index + 1)) % lookahead := by
  rw [Nat.mod_add_mod, Nat.add_assoc, Nat.add_comm 1]

/-- Feeding a position answers the one that waited for the lookahead. -/
theorem Delays.delayPosition (delays : Delays lookahead line state)
    (converting : ¬state.Draining) (position : Option Position) :
    (state.delayPosition lookahead position).1 = ((position :: line)[lookahead]?).join ∧
      Delays lookahead (position :: line) (state.delayPosition lookahead position).2 := by
  have retained : state.retained lookahead = lookahead := retained_of_not_draining converting
  have held := delays.held
  rw [retained] at held
  unfold ConsumerState.delayPosition
  by_cases direct : lookahead = 0
  · rw [if_pos direct]
    subst direct
    exact ⟨by cases position <;> rfl, delays.cursor, delays.retained_le,
      fun index inside => (Nat.not_lt_zero _ (Nat.lt_of_lt_of_le inside delays.retained_le)).elim⟩
  rw [if_neg direct]
  have positive := Nat.pos_of_ne_zero direct
  have cursor := delays.cursor positive
  refine ⟨?_, ?_, ?_, ?_⟩
  · have oldest := held 0 positive
    rw [Nat.add_zero, Nat.mod_eq_of_lt cursor] at oldest
    obtain ⟨last, rfl⟩ := Nat.exists_eq_succ_of_ne_zero direct
    exact oldest
  · exact fun _ => Nat.mod_lt _ positive
  · exact delays.retained_le
  · intro index inside
    have inside : index < lookahead := Nat.lt_of_lt_of_le inside delays.retained_le
    dsimp only
    rcases Nat.lt_or_ge (index + 1) lookahead with early | late
    · rw [Function.update_of_ne (cursor_succ_ne cursor early), cursor_succ_add,
        held (index + 1) early]
      have shift : lookahead - 1 - index = lookahead - 1 - (index + 1) + 1 := by omega
      rw [shift, List.getElem?_cons_succ]
    · obtain rfl : index = lookahead - 1 := by omega
      have same : ((state.plcPosition + 1) % lookahead + (lookahead - 1)) % lookahead =
          state.plcPosition := by
        rw [Nat.mod_add_mod, show state.plcPosition + 1 + (lookahead - 1) =
          state.plcPosition + lookahead by omega, Nat.add_mod_right, Nat.mod_eq_of_lt cursor]
      rw [same, Function.update_self, Nat.sub_self]
      cases position <;> rfl

/-- Releasing a retained sample plays the position that waited for the lookahead. -/
theorem Delays.release [Binary32 F] {geometry : Geometry} {boundary : Finite}
    (delays : Delays geometry.lookahead line state) (finiteEq : state.finite = some boundary)
    (remaining : remainingLookahead geometry.lookahead boundary ≠ 0) :
    state.plcPositions state.plcPosition = ((none :: line)[geometry.lookahead]?).join ∧
      Delays geometry.lookahead (none :: line) (state.release geometry boundary).2 := by
  obtain ⟨plc, releaseEq⟩ := release_cases geometry state boundary
  have retained : state.retained geometry.lookahead =
      remainingLookahead geometry.lookahead boundary := by
    unfold ConsumerState.retained remainingLookahead
    rw [finiteEq]
    rfl
  have le := delays.retained_le
  have positive : 0 < geometry.lookahead := by omega
  have cursor := delays.cursor positive
  have held := delays.held
  rw [retained] at held le
  have oldest := held 0 (Nat.pos_of_ne_zero remaining)
  rw [Nat.add_zero, Nat.mod_eq_of_lt cursor] at oldest
  have shift : geometry.lookahead = geometry.lookahead - 1 - 0 + 1 := by omega
  refine ⟨?_, ?_⟩
  · rw [oldest]
    conv_rhs => rw [shift, List.getElem?_cons_succ]
  rw [releaseEq]
  refine ⟨fun _ => Nat.mod_lt _ positive, ?_, fun index inside => ?_⟩
  · change remainingLookahead geometry.lookahead boundary - 1 ≤ geometry.lookahead
    omega
  · have inside : index < remainingLookahead geometry.lookahead boundary - 1 := inside
    change state.plcPositions
      (((state.plcPosition + 1) % geometry.lookahead + index) % geometry.lookahead) = _
    rw [cursor_succ_add, held (index + 1) (by omega)]
    have next : geometry.lookahead - 1 - index = geometry.lookahead - 1 - (index + 1) + 1 := by
      omega
    rw [next, List.getElem?_cons_succ]

theorem delaysKept [Binary32 F] [Binary64 W] {adapter : Adapter F W S} {geometry : Geometry}
    (lookahead : Nat) (line : List (Option Position)) : RefillKeeps adapter geometry
      fun (state : ConsumerState F S W) _ => Delays lookahead line state where
  flags _ _ delays := delays.agree rfl rfl rfl
  space wanted _ delays := by
    unfold makeInputSpace
    split
    · exact delays
    · exact delays.agree rfl rfl rfl
  take {state slot rest} _ _ delays := by
    have fenced : Delays lookahead line (state.fence slot.stamp).2 := by
      rcases state.fence_cases slot.stamp with
        ⟨_, fenced⟩ | ⟨mark, _, _, fenced⟩ | ⟨mark, _, _, fenced⟩ <;> rw [fenced] <;>
        exact delays.agree rfl rfl rfl
    rcases state.acceptSource_cases geometry.gapCapacity slot with
      ⟨gaps, _, _, accepted⟩ | ⟨_, accepted⟩ | ⟨_, _, _, accepted⟩ <;> rw [accepted]
    · exact fenced.agree rfl rfl rfl
    · exact fenced.agree rfl rfl rfl
    · exact fenced.agree rfl rfl rfl
  pad _ _ delays := by
    unfold padInput
    split
    · exact delays.agree rfl rfl rfl
    · exact delays
  query _ delays := delays.agree rfl rfl rfl
  steer _ _ _ delays := delays.agree rfl rfl rfl
  convert {state slots} _ delays := by
    have ran := state.convert_cases adapter geometry (min geometry.capacity converterQuantum)
    generalize (state.convert adapter geometry (min geometry.capacity converterQuantum)).1 =
      result at ran
    generalize (state.convert adapter geometry (min geometry.capacity converterQuantum)).2 =
      converted at ran ⊢
    cases ran <;> exact delays.agree rfl rfl rfl

end ConsumerState

/-- The history holds on to an interval for every support that may still be played. -/
def History.Covers (history : History) (lookahead : Nat) (line : List (Option Position))
    (interval : Interval) : Prop :=
  ∀ position, (∀ played, some played ∈ line.drop lookahead →
    played.generation = position.generation ∧ played.low ≤ position.low) →
      interval.Meets position → history.Meets position

/-- Supports do not go back. -/
def Follows (newer older : Option Position) : Prop :=
  ∀ late, newer = some late → ∀ early, older = some early →
    early.generation = late.generation ∧ early.low ≤ late.low

/-- The consumer between two calls, against what its stream has played and heard. -/
structure Hears (geometry : Geometry) (delay : S → Int) (log : StreamLog)
    (view : RingView F S W) : Prop where
  paced : view.consumer.Paced delay log.line
  delays : view.consumer.Delays geometry.lookahead log.line
  ordered : view.consumer.muteHistory.Ordered
  sorted : log.line.Pairwise Follows
  covers : view.consumer.muteFault = false → ∀ interval ∈ log.accepted,
    interval ∈ view.records ∨
      view.consumer.muteHistory.Covers geometry.lookahead log.line interval

section Outputs

variable {lookahead : Nat} {line : List (Option Position)} {position : Option Position}
  {history : History}

/-- An accepted interval silences the next output that it meets. -/
theorem muted_of_covers (ordered : history.Ordered) (sorted : (position :: line).Pairwise Follows)
    {interval : Interval} (covers : history.Covers lookahead line interval) {played : Position}
    (support : ((position :: line)[lookahead]?).join = some played)
    (meets : interval.Meets played) : history.muted (some played) = true := by
  refine (History.muted_iff ordered).mpr (covers played (fun early member => ?_) meets)
  have at' : (position :: line)[lookahead]? = some (some played) := by
    cases entry : (position :: line)[lookahead]? with
    | none => simp [entry] at support
    | some entry =>
        rw [entry, Option.join_some] at support
        rw [support]
  obtain ⟨bound, entryEq⟩ := List.getElem?_eq_some_iff.mp at'
  have split := List.drop_eq_getElem_cons bound
  have rest := sorted.sublist (List.drop_sublist lookahead _)
  rw [split, List.pairwise_cons, List.drop_succ_cons] at rest
  exact rest.1 _ member played entryEq early rfl

/-- Playing an output retires only what no later output meets. -/
theorem covers_retire {interval : Interval} (covers : history.Covers lookahead line interval) :
    (history.retire ((position :: line)[lookahead]?).join).Covers lookahead (position :: line)
      interval := by
  intro later behind meets
  have earlier : ∀ played, some played ∈ line.drop lookahead →
      played.generation = later.generation ∧ played.low ≤ later.low := by
    intro played member
    refine behind played (List.mem_of_mem_tail ?_)
    rw [List.tail_drop, List.drop_succ_cons]
    exact member
  have met := covers later earlier meets
  cases entry : (position :: line)[lookahead]? with
  | none => exact met
  | some entry' =>
      cases entry' with
      | none => exact met
      | some played =>
          have member : some played ∈ (position :: line).drop lookahead := by
            obtain ⟨bound, entryEq⟩ := List.getElem?_eq_some_iff.mp entry
            rw [List.drop_eq_getElem_cons bound, entryEq]
            exact .head _
          obtain ⟨generation, low⟩ := behind played member
          exact met.retire generation low

end Outputs

section Emission

variable [Binary32 F] [Binary64 W] [Widening F W] {geometry : Geometry} {delay : S → Int}
  {line : List (Option Position)} {state : ConsumerState F S W} {result : RefillResult}

/-- The support an emission adds to the line. -/
def ConsumerState.emittedSupport (result : RefillResult) (state : ConsumerState F S W) :
    Option Position :=
  if result = .ready then state.cachePosition else none

/-- An emission exchanges its support with the one that waited, looks that one
up and retires it. -/
theorem ConsumerState.emission_eq (geometry : Geometry) (result : RefillResult)
    (state : ConsumerState F S W) : ∃ output : (F × Bool) × ConsumerState F S W,
      (∃ plc, output.2 = { (state.popped result).2 with plc := plc }) ∧
      let delayed := output.2.delayPosition geometry.lookahead (state.emittedSupport result)
      (state.emission geometry result).rendered.1 =
          (if state.muteHistory.muted delayed.1 then 0 else output.1.1) ∧
        (state.emission geometry result).state = delayed.2.retirePosition delayed.1 := by
  have output (input : Option F) : ∃ plc, (if (state.popped result).2.resetFailed
      then ((0, false), (state.popped result).2)
      else (state.popped result).2.concealed input).2 =
        { (state.popped result).2 with plc := plc } := by
    split
    · exact ⟨_, rfl⟩
    · exact ConsumerState.concealed_state input _
  exact ⟨_, output _, rfl, rfl⟩

/-- An emission plays the support that waited for the lookahead, silent if the
history mutes it, and retires it. -/
theorem ConsumerState.Delays.emission (delays : state.Delays geometry.lookahead line)
    (converting : ¬state.Draining) :
    let played := ((state.emittedSupport result :: line)[geometry.lookahead]?).join
    (state.muteHistory.muted played = true → (state.emission geometry result).rendered.1 = 0) ∧
      (state.emission geometry result).state.Delays geometry.lookahead
        (state.emittedSupport result :: line) ∧
      (state.emission geometry result).state.muteHistory = state.muteHistory.retire played := by
  have popped : (state.popped result).2.finite = state.finite ∧
      (state.popped result).2.plcPositions = state.plcPositions ∧
      (state.popped result).2.plcPosition = state.plcPosition ∧
      (state.popped result).2.muteHistory = state.muteHistory := by
    unfold ConsumerState.popped
    split <;> exact ⟨rfl, rfl, rfl, rfl⟩
  obtain ⟨output, ⟨plc, outputEq⟩, sampleEq, stateEq⟩ := state.emission_eq geometry result
  rw [outputEq] at sampleEq stateEq
  have same : ConsumerState.Delays geometry.lookahead line
      { (state.popped result).2 with plc := plc } :=
    delays.agree (by simp only [ConsumerState.retained, popped.1]) popped.2.1 popped.2.2.1
  have streaming : ¬ConsumerState.Draining { (state.popped result).2 with plc := plc } := by
    rintro ⟨boundary, member, ends⟩
    exact converting ⟨boundary, popped.1 ▸ member, ends⟩
  obtain ⟨playedEq, delayed⟩ := same.delayPosition streaming (state.emittedSupport result)
  have history : (ConsumerState.delayPosition geometry.lookahead (state.emittedSupport result)
      { (state.popped result).2 with plc := plc }).2.muteHistory = state.muteHistory := by
    rw [← popped.2.2.2]
    unfold ConsumerState.delayPosition
    split <;> rfl
  rw [sampleEq, stateEq, playedEq]
  refine ⟨fun muted => if_pos muted, delayed.agree rfl rfl rfl, ?_⟩
  unfold ConsumerState.retirePosition
  rw [history]

end Emission

/-- Receiving records only touches the history and the fault; without a fault
nothing is lost. -/
theorem receiveAll_heard (records : List Interval) (state : ConsumerState F S W)
    (ordered : state.muteHistory.Ordered) : ∃ history fault,
      state.receiveAll records = { state with muteHistory := history, muteFault := fault } ∧
      history.Ordered ∧ (fault = false → state.muteFault = false ∧ ∀ position,
        (∃ interval ∈ records, interval.Meets position) ∨ state.muteHistory.Meets position →
          history.Meets position) := by
  unfold ConsumerState.receiveAll
  induction records generalizing state with
  | nil =>
      refine ⟨state.muteHistory, state.muteFault, rfl, ordered, fun clean => ⟨clean, ?_⟩⟩
      rintro position (⟨interval, member, -⟩ | met)
      · cases member
      · exact met
  | cons interval records ih =>
      obtain ⟨history, fault, receivedEq, orderedLast, kept⟩ :=
        ih (state.receive interval) (ordered.insert interval)
      refine ⟨history, fault, receivedEq, orderedLast, fun clean => ?_⟩
      obtain ⟨cleanFirst, keptRest⟩ := kept clean
      simp only [ConsumerState.receive, Bool.or_eq_false_iff, Bool.not_eq_false'] at cleanFirst
      obtain ⟨cleanState, inserted⟩ := cleanFirst
      refine ⟨cleanState, fun position met => keptRest position ?_⟩
      rcases met with ⟨other, member, meets⟩ | met
      · rcases List.mem_cons.mp member with rfl | later
        · exact .inr ((History.meets_insert inserted).mpr (.inl meets))
        · exact .inl ⟨other, later, meets⟩
      · exact .inr ((History.meets_insert inserted).mpr (.inr met))

section Runs

variable {geometry : Geometry} {delay : S → Int} {log : StreamLog} {view : RingView F S W}

/-- The consumer once the boundary and the records are taken in. -/
theorem Hears.started (hears : Hears geometry delay log view) :
    view.started.Paced delay log.line ∧
      view.started.Delays geometry.lookahead log.line ∧
      view.started.muteHistory.Ordered ∧
      (view.started.muteFault = false → ∀ interval ∈ log.accepted,
        view.started.muteHistory.Covers geometry.lookahead log.line interval) := by
  have captured : ∃ captured : ConsumerState F S W,
      view.started = captured.receiveAll view.records ∧
      captured.Paced delay log.line ∧ captured.Delays geometry.lookahead log.line ∧
      captured.muteHistory = view.consumer.muteHistory ∧
      captured.muteFault = view.consumer.muteFault := by
    refine ⟨_, rfl, ?_⟩
    split
    · rename_i pending
      have absent := Option.isNone_iff_eq_none.mp pending.2
      refine ⟨⟨hears.paced.cached, hears.paced.behind⟩, hears.delays.agree ?_ rfl rfl, rfl, rfl⟩
      simp [ConsumerState.retained, ConsumerState.capture, absent]
    · exact ⟨hears.paced, hears.delays, rfl, rfl⟩
  obtain ⟨captured, startedEq, paced, delays, historyEq, faultEq⟩ := captured
  obtain ⟨history, fault, receivedEq, ordered, kept⟩ :=
    receiveAll_heard view.records captured (historyEq ▸ hears.ordered)
  rw [startedEq, receivedEq]
  refine ⟨⟨paced.cached, paced.behind⟩, delays.agree rfl rfl rfl, ordered, ?_⟩
  intro clean interval member position behind meets
  obtain ⟨clean, kept⟩ := kept clean
  rw [faultEq] at clean
  rw [historyEq] at kept
  rcases hears.covers clean interval member with waiting | covers
  · exact kept position (.inl ⟨interval, waiting, meets⟩)
  · exact kept position (.inr (covers position behind meets))

variable [Binary32 F] [Binary64 W] [Widening F W] {adapter : Adapter F W S}

omit [Widening F W] in
theorem hears_reset (state : ConsumerState F S W) (quiet : Bool)
    (consumer : view.consumer = { (state.reset adapter).2 with quiet := quiet }) :
    Hears geometry delay ⟨[], []⟩ view where
  paced := by
    rw [consumer]
    exact ⟨fun pending => (pending rfl).elim, fun _ member => (List.not_mem_nil member).elim⟩
  delays := by
    rw [consumer]
    exact ⟨fun positive => positive, Nat.le_refl _, fun _ _ => rfl⟩
  ordered := by
    rw [consumer]
    exact History.ordered_clear
  sorted := .nil
  covers _ _ member := (List.not_mem_nil member).elim

/-- What holds of a render and of the consumer it leaves behind. -/
structure HeardEnd (geometry : Geometry) (delay : S → Int) (accepted : List Interval)
    (log : StreamLog) (rendered : Rendered F × RingView F S W) : Prop where
  hears : Hears geometry delay log rendered.2
  silent : ∀ played, log.support geometry.lookahead = some played →
    (∃ interval ∈ accepted, interval.Meets played) → rendered.1.1 = 0

/-- A render plays nothing that an accepted interval meets. -/
theorem Hears.render (advances : adapter.Advances delay) (positive : 0 < geometry.capacity)
    (hears : Hears geometry delay log view) :
    HeardEnd geometry delay log.accepted (log.close (view.exit adapter geometry))
      (view.render adapter geometry) := by
  obtain ⟨paced, delays, ordered, covers⟩ := hears.started
  rw [RingView.render_eq_close]
  by_cases fault : view.started.muteFault = true
  · have exitEq : view.exit adapter geometry = .silent view.slots view.started true := if_pos fault
    rw [exitEq]
    exact
      { hears :=
          { paced, delays, ordered
            sorted := hears.sorted
            covers := fun clean => by
              change view.started.muteFault = false at clean
              rw [fault] at clean
              cases clean }
        silent := fun _ _ _ => rfl }
  have covers := covers (Bool.eq_false_iff.mpr fault)
  have kept : RefillKeeps adapter geometry _ := (ConsumerState.pacedKept advances log.line).and
    (ConsumerState.delaysKept geometry.lookahead log.line)
  have ended : (view.exit adapter geometry).Meets geometry _ view.started.muteHistory :=
    ConsumerState.readyExit_meets kept positive ⟨paced, delays⟩
  generalize view.exit adapter geometry = exit at ended ⊢
  cases exit with
  | silent slots state errored =>
      obtain ⟨⟨paced, delays⟩, historyEq⟩ := ended
      exact
        { hears :=
            { paced, delays
              ordered := historyEq ▸ ordered
              sorted := hears.sorted
              covers := fun _ interval member => .inr (historyEq ▸ covers interval member) }
          silent := fun _ _ _ => rfl }
  | completed slots state boundary failed =>
      exact
        { hears := hears_reset state true rfl
          silent := fun _ played => by cases played }
  | released slots state boundary =>
      obtain ⟨⟨paced, delays⟩, historyEq, finiteEq, -, remaining⟩ := ended
      have sorted : (none :: log.line).Pairwise Follows :=
        List.pairwise_cons.mpr ⟨fun _ _ _ late => (by cases late), hears.sorted⟩
      obtain ⟨playedEq, delaysAfter⟩ := delays.release finiteEq remaining
      obtain ⟨plc, releaseEq⟩ := release_cases geometry state boundary
      have retired : (state.release geometry boundary).2.muteHistory =
          view.started.muteHistory.retire ((none :: log.line)[geometry.lookahead]?).join := by
        rw [releaseEq, ← playedEq, ← historyEq]
        rfl
      refine
        { hears :=
            { paced := ?_
              delays := delaysAfter
              ordered := retired ▸ ordered.retire _
              sorted := sorted
              covers := fun _ interval member =>
                .inr (retired ▸ covers_retire (covers interval member)) }
          silent := fun played support met => ?_ }
      · change ConsumerState.Paced delay (none :: log.line) (state.release geometry boundary).2
        rw [releaseEq]
        exact ⟨paced.cached, fun position member =>
          paced.behind position ((List.mem_cons.mp member).resolve_left (by simp))⟩
      · obtain ⟨interval, member, meets⟩ := met
        have support : ((none :: log.line)[geometry.lookahead]?).join = some played := support
        have muted := muted_of_covers ordered sorted (covers interval member) support meets
        rw [← support, ← playedEq, ← historyEq] at muted
        exact if_pos muted
  | emitted slots state result =>
      obtain ⟨⟨paced, delays⟩, historyEq, converting, -, ready⟩ := ended
      have sorted : (state.emittedSupport result :: log.line).Pairwise Follows := by
        refine List.pairwise_cons.mpr ⟨fun older member late lateEq early earlyEq => ?_,
          hears.sorted⟩
        unfold ConsumerState.emittedSupport at lateEq
        split at lateEq
        · rename_i isReady
          exact paced.low_le (ready isReady) lateEq (earlyEq ▸ member)
        · cases lateEq
      obtain ⟨silent, delaysAfter, retired⟩ : _ ∧
          (state.emission geometry result).state.Delays geometry.lookahead _ ∧ _ :=
        delays.emission converting
      rw [historyEq] at silent retired
      refine
        { hears :=
            { paced := ?_
              delays := delaysAfter
              ordered := retired ▸ ordered.retire _
              sorted := sorted
              covers := fun _ interval member =>
                .inr (retired ▸ covers_retire (covers interval member)) }
          silent := fun played support met => ?_ }
      · obtain ⟨plc, plcPositions, plcPosition, muteHistory, stateEq⟩ :=
          state.emission_state geometry result
        have popped := paced.popped ready
        change ConsumerState.Paced delay _ (state.emission geometry result).state
        rw [stateEq]
        exact ⟨popped.cached, popped.behind⟩
      · obtain ⟨interval, member, meets⟩ := met
        have muted := muted_of_covers ordered sorted (covers interval member) support meets
        refine silent ?_
        rw [← muted]
        exact congrArg _ support

omit [Binary64 W] [Widening F W] in
/-- A producer call leaves the consumer alone and its records become readable. -/
theorem produce_records (call : ProducerCall F) (view : RingView F S W) :
    (view.produce geometry call).2.consumer = view.consumer ∧
      (view.produce geometry call).2.records = view.records ++
        (view.produce geometry call).2.account.records.drop view.account.records.length := by
  let appends (after : RingView F S W) : Prop :=
    after.consumer = view.consumer ∧
      after.records = view.records ++ after.account.records.drop view.account.records.length
  have rejected {after : RingView F S W} (consumer : after.consumer = view.consumer)
      (records : after.records = view.records) (account : after.account = view.account) :
      appends after :=
    ⟨consumer, by rw [records, account, List.drop_length, List.append_nil]⟩
  have grown (account : ProducerAccount F) : appends (view.produced account) := ⟨rfl, rfl⟩
  have block (samples : List (SourceSample F)) :
      appends (view.publishBlock geometry samples).2 := by
    unfold RingView.publishBlock
    split
    · exact rejected rfl rfl rfl
    · exact grown _
  change appends (view.produce geometry call).2
  unfold RingView.produce
  cases call with
  | pushSample sample =>
      dsimp only
      split
      · exact rejected rfl rfl rfl
      · exact grown _
  | push input => exact block _
  | gap samples => exact block _
  | pushTagged input generation sourceStart spans =>
      dsimp only
      split
      · exact rejected rfl rfl rfl
      split
      · exact rejected rfl rfl rfl
      split
      · exact rejected rfl rfl rfl
      · exact grown _
  | mute generation spans =>
      dsimp only
      split
      · exact rejected rfl rfl rfl
      split
      · exact rejected rfl rfl rfl
      · exact grown _
  | finish =>
      dsimp only
      split
      · exact rejected rfl rfl rfl
      split
      · exact rejected rfl rfl rfl
      · exact rejected rfl rfl rfl
  | status token => exact rejected rfl rfl rfl

theorem Hears.perform (advances : adapter.Advances delay) (positive : 0 < geometry.capacity)
    (hears : Hears geometry delay log view) (call : RingCall F) :
    Hears geometry delay (log.perform adapter geometry call view)
      (view.perform adapter geometry call).2 := by
  obtain ⟨party, call⟩ := call
  cases party with
  | producer =>
      obtain ⟨consumer, records⟩ : (view.produce geometry call).2.consumer = view.consumer ∧ _ :=
        produce_records call view
      change Hears geometry delay _ (view.produce geometry call).2
      refine
        { paced := consumer ▸ hears.paced
          delays := consumer ▸ hears.delays
          ordered := consumer ▸ hears.ordered
          sorted := hears.sorted
          covers := fun clean interval member => ?_ }
      rw [consumer] at clean ⊢
      rw [records]
      rcases List.mem_append.mp member with earlier | fresh
      · exact (hears.covers clean interval earlier).imp_left (List.mem_append_left _)
      · exact .inl (List.mem_append_right _ fresh)
  | consumer =>
      cases call with
      | render => exact (hears.render advances positive).hears
      | reset => exact hears_reset view.consumer (view.consumer.reset adapter).2.quiet rfl

theorem Hears.performAll (advances : adapter.Advances delay) (positive : 0 < geometry.capacity)
    (hears : Hears geometry delay log view) (calls : List (RingCall F)) :
    Hears geometry delay (log.performAll adapter geometry calls view)
      (view.performAll adapter geometry calls).2 := by
  induction calls generalizing view log with
  | nil => exact hears
  | cons call rest ih => exact ih (hears.perform advances positive call)

omit [Widening F W] in
theorem hears_created {settings : Settings} {ring : Ring F S W}
    (created : Ring.create adapter settings = .ok (geometry, ring)) :
    Hears geometry delay ⟨[], []⟩ (ring.view geometry) := by
  obtain ⟨-, outputDelay, queued, converter, rfl, rfl⟩ := create_cases created
  exact
    { paced := ⟨fun pending => (pending rfl).elim, fun _ member => (List.not_mem_nil member).elim⟩
      delays := ⟨fun positive => positive, Nat.le_refl _, fun _ _ => rfl⟩
      ordered := History.ordered_new _
      sorted := .nil
      covers := fun _ _ member => (List.not_mem_nil member).elim }

/-- An output whose source support meets an interval accepted before its render
is exactly zero, in either mode of concealment and while a boundary drains. -/
theorem late_mutes_silence_outputs {settings : Settings} {ring : Ring F S W}
    (created : Ring.create adapter settings = .ok (geometry, ring))
    (advances : adapter.Advances delay) (calls : List (RingCall F)) :
    let before := (ring.performAll adapter geometry calls).2
    let log := StreamLog.performAll adapter geometry calls (ring.view geometry) ⟨[], []⟩
    let played := log.perform adapter geometry ⟨.consumer, .render⟩ (before.view geometry)
    ∀ support, played.support geometry.lookahead = some support →
      ∀ interval ∈ log.accepted, interval.Meets support →
        ∃ missing errored, (before.perform adapter geometry ⟨.consumer, .render⟩).1 =
          ⟨.consumer, .rendered (0, missing, errored)⟩ := by
  intro before log played support supportEq interval member meets
  have positive : 0 < geometry.capacity :=
    Nat.lt_of_lt_of_le (by decide) (create_capacity created)
  obtain ⟨holds, viewed⟩ := performAll_view adapter (producerHolds_created created) calls
  obtain ⟨-, rendered⟩ := perform_view adapter holds ⟨.consumer, .render⟩
  have heard : Hears geometry delay ⟨[], []⟩ _ := hears_created created
  have hears := heard.performAll advances positive calls
  rw [← congrArg Prod.snd viewed] at hears
  have silent := (hears.render advances positive).silent support supportEq
    ⟨interval, member, meets⟩
  have reply := congrArg Prod.fst rendered
  generalize renderEq : (before.view geometry).render adapter geometry = output at silent
  obtain ⟨⟨sample, missing, errored⟩, after⟩ := output
  obtain rfl : sample = 0 := silent
  refine ⟨missing, errored, reply.trans ?_⟩
  change (⟨.consumer, .rendered ((before.view geometry).render adapter geometry).1⟩ : RingReply F) =
    _
  rw [renderEq]

end Runs

omit F S W in
theorem unitConverter_advances {F W : Type} [Binary32 F] [Binary64 W] :
    (unitConverter (F := F) (W := W)).Advances fun _ => 0 where
  nonneg _ := Int.le_refl 0
  reports _ _ := rfl
  inputDelay _ := Int.le_refl 0
  queuedInput _ := Int.le_refl 0
  process _ input outputLength ratio := by
    dsimp only
    rw [Int.zero_add]
    exact Int.mul_nonneg (Int.natCast_nonneg _) (Int.natCast_nonneg _)

/-- What a render behind the calls puts out. -/
def nextOutput (calls : List (RingCall ℚ)) (geometry : Geometry) (ring : Ring ℚ Unit ℚ) :
    Option (Rendered ℚ) :=
  ((ring.performAll unitConverter geometry calls).2.perform unitConverter geometry
    ⟨.consumer, .render⟩).1.output

/-- That render plays a position which an accepted interval meets. -/
def heedsNext (calls : List (RingCall ℚ)) (geometry : Geometry) (ring : Ring ℚ Unit ℚ) : Bool :=
  let log := StreamLog.performAll unitConverter geometry calls (ring.view geometry) ⟨[], []⟩
  let played := log.perform unitConverter geometry ⟨.consumer, .render⟩
    ((ring.performAll unitConverter geometry calls).2.view geometry)
  (played.support geometry.lookahead).any fun support =>
    log.accepted.any fun interval => decide (interval.Meets support)

/-- A mute arrives while its sample is cached, and while it is retained in the
lookahead; before the mute the render would have played the sample. -/
theorem late_mutes_silence_cached_and_retained :
    (∃ geometry ring, Ring.create unitConverter smallSettings = .ok (geometry, ring) ∧
      let calls : List (RingCall ℚ) :=
        [⟨.producer, .pushTagged [1 / 2, 1 / 4, 1 / 8] 0 0 []⟩, ⟨.consumer, .render⟩]
      (ring.performAll unitConverter geometry calls).2.consumer.outputPending = 2 ∧
        nextOutput calls geometry ring = some (1 / 4, true, false) ∧
        ∃ missing errored, nextOutput (calls ++ [⟨.producer, .mute 0 [⟨1, 2⟩]⟩]) geometry ring =
          some (0, missing, errored)) ∧
    ∃ geometry ring, Ring.create unitConverter concealedSettings = .ok (geometry, ring) ∧
      let calls : List (RingCall ℚ) :=
        [⟨.producer, .pushTagged [1 / 2, 1 / 4] 0 0 []⟩, ⟨.producer, .finish⟩,
          ⟨.consumer, .render⟩]
      nextOutput calls geometry ring = some (1 / 2, true, false) ∧
        ∃ missing errored, nextOutput (calls ++ [⟨.producer, .mute 0 [⟨0, 1⟩]⟩]) geometry ring =
          some (0, missing, errored) := by
  have silenced {settings : Settings} {geometry : Geometry} {ring : Ring ℚ Unit ℚ}
      (created : Ring.create unitConverter settings = .ok (geometry, ring))
      {calls : List (RingCall ℚ)} (heeds : heedsNext calls geometry ring = true) :
      ∃ missing errored, nextOutput calls geometry ring = some (0, missing, errored) := by
    obtain ⟨support, supportEq, heard⟩ := (Option.any_eq_true _ _).mp heeds
    obtain ⟨interval, member, meets⟩ := List.any_eq_true.mp heard
    obtain ⟨missing, errored, silent⟩ := late_mutes_silence_outputs created
      unitConverter_advances calls support supportEq interval member (of_decide_eq_true meets)
    exact ⟨missing, errored, congrArg RingReply.output silent⟩
  constructor
  · let calls : List (RingCall ℚ) :=
      [⟨.producer, .pushTagged [1 / 2, 1 / 4, 1 / 8] 0 0 []⟩, ⟨.consumer, .render⟩]
    obtain ⟨geometry, ring, created, checked⟩ := exists_created (unitConverter (F := ℚ) (W := ℚ))
      smallSettings (fun geometry ring =>
        decide ((ring.performAll unitConverter geometry calls).2.consumer.outputPending = 2) &&
          (decide (nextOutput calls geometry ring = some (1 / 4, true, false)) &&
            heedsNext (calls ++ [⟨.producer, .mute 0 [⟨1, 2⟩]⟩]) geometry ring))
      (by decide +kernel)
    simp only [Bool.and_eq_true, decide_eq_true_eq] at checked
    obtain ⟨cached, played, heeds⟩ := checked
    exact ⟨geometry, ring, created, cached, played, silenced created heeds⟩
  · let calls : List (RingCall ℚ) :=
      [⟨.producer, .pushTagged [1 / 2, 1 / 4] 0 0 []⟩, ⟨.producer, .finish⟩, ⟨.consumer, .render⟩]
    obtain ⟨geometry, ring, created, checked⟩ := exists_created (unitConverter (F := ℚ) (W := ℚ))
      concealedSettings (fun geometry ring =>
        decide (nextOutput calls geometry ring = some (1 / 2, true, false)) &&
          heedsNext (calls ++ [⟨.producer, .mute 0 [⟨0, 1⟩]⟩]) geometry ring)
      (by decide +kernel)
    simp only [Bool.and_eq_true, decide_eq_true_eq] at checked
    exact ⟨geometry, ring, created, checked.1, silenced created checked.2⟩

end PcmRing
