import PcmRing.ReachedStreams
import PcmRing.PlainPlayout

/-!
# A finite stream drains exactly

Behind a boundary the ring at unit rate emits the slots that are left, releases
the lookahead and completes, one render at a time.
-/

namespace PcmRing

open TwoLapQueue

variable {F W : Type}

/-- The next render of a queue behind its boundary completes the stream. -/
def PlainQueue.Over (geometry : Geometry) (pending : Bool) (queue : PlainQueue F) : Prop :=
  pending = true ∧ queue.line.length ≤ queue.emitted ∧ geometry.lookahead ≤ queue.released

instance (geometry : Geometry) (pending : Bool) (queue : PlainQueue F) :
    Decidable (queue.Over geometry pending) :=
  inferInstanceAs (Decidable (_ ∧ _))

section Ending

variable [Binary32 F] [Binary64 W] [OrderedBinary64 W] [Widening F W] {geometry : Geometry}
  {queue : PlainQueue F} {view : RingView F Unit W}

omit [OrderedBinary64 W] in
theorem render_records : (view.render unitConverter geometry).2.records = [] := by
  rw [RingView.render_eq_close]
  cases view.exit unitConverter geometry with
  | completed slots state boundary failed => exact ite_self _
  | silent | released | emitted => rfl

/-- What a render does to the log, the producer and the finish word. -/
structure RenderEnds (geometry : Geometry) (queue : PlainQueue F) (view : RingView F Unit W)
    (log : StreamLog) : Prop where
  log_eq : log = queue.log.perform unitConverter geometry ⟨.consumer, .render⟩ view
  expired : queue.Over geometry (decide (FinishPending view.finish)) →
    (view.render unitConverter geometry).2.account = { view.account with stamp := none } ∧
      ∃ boundary ∈ view.started.finite, (view.render unitConverter geometry).2.finish =
        boundary.token * 4 + FinishStatus.drained.bits
  aside : ¬queue.Over geometry (decide (FinishPending view.finish)) →
    (view.render unitConverter geometry).2.account = view.account ∧
      (view.render unitConverter geometry).2.finish = view.finish ∧
      (view.render unitConverter geometry).2.consumer.finite.map Finite.token =
        view.started.finite.map Finite.token

/-- A boundary with nothing left to convert releases, then completes. -/
theorem Plays.drained_ends (plays : Plays geometry queue view)
    (clean : view.started.muteFault = view.consumer.muteFault)
    {before after : ConsumerState F Unit W} {rest : List (SourceSample F)} {boundary : Finite}
    (exitEq : view.exit unitConverter geometry = after.drainExit geometry boundary rest)
    (awake : Woken geometry queue view before) (decides : Decides queue.line rest before after)
    (finiteEq : after.finite = some boundary) (pending : FinishPending view.finish)
    (expired : queue.line.length ≤ queue.emitted) :
    RenderEnds geometry queue view
      (if queue.released < geometry.lookahead then queue.release geometry.lookahead
        else ((0, false, false), queue.restart true)).2.log := by
  have startedFinite : view.started.finite = some boundary := by
    rw [← finiteEq, decides.beside.finite_eq, awake.finite_eq]
  obtain ⟨remains, -⟩ := (plays.begun clean).draining boundary startedFinite
  unfold ConsumerState.drainExit at exitEq
  by_cases left : ConsumerState.remainingLookahead geometry.lookahead boundary ≠ 0
  · rw [if_pos left] at exitEq
    rw [if_pos (by omega)]
    have retained : ¬queue.Over geometry (decide (FinishPending view.finish)) := by
      rintro ⟨-, -, released⟩
      omega
    obtain ⟨plc, releaseEq⟩ := release_cases geometry after boundary
    constructor
    · change _ = queue.log.close (view.exit unitConverter geometry)
      rw [exitEq]
      rfl
    · exact fun ends => (retained ends).elim
    · intro _
      rw [RingView.render_eq_close, exitEq, startedFinite]
      refine ⟨rfl, rfl, ?_⟩
      change (after.release geometry boundary).2.finite.map Finite.token = _
      rw [releaseEq]
      rfl
  · rw [if_neg left] at exitEq
    rw [if_neg (by omega)]
    constructor
    · change _ = queue.log.close (view.exit unitConverter geometry)
      rw [exitEq]
      rfl
    · intro _
      rw [RingView.render_eq_close, exitEq]
      exact ⟨rfl, boundary, startedFinite, rfl⟩
    · refine fun ends => (ends ⟨decide_eq_true pending, expired, ?_⟩).elim
      omega

theorem Plays.render_ends (unit : geometry.AtUnitRate W) (plays : Plays geometry queue view)
    (clean : view.started.muteFault = view.consumer.muteFault) :
    RenderEnds geometry queue view
      (queue.render W geometry (decide (FinishPending view.finish))
        (view.exit unitConverter geometry).support).2.log := by
  have begun := plays.begun clean
  unfold PlainQueue.render
  by_cases rests : queue.Rests geometry (decide (FinishPending view.finish))
  · rw [if_pos rests]
    rcases (begun.standing.readyExit : view.started.Rests geometry view.slots ∧ _ ∨ _) with
      ⟨-, exitEq⟩ | ⟨awake, -⟩
    · have exitEq : view.exit unitConverter geometry = _ := exitEq
      constructor
      · change _ = queue.log.close (view.exit unitConverter geometry)
        rw [exitEq]
        rfl
      · exact fun ends => Bool.noConfusion (rests.1.symm.trans ends.1)
      · intro _
        rw [RingView.render_eq_close, exitEq]
        exact ⟨rfl, rfl, rfl⟩
    · exact (awake (begun.rests_iff.mpr rests)).elim
  rw [if_neg rests]
  obtain ⟨before, awake⟩ := plays.awake clean rests
  by_cases found : queue.emitted < queue.line.length
  · rw [if_pos found]
    obtain ⟨rest, after, exitEq, kept, -⟩ := plays.found unit clean awake found
    have finiteEq : after.finite = view.started.finite :=
      kept.beside.finite_eq.trans awake.finite_eq
    constructor
    · change _ = queue.log.close (view.exit unitConverter geometry)
      rw [exitEq]
      rfl
    · exact fun ends => (not_lt.mpr ends.2.1 found).elim
    · intro _
      rw [RingView.render_eq_close, exitEq, ← finiteEq]
      refine ⟨rfl, rfl, ?_⟩
      exact congrArg (Option.map Finite.token) (emission_finite geometry .ready)
  rw [if_neg found]
  by_cases pending : FinishPending view.finish
  · rw [decide_eq_true pending, if_neg (by decide)]
    have some : before.finite.isSome = true := by
      rw [awake.finite_eq, begun.pending_eq]
      exact decide_eq_true pending
    obtain ⟨boundary, boundaryEq⟩ := Option.isSome_iff_exists.mp some
    by_cases draining : before.Draining
    · have drains : view.exit unitConverter geometry =
          before.drainExit geometry boundary view.slots := by
        rw [awake.exit_eq]
        unfold ConsumerState.primedExit
        rw [boundaryEq]
        exact if_pos draining
      exact plays.drained_ends clean drains awake ⟨awake.standing, .refl before, rfl⟩ boundaryEq
        pending (not_lt.mp found)
    · obtain ⟨rest, after, drainsEq, kept⟩ :=
        awake.standing.drains unit (awake.next_eq ▸ not_lt.mp found) boundaryEq
      exact plays.drained_ends clean ((awake.converts draining).trans drainsEq) awake kept
        (kept.beside.finite_eq.trans boundaryEq) pending (not_lt.mp found)
  · rw [decide_eq_false pending, if_pos rfl]
    obtain ⟨after, exitEq, kept⟩ := plays.starved unit clean awake (not_lt.mp found) pending
    have finiteEq : after.finite = view.started.finite :=
      kept.beside.finite_eq.trans awake.finite_eq
    constructor
    · change _ = queue.log.close (view.exit unitConverter geometry)
      rw [exitEq]
      rfl
    · exact fun ends => (pending (of_decide_eq_true ends.1)).elim
    · intro _
      rw [RingView.render_eq_close, exitEq, ← finiteEq]
      refine ⟨rfl, rfl, ?_⟩
      exact congrArg (Option.map Finite.token) (emission_finite geometry .starved)

end Ending

/-- Calls that set no boundary and do not reset. -/
def DrainCall : RingCall F → Prop
  | ⟨.producer, .finish⟩ | ⟨.consumer, .reset⟩ => False
  | ⟨.producer, _⟩ | ⟨.consumer, .render⟩ => True

section Latched

variable [Binary32 F] [Binary64 W] [Widening F W] {geometry : Geometry} {view : RingView F Unit W}

omit [Binary32 F] [Binary64 W] [Widening F W] in
theorem muteFault_of_started (clean : view.started.muteFault = false) :
    view.consumer.muteFault = false := by
  have received (records : List Interval) (state : ConsumerState F Unit W)
      (clean : (state.receiveAll records).muteFault = false) : state.muteFault = false := by
    unfold ConsumerState.receiveAll at clean
    induction records generalizing state with
    | nil => exact clean
    | cons interval records ih => exact (Bool.or_eq_false_iff.mp (ih _ clean)).1
  have captured := received view.records _ clean
  split at captured <;> exact captured

theorem started_of_render
    (clean : (view.render unitConverter geometry).2.consumer.muteFault = false) :
    view.started.muteFault = false := by
  refine Bool.eq_false_iff.mpr fun latched => ?_
  unfold RingView.render RingView.renderReady at clean
  rw [if_pos latched] at clean
  exact Bool.noConfusion (latched.symm.trans clean)

/-- No call but a reset clears a fault. -/
theorem muteFault_of_perform {call : RingCall F} (drains : DrainCall call)
    (clean : (view.perform unitConverter geometry call).2.consumer.muteFault = false) :
    view.consumer.muteFault = false := by
  obtain ⟨party, call⟩ := call
  cases party with
  | producer =>
      obtain ⟨consumer, -⟩ : view.Grows (view.produce geometry call).2 :=
        RingView.grows_produce call
      exact (congrArg ConsumerState.muteFault consumer).symm.trans clean
  | consumer =>
      cases call with
      | render => exact muteFault_of_started (started_of_render clean)
      | reset => exact drains.elim

theorem muteFault_of_performAll {calls : List (RingCall F)}
    (drains : ∀ call ∈ calls, DrainCall call)
    (clean : (view.performAll unitConverter geometry calls).2.consumer.muteFault = false) :
    view.consumer.muteFault = false := by
  induction calls generalizing view with
  | nil => exact clean
  | cons call rest ih =>
      apply muteFault_of_perform (drains call List.mem_cons_self)
      exact ih (fun later member => drains later (List.mem_cons_of_mem _ member)) clean

end Latched

/-- How many renders a run holds. -/
def renders : List (RingCall F) → Nat
  | [] => 0
  | ⟨.consumer, .render⟩ :: rest => renders rest + 1
  | _ :: rest => renders rest

/-- So many renders behind a boundary, what is left of a stream; the producer is as
it was. -/
structure Finishing [Binary32 F] [Binary64 W] [OrderedBinary64 W] (geometry : Geometry)
    (token : Nat) (account : ProducerAccount F) (start : PlainQueue F) (count : Nat)
    (queue : PlainQueue F) (view : RingView F Unit W) : Prop where
  plays : Plays geometry queue view
  pending : FinishPending view.finish
  token_eq : view.finish = token * 4
  tokens : ∀ boundary ∈ view.consumer.finite, boundary.token = token
  line_eq : queue.line = start.line
  emitted_eq : queue.emitted = min (start.emitted + count) start.line.length
  released_eq : queue.released = start.emitted + count - start.line.length
  counted : ∃ inputs, queue.fed = start.fed ++ inputs ∧
    inputs.length = queue.emitted - start.emitted ∧
    queue.missing = min (start.missing + inputs.countP Option.isNone) (2 ^ 64 - 1)
  published_eq : view.account.published = account.published
  discarded_eq : view.account.discarded = account.discarded

section Finishing

variable [Binary32 F] [Binary64 W] [OrderedBinary64 W] [Widening F W] {geometry : Geometry}
  {queue start : PlainQueue F} {view : RingView F Unit W} {token count : Nat}
  {account : ProducerAccount F}

namespace Finishing

omit [Widening F W] in
theorem over_iff (finishing : Finishing geometry token account start count queue view)
    (reached : start.emitted ≤ start.line.length) :
    queue.Over geometry (decide (FinishPending view.finish)) ↔
      start.line.length - start.emitted + geometry.lookahead ≤ count := by
  have lineEq := finishing.line_eq
  have emittedEq := finishing.emitted_eq
  have releasedEq := finishing.released_eq
  unfold PlainQueue.Over
  rw [decide_eq_true finishing.pending, lineEq, emittedEq, releasedEq]
  constructor
  · rintro ⟨-, emitted, released⟩
    omega
  · intro many
    refine ⟨rfl, ?_, ?_⟩ <;> omega

/-- Nothing is published behind a boundary. -/
theorem produce (positive : 0 < geometry.capacity)
    (finishing : Finishing geometry token account start count queue view) (call : ProducerCall F) :
    Finishing geometry token account start count
      (queue.accept [] ((view.produce geometry call).2.account.records.drop
        view.account.records.length))
      (view.produce geometry call).2 := by
  obtain ⟨-, finish, -, published, discarded, -⟩ :=
    produce_pending geometry finishing.pending call
  obtain ⟨consumer, -⟩ : view.Grows (view.produce geometry call).2 := RingView.grows_produce call
  have none : (view.produce geometry call).2.account.published.drop
      view.account.published.length = [] := by
    rw [published, List.drop_length]
  have plays := finishing.plays.produce positive call (by
    rw [none, List.append_nil]
    exact finishing.plays.standing.contiguous)
  rw [none] at plays
  constructor
  · exact plays
  · exact finish.symm ▸ finishing.pending
  · exact finish.trans finishing.token_eq
  · exact consumer.symm ▸ finishing.tokens
  · exact (List.append_nil _).trans finishing.line_eq
  · exact finishing.emitted_eq
  · exact finishing.released_eq
  · exact finishing.counted
  · exact published.trans finishing.published_eq
  · exact discarded.trans finishing.discarded_eq

omit [Widening F W] in
/-- The boundary that a render works on is that of the finish word. -/
theorem started_token (finishing : Finishing geometry token account start count queue view)
    (boundary : Finite) (member : boundary ∈ view.started.finite) : boundary.token = token := by
  obtain ⟨history, fault, receivedEq⟩ := receiveAll_cases view.records
    (if FinishPending view.finish ∧ view.consumer.finite.isNone = true then
      view.consumer.capture view.finish view.slots.length else view.consumer)
  unfold RingView.started at member
  dsimp only at member
  rw [receivedEq] at member
  change boundary ∈ (if _ then _ else _ : ConsumerState F Unit W).finite at member
  split at member
  · cases member
    change view.finish / 4 = token
    rw [finishing.token_eq, Nat.mul_div_cancel _ (by decide)]
  · exact finishing.tokens boundary member

omit [Binary32 F] [Binary64 W] [OrderedBinary64 W] [Widening F W] in
/-- One more input is counted if it is missing. -/
theorem count_input {missing first limit : Nat} {inputs : List (Option F)}
    (counted : missing = min (first + inputs.countP Option.isNone) limit) (input : Option F) :
    (if input.isNone then min (missing + 1) limit else missing) =
      min (first + (inputs ++ [input]).countP Option.isNone) limit := by
  rw [List.countP_append, counted]
  cases input with
  | none =>
      rw [show [(none : Option F)].countP Option.isNone = 1 from rfl, Option.isNone_none,
        if_pos rfl]
      omega
  | some sample =>
      rw [show [some sample].countP Option.isNone = 0 from rfl, Option.isNone_some,
        if_neg (by decide), Nat.add_zero]

/-- Until the stream is over a render emits a slot or releases a sample. -/
theorem render (unit : geometry.AtUnitRate W)
    (finishing : Finishing geometry token account start count queue view)
    (reached : start.emitted ≤ start.line.length)
    (few : count < start.line.length - start.emitted + geometry.lookahead)
    (clean : view.started.muteFault = false) :
    Finishing geometry token account start (count + 1)
      (queue.render W geometry true (view.exit unitConverter geometry).support).2
      (view.render unitConverter geometry).2 := by
  have same : view.started.muteFault = view.consumer.muteFault :=
    clean.trans (muteFault_of_started clean).symm
  have ends := finishing.plays.render_ends unit same
  obtain ⟨-, plays⟩ := finishing.plays.render unit same
  obtain ⟨accountEq, finish, tokens⟩ :=
    ends.aside fun expired => (not_le.mpr few) ((finishing.over_iff reached).mp expired)
  rw [decide_eq_true finishing.pending] at plays
  have lineEq := finishing.line_eq
  have lengthsEq := congrArg List.length lineEq
  have emittedEq := finishing.emitted_eq
  have releasedEq := finishing.released_eq
  obtain ⟨inputs, fedEq, lengthEq, missingEq⟩ := finishing.counted
  have kept (boundary : Finite)
      (member : boundary ∈ (view.render unitConverter geometry).2.consumer.finite) :
      boundary.token = token := by
    rw [Option.mem_def.mp member, Option.map_some] at tokens
    obtain ⟨earlier, earlierEq, tokenEq⟩ := Option.map_eq_some_iff.mp tokens.symm
    exact tokenEq ▸ finishing.started_token earlier earlierEq
  constructor
  · exact plays
  · exact finish.symm ▸ finishing.pending
  · exact finish.trans finishing.token_eq
  · exact kept
  rotate_right 2
  · exact (congrArg ProducerAccount.published accountEq).trans finishing.published_eq
  · exact (congrArg ProducerAccount.discarded accountEq).trans finishing.discarded_eq
  all_goals
    unfold PlainQueue.render
    rw [if_neg fun rests => Bool.noConfusion rests.1]
    by_cases found : queue.emitted < queue.line.length
  all_goals first
    | rw [if_pos found]
    | rw [if_neg found, if_neg (by decide), if_pos (by omega)]
  · exact lineEq
  · exact lineEq
  · change min (queue.emitted + 1) queue.line.length = _
    omega
  · change queue.emitted = _
    omega
  · change queue.released = _
    omega
  · change queue.released + 1 = _
    omega
  · refine ⟨inputs ++ [if queue.log.Mutes (view.exit unitConverter geometry).support then some 0
      else queue.sample], ?_, ?_, ?_⟩
    · change queue.fed ++ [_] = _
      rw [fedEq, List.append_assoc]
    · change _ = min (queue.emitted + 1) queue.line.length - start.emitted
      rw [List.length_append, List.length_singleton]
      omega
    · exact count_input missingEq _
  · exact ⟨inputs, fedEq, lengthEq, missingEq⟩

theorem performAll (unit : geometry.AtUnitRate W)
    (finishing : Finishing geometry token account start count queue view)
    (reached : start.emitted ≤ start.line.length) {calls : List (RingCall F)}
    (drains : ∀ call ∈ calls, DrainCall call)
    (few : count + renders calls ≤ start.line.length - start.emitted + geometry.lookahead)
    (clean : (view.performAll unitConverter geometry calls).2.consumer.muteFault = false) :
    ∃ ended, Finishing geometry token account start (count + renders calls) ended
        (view.performAll unitConverter geometry calls).2 ∧
      ended.log = queue.log.performAll unitConverter geometry calls view := by
  induction calls generalizing view queue count with
  | nil => exact ⟨queue, finishing, rfl⟩
  | cons call rest ih =>
      have later : ∀ call ∈ rest, DrainCall call :=
        fun call member => drains call (List.mem_cons_of_mem _ member)
      obtain ⟨party, call⟩ := call
      cases party with
      | producer => exact ih (finishing.produce unit.sized call) later few clean
      | consumer =>
          cases call with
          | reset => exact (drains _ List.mem_cons_self).elim
          | render =>
              have few : count + (renders rest + 1) ≤
                start.line.length - start.emitted + geometry.lookahead := few
              have started : view.started.muteFault = false :=
                started_of_render (muteFault_of_performAll later clean)
              have next := finishing.render unit reached (by omega) started
              have ends := finishing.plays.render_ends unit
                (started.trans (muteFault_of_started started).symm)
              rw [decide_eq_true finishing.pending] at ends
              obtain ⟨ended, kept, logEq⟩ := ih next later (by omega) clean
              refine ⟨ended, ?_, ?_⟩
              · have grown : count + 1 + renders rest = count + (renders rest + 1) := by omega
                exact grown ▸ kept
              · rw [logEq, ends.log_eq]
                rfl

end Finishing

/-- Calls that publish nothing and set no boundary. -/
def IdleCall : RingCall F → Prop
  | ⟨.consumer, .render⟩ | ⟨.producer, .mute ..⟩ | ⟨.producer, .status _⟩ => True
  | _ => False

/-- Behind a completed stream, before the next publication. -/
structure Finished (geometry : Geometry) (token : Nat) (fed : List (Option F)) (missing : Nat)
    (queue : PlainQueue F) (view : RingView F Unit W) : Prop where
  plays : Plays geometry queue view
  word : view.finish = token * 4 + FinishStatus.drained.bits
  quiet : queue.quiet = true
  empty : queue.line = []
  unstamped : view.account.stamp = none
  heard : view.records = []
  fed_eq : view.fed = fed
  missing_eq : view.missing = missing

/-- The render behind the last released sample completes the boundary. -/
theorem Finishing.complete (unit : geometry.AtUnitRate W)
    (finishing : Finishing geometry token account start count queue view)
    (reached : start.emitted ≤ start.line.length)
    (all : start.line.length - start.emitted + geometry.lookahead ≤ count)
    (clean : view.started.muteFault = false) :
    (view.render unitConverter geometry).1 = (0, false, false) ∧
      Finished geometry token view.fed view.missing (queue.restart true)
        (view.render unitConverter geometry).2 := by
  have same : view.started.muteFault = view.consumer.muteFault :=
    clean.trans (muteFault_of_started clean).symm
  have expired := (finishing.over_iff reached).mpr all
  obtain ⟨accountEq, boundary, member, word⟩ :=
    (finishing.plays.render_ends unit same).expired expired
  obtain ⟨rendered, plays⟩ := finishing.plays.render unit same
  obtain ⟨-, emitted, released⟩ := expired
  rw [decide_eq_true finishing.pending] at rendered plays
  unfold PlainQueue.render at rendered plays
  rw [if_neg fun rests => Bool.noConfusion rests.1, if_neg (not_lt.mpr emitted),
    if_neg (by decide), if_neg (not_lt.mpr released)] at rendered plays
  refine ⟨rendered, ?_⟩
  constructor
  · exact plays
  · rw [word, finishing.started_token boundary member]
  · rfl
  · rfl
  · rw [accountEq]
  · exact render_records
  · exact plays.fed_eq.trans finishing.plays.fed_eq.symm
  · exact plays.missing_eq.trans finishing.plays.missing_eq.symm

namespace Finished

variable {fed : List (Option F)} {missing : Nat}

/-- Nothing is counted and nothing is played until the next publication. -/
theorem perform (unit : geometry.AtUnitRate W)
    (finished : Finished geometry token fed missing queue view) {call : RingCall F}
    (idle : IdleCall call) :
    (∀ output ∈ (view.perform unitConverter geometry call).1.output, output = (0, false, false)) ∧
      ∃ after, Finished geometry token fed missing after
        (view.perform unitConverter geometry call).2 := by
  have unpending : ¬FinishPending view.finish := by
    rw [finished.word]
    rintro ⟨-, whole⟩
    change (token * 4 + 1) % 4 = 0 at whole
    omega
  obtain ⟨party, call⟩ := call
  cases party with
  | producer =>
      cases call with
      | mute generation spans =>
          have refused : view.produce geometry (.mute generation spans) =
              (.credit none, view) := by
            unfold RingView.produce
            dsimp only
            rw [finished.unstamped]
          refine ⟨fun output member => (by cases member), queue, ?_⟩
          change Finished geometry token fed missing queue
            (view.produce geometry (.mute generation spans)).2
          rw [refused]
          exact finished
      | status token => exact ⟨fun output member => (by cases member), queue, finished⟩
      | pushSample | push | pushTagged | gap | finish => exact idle.elim
  | consumer =>
      cases call with
      | reset => exact idle.elim
      | render =>
          have startedEq : view.started = view.consumer := by
            unfold RingView.started
            rw [if_neg fun captures => unpending captures.1, finished.heard]
            rfl
          have same := congrArg ConsumerState.muteFault startedEq
          obtain ⟨rendered, plays⟩ := finished.plays.render unit same
          have rests : queue.Rests geometry (decide (FinishPending view.finish)) :=
            ⟨decide_eq_false unpending, .inl ⟨finished.quiet, by rw [finished.empty]; rfl⟩⟩
          have ends := (finished.plays.render_ends unit same).aside fun expired =>
            unpending (of_decide_eq_true expired.1)
          unfold PlainQueue.render at rendered plays
          rw [if_pos rests] at rendered plays
          refine ⟨fun output member => ?_,
            { queue with quiet := queue.quiet && queue.line.isEmpty }, ?_⟩
          · cases member
            exact rendered
          · constructor
            · exact plays
            · exact ends.2.1.trans finished.word
            · change (queue.quiet && queue.line.isEmpty) = true
              rw [finished.quiet, finished.empty]
              rfl
            · exact finished.empty
            · exact (congrArg ProducerAccount.stamp ends.1).trans finished.unstamped
            · exact render_records
            · exact plays.fed_eq.trans (finished.plays.fed_eq.symm.trans finished.fed_eq)
            · exact plays.missing_eq.trans
                (finished.plays.missing_eq.symm.trans finished.missing_eq)

theorem performAll (unit : geometry.AtUnitRate W)
    (finished : Finished geometry token fed missing queue view) {calls : List (RingCall F)}
    (idle : ∀ call ∈ calls, IdleCall call) :
    (∀ output ∈ (view.performAll unitConverter geometry calls).1.filterMap RingReply.output,
        output = (0, false, false)) ∧
      ∃ after, Finished geometry token fed missing after
        (view.performAll unitConverter geometry calls).2 := by
  induction calls generalizing view queue with
  | nil => exact ⟨fun output member => (List.not_mem_nil member).elim, queue, finished⟩
  | cons call rest ih =>
      obtain ⟨silent, after, kept⟩ := finished.perform unit (idle call List.mem_cons_self)
      obtain ⟨others, ended⟩ := ih kept fun later member =>
        idle later (List.mem_cons_of_mem _ member)
      refine ⟨fun output member => ?_, ended⟩
      rw [RingView.performAll_cons, List.filterMap_cons] at member
      cases outputEq : (view.perform unitConverter geometry call).1.output with
      | none =>
          rw [outputEq] at member
          exact others output member
      | some first =>
          rw [outputEq] at member
          rcases List.mem_cons.mp member with rfl | later
          · exact silent _ outputEq
          · exact others output later

end Finished

end Finishing

section Supports

variable [Binary32 F] [Binary64 W] [OrderedBinary64 W] [Widening F W] {geometry : Geometry}
  {queue : PlainQueue F} {view : RingView F Unit W}

omit [Widening F W] in
/-- A slot is mapped to its own stamp; without stamps nothing is mapped. -/
theorem Plays.support_of_stamp (unit : geometry.AtUnitRate W) (plays : Plays geometry queue view)
    (clean : view.started.muteFault = view.consumer.muteFault)
    (awake : ¬queue.Rests geometry (decide (FinishPending view.finish)))
    (found : queue.emitted < queue.line.length) :
    (∀ slot mark, (queue.line)[queue.emitted]? = some slot → slot.stamp = some mark →
        mark.source < 2 ^ 64 →
        (view.exit unitConverter geometry).support = some mark.support) ∧
      ((∀ slot ∈ queue.line, slot.stamp = none) →
        (view.exit unitConverter geometry).support = none) := by
  obtain ⟨before, woken⟩ := plays.awake clean awake
  obtain ⟨rest, after, exitEq, kept, cached⟩ := plays.found unit clean woken found
  have ordered := kept.standing.ordered
  have nextEq : after.nextIndex = queue.emitted := kept.next_eq.trans woken.next_eq
  have taken : after.nextIndex < after.sourceTaken := by
    cases padding : after.inputPadding with
    | true =>
        have ended := ordered.classified.padded padding
        omega
    | false =>
        have sum := ordered.sum padding
        have whole := ordered.pending_le
        unfold ConsumerState.nextIndex
        omega
  rw [exitEq]
  change (∀ slot mark, _ → _ → _ → after.cachePosition = _) ∧ (_ → after.cachePosition = none)
  unfold ConsumerState.cachePosition
  rw [ordered.position cached]
  constructor
  · intro slot mark slotAt stamped small
    rw [← nextEq] at slotAt
    rw [ordered.base _ taken slot mark slotAt stamped]
    change Position.around mark.generation ((after.nextIndex : Int) * frameUnit +
      ((mark.source : Int) - after.nextIndex) * frameUnit) = some _
    rw [← Int.add_mul, show (after.nextIndex : Int) + ((mark.source : Int) - after.nextIndex) =
      mark.source by omega]
    exact around_whole mark small
  · intro unstamped
    cases baseEq : after.sourceBase with
    | none => rfl
    | some base =>
        obtain ⟨index, -, slot, mark, slotAt, stamped, -⟩ := ordered.based base baseEq
        rw [unstamped slot (List.mem_of_getElem? slotAt)] at stamped
        cases stamped

end Supports

section Counting

variable [Binary32 F] [Binary64 W] [Widening F W] {S : Type} {adapter : Adapter F W S}
  {geometry : Geometry} {view : RingView F S W}

theorem missing_le (bounded : view.missing ≤ 2 ^ 64 - 1) (calls : List (RingCall F)) :
    (view.performAll adapter geometry calls).2.missing ≤ 2 ^ 64 - 1 := by
  apply @RingView.performAll_keeps _ _ _ _ _ _ _ _ _ (fun view => view.missing ≤ 2 ^ 64 - 1) _
    calls bounded
  rintro view ⟨party, call⟩ bounded
  cases party with
  | producer =>
      exact (produce_still geometry view call).1.trans_le bounded
  | consumer =>
      cases call with
      | reset => exact bounded
      | render =>
          change (view.render adapter geometry).2.missing ≤ _
          rw [RingView.render_eq_close]
          cases view.exit adapter geometry with
          | silent | completed | released => exact bounded
          | emitted slots state result =>
              change (if _ then min (view.missing + 1) (2 ^ 64 - 1) else view.missing) ≤ _
              split
              · exact Nat.min_le_right _ _
              · exact bounded

theorem StreamLog.performAll_append (log : StreamLog) (first rest : List (RingCall F)) :
    log.performAll adapter geometry (first ++ rest) view =
      (log.performAll adapter geometry first view).performAll adapter geometry rest
        (view.performAll adapter geometry first).2 := by
  induction first generalizing log view with
  | nil => rfl
  | cons call first ih => exact ih _

end Counting

/-- Accepted slots of the stream that were not emitted yet. -/
def Ring.held (geometry : Geometry) (ring : Ring F Unit W) : Nat :=
  (ring.pcm.unread geometry.capacity).length + ring.consumer.inputPending +
    ring.consumer.outputPending

/-- A ring that drains the stream `line`, as a queue. -/
def Ring.drainQueue [Binary32 F] (line : List (SourceSample F)) (log : StreamLog) (released : Nat)
    (ring : Ring F Unit W) : PlainQueue F :=
  { ring.queue log with line := line, released := released }

section Draining

variable [Binary32 F] [Binary64 W] [OrderedBinary64 W] [Widening F W] {geometry : Geometry}

/-- After `count` renders behind the boundary that was set on `reached`: the ring
`now` has emitted so many of the held slots in order, then so much of the
lookahead; the next render goes on with that, or completes the boundary. -/
structure DrainsExactly (geometry : Geometry) (token count : Nat) (log : StreamLog)
    (reached now : Ring F Unit W) : Prop where
  whole : reached.streamLine.length = reached.consumer.nextIndex + reached.held geometry
  emitted : now.consumer.nextIndex =
    reached.consumer.nextIndex + min count (reached.held geometry)
  counted : ∃ inputs, now.ledger.fed = reached.ledger.fed ++ inputs ∧
    inputs.length = min count (reached.held geometry) ∧
    now.counters .missing =
      min (reached.counters .missing + inputs.countP Option.isNone) (2 ^ 64 - 1)
  unpublished : now.pcm.published = reached.pcm.published ∧
    now.counters .discarded = reached.counters .discarded
  uncredited : ∀ call, ∃ result,
    (now.perform unitConverter geometry ⟨.producer, call⟩).1 = ⟨.producer, result⟩ ∧
      Uncredited call result
  pending : (now.perform unitConverter geometry ⟨.producer, .status token⟩).1 =
    ⟨.producer, .status (some .pending)⟩
  next : ∃ support,
    let queue := now.drainQueue reached.streamLine log (count - reached.held geometry)
    let rendered := now.perform unitConverter geometry ⟨.consumer, .render⟩
    (count < reached.held geometry →
      (∀ slot mark, (reached.streamLine)[queue.emitted]? = some slot → slot.stamp = some mark →
          mark.source < 2 ^ 64 → support = some mark.support) ∧
        ((∀ slot ∈ reached.streamLine, slot.stamp = none) → support = none)) ∧
      rendered.1 = ⟨.consumer, .rendered
        (if count < reached.held geometry then (queue.emit W geometry.lookahead support).1
        else if count < reached.held geometry + geometry.lookahead then
          (queue.release geometry.lookahead).1
        else (0, false, false))⟩ ∧
      rendered.2.ledger.fed = now.ledger.fed ++
        (if count < reached.held geometry then
          [if log.Mutes support then some 0 else queue.sample] else [])
  drained : count = reached.held geometry + geometry.lookahead →
    let done := (now.perform unitConverter geometry ⟨.consumer, .render⟩).2
    (done.perform unitConverter geometry ⟨.producer, .status token⟩).1 =
        ⟨.producer, .status (some .drained)⟩ ∧
      ∀ idle : List (RingCall F), (∀ call ∈ idle, IdleCall call) →
        let later := done.performAll unitConverter geometry idle
        (∀ output ∈ later.1.filterMap RingReply.output, output = (0, false, false)) ∧
          later.2.ledger.fed = now.ledger.fed ∧
          later.2.counters .missing = now.counters .missing

omit [Binary64 W] [OrderedBinary64 W] [Widening F W] in
theorem produce_finish {view : RingView F Unit W} {token : Nat}
    (granted : (view.produce geometry .finish).1 = .token (some token)) :
    ¬FinishPending view.finish ∧ token ≠ 0 ∧
      (view.produce geometry .finish).2 = { view with finish := token * 4 } := by
  unfold RingView.produce at granted ⊢
  dsimp only at granted ⊢
  by_cases pending : FinishPending view.finish
  · rw [if_pos pending] at granted
    cases granted
  rw [if_neg pending] at granted ⊢
  split at granted
  · rename_i fits
    rw [if_pos fits]
    cases granted
    exact ⟨pending, Nat.succ_ne_zero _, rfl⟩
  · cases granted

theorem finishing_reached {settings : Settings} {ring : Ring F Unit W}
    (created : Ring.create unitConverter settings = .ok (geometry, ring))
    (before : List (RingCall F)) {token : Nat} :
    let reached := (ring.performAll unitConverter geometry before).2
    let log := StreamLog.performAll unitConverter geometry before (ring.view geometry) ⟨[], []⟩
    reached.consumer.muteFault = false → Contiguous reached.streamLine →
      ((reached.view geometry).produce geometry .finish).1 = .token (some token) →
      reached.streamLine.length = reached.consumer.nextIndex + reached.held geometry ∧
        ((reached.view geometry).produce geometry .finish).2 =
          { reached.view geometry with finish := token * 4 } ∧
        Finishing geometry token reached.account (reached.queue log) 0 (reached.queue log)
          { reached.view geometry with finish := token * 4 } := by
  intro reached log clean contiguous granted
  have unit : geometry.AtUnitRate W := atUnitRate_created created
  obtain ⟨unpending, positive, finished⟩ := produce_finish granted
  obtain ⟨⟨accounts, -⟩, -, -⟩ := unitHolds_performAll created before
  have streaming : reached.consumer.finite = none := by
    cases finiteEq : reached.consumer.finite with
    | none => rfl
    | some boundary => exact (unpending (accounts.boundary boundary finiteEq).1).elim
  have plays := plays_reached created before clean streaming contiguous
  have held := plays.held streaming
  have viewed := (performAll_view unitConverter (producerHolds_created created) before).2
  have counted := @missing_le _ _ _ _ _ _ unitConverter geometry
    (ring.view geometry) (by
      obtain ⟨-, outputDelay, queued, converter, rfl, rfl⟩ := create_cases created
      exact Nat.zero_le _) before
  rw [← congrArg Prod.snd viewed] at counted
  have kept := plays.produce unit.sized .finish (by
    rw [finished, List.drop_length, List.append_nil]
    exact contiguous)
  rw [finished, List.drop_length, List.drop_length] at kept
  have same : (reached.queue log).accept [] [] = reached.queue log := by
    unfold PlainQueue.accept
    rw [List.append_nil, List.append_nil]
  rw [same] at kept
  refine ⟨held, finished, ?_⟩
  constructor
  · exact kept
  · exact ⟨by dsimp only; omega, Nat.mul_mod_left _ _⟩
  · rfl
  · intro boundary member
    rw [show ({ reached.view geometry with finish := token * 4 } : RingView F Unit W).consumer =
      reached.consumer from rfl, streaming] at member
    cases member
  · rfl
  · exact (Nat.min_eq_left plays.reached).symm
  · exact (Nat.sub_eq_zero_of_le plays.reached).symm
  · refine ⟨[], (List.append_nil _).symm, (Nat.sub_self _).symm, ?_⟩
    exact (Nat.min_eq_left counted).symm
  · rfl
  · rfl

omit F W [Binary32 F] [Binary64 W] [OrderedBinary64 W] [Widening F W] in
theorem ofToken_bits {token : Nat} (positive : token ≠ 0) (status : FinishStatus) :
    FinishStatus.ofToken (token * 4 + status.bits) token = some status := by
  have small : status.bits < 4 := by cases status <;> decide
  unfold FinishStatus.ofToken FinishStatus.ofWord
  rw [if_neg (by omega), show (token * 4 + status.bits) % 4 = status.bits by omega]
  cases status <;> rfl

/-- What holds behind a boundary says what the next render does. -/
theorem Finishing.drainsExactly (unit : geometry.AtUnitRate W) {reached now : Ring F Unit W}
    {earlier : StreamLog} {token count : Nat} {ended : PlainQueue F}
    (holds : ProducerHolds geometry True none now)
    (finishing : Finishing geometry token reached.account (reached.queue earlier) count ended
      (now.view geometry))
    (wholeEq : reached.streamLine.length =
      reached.consumer.nextIndex + reached.held geometry)
    (few : count ≤ reached.held geometry + geometry.lookahead)
    (roomy : (now.perform unitConverter geometry ⟨.consumer, .render⟩).2.consumer.muteFault =
      false) : DrainsExactly geometry token count ended.log reached now := by
  have plays := finishing.plays
  have positive : token ≠ 0 := by
    have word := finishing.pending.1
    rw [finishing.token_eq] at word
    omega
  have lengthEq : (reached.queue earlier).line.length = (reached.queue earlier).emitted +
      reached.held geometry := wholeEq
  have endedLength := congrArg List.length finishing.line_eq
  have emittedEq := finishing.emitted_eq
  have releasedEq := finishing.released_eq
  obtain ⟨inputs, fedEq, inputsEq, missingEq⟩ := finishing.counted
  have nextEq : now.consumer.nextIndex = ended.emitted := plays.next_eq
  have startEq : (reached.queue earlier).emitted = reached.consumer.nextIndex := rfl
  have endedEq : ended = now.drainQueue reached.streamLine ended.log
      (count - reached.held geometry) := by
    have lineEq : ended.line = reached.streamLine := finishing.line_eq
    have released : ended.released = count - reached.held geometry := by omega
    have plcEq : now.consumer.plc = ended.plc := plays.plc_eq
    have primedEq : now.consumer.primed = ended.primed := plays.primed_eq
    have quietEq : now.consumer.quiet = ended.quiet := plays.quiet_eq
    have nowFed : now.ledger.fed = ended.fed := plays.fed_eq
    have nowMissing : now.counters .missing = ended.missing := plays.missing_eq
    unfold Ring.drainQueue Ring.queue
    rw [nextEq, plcEq, primedEq, quietEq, nowFed, nowMissing, ← lineEq, ← released]
  obtain ⟨-, renderedView⟩ := perform_view unitConverter holds ⟨.consumer, .render⟩
  have renderedEq : (now.perform unitConverter geometry ⟨.consumer, .render⟩).1 =
      ⟨.consumer, .rendered ((now.view geometry).render unitConverter geometry).1⟩ :=
    congrArg Prod.fst renderedView
  have doneEq : (now.perform unitConverter geometry ⟨.consumer, .render⟩).2.view geometry =
      ((now.view geometry).render unitConverter geometry).2 := congrArg Prod.snd renderedView
  have started : (now.view geometry).started.muteFault = false := by
    apply @started_of_render _ _ _ _ _ geometry
    exact (congrArg (fun view : RingView F Unit W => view.consumer.muteFault) doneEq).symm.trans
      roomy
  have same := started.trans (muteFault_of_started started).symm
  have fullRender := plays.render unit same
  have mapped := plays.support_of_stamp unit same
  have reachedLe : (reached.queue earlier).emitted ≤ (reached.queue earlier).line.length := by
    omega
  rw [decide_eq_true finishing.pending] at fullRender mapped
  have awake : ¬ended.Rests geometry true := fun rests => Bool.noConfusion rests.1
  unfold PlainQueue.render at fullRender
  rw [if_neg awake, if_neg (show ¬(true = false) by decide)] at fullRender
  have mapped := mapped awake
  constructor
  · exact wholeEq
  · omega
  · refine ⟨inputs, ?_, by omega, ?_⟩
    · exact plays.fed_eq.trans fedEq
    · exact plays.missing_eq.trans missingEq
  · exact ⟨finishing.published_eq, finishing.discarded_eq⟩
  · intro call
    obtain ⟨-, sameView⟩ := perform_view unitConverter holds ⟨.producer, call⟩
    exact ⟨_, congrArg Prod.fst sameView, (produce_pending geometry finishing.pending call).1⟩
  · obtain ⟨-, statusView⟩ := perform_view unitConverter holds ⟨.producer, .status token⟩
    refine (congrArg Prod.fst statusView).trans ?_
    change (⟨.producer, .status (FinishStatus.ofToken (now.view geometry).finish token)⟩ :
      RingReply F) = _
    rw [finishing.token_eq, ← ofToken_bits positive .pending]
    rfl
  · refine ⟨((now.view geometry).exit unitConverter geometry).support, fun found => ?_, ?_, ?_⟩
    · rw [← endedEq]
      have mapped := mapped (by omega)
      rw [finishing.line_eq] at mapped
      exact mapped
    · rw [renderedEq, fullRender.1, ← endedEq]
      congr 2
      by_cases found : count < reached.held geometry
      · rw [if_pos found, if_pos (by omega)]
      · rw [if_neg found, if_neg (by omega)]
        by_cases left : count < reached.held geometry + geometry.lookahead
        · rw [if_pos left, if_pos (by omega)]
        · rw [if_neg left, if_neg (by omega)]
    · have fed := fullRender.2.fed_eq
      rw [← doneEq] at fed
      rw [← endedEq]
      have nowFed : now.ledger.fed = ended.fed := plays.fed_eq
      refine fed.trans ?_
      by_cases found : count < reached.held geometry
      · rw [if_pos found, if_pos (by omega), nowFed]
        rfl
      · rw [if_neg found, if_neg (by omega), nowFed, List.append_nil]
        split <;> rfl
  · intro all
    obtain ⟨-, finished⟩ := finishing.complete unit reachedLe (by omega) started
    rw [← doneEq] at finished
    obtain ⟨doneHolds, -⟩ := perform_view unitConverter holds ⟨.consumer, .render⟩
    obtain ⟨-, statusView⟩ := perform_view unitConverter doneHolds ⟨.producer, .status token⟩
    refine ⟨(congrArg Prod.fst statusView).trans ?_, fun idle admitted => ?_⟩
    · change (⟨.producer, .status (FinishStatus.ofToken
        ((now.perform unitConverter geometry ⟨.consumer, .render⟩).2.view geometry).finish
          token)⟩ : RingReply F) = _
      rw [finished.word, ofToken_bits positive .drained]
    · obtain ⟨-, laterView⟩ := performAll_view unitConverter doneHolds idle
      obtain ⟨silent, after, kept⟩ := finished.performAll unit admitted
      rw [← congrArg Prod.fst laterView] at silent
      rw [← congrArg Prod.snd laterView] at kept
      exact ⟨silent, kept.fed_eq, kept.missing_eq⟩

/-- Behind a boundary, each render emits the next held slot, then releases the
next lookahead sample, and the one behind that completes the boundary. -/
theorem finite_drain_exact {settings : Settings} {ring : Ring F Unit W}
    (created : Ring.create unitConverter settings = .ok (geometry, ring))
    (before calls : List (RingCall F)) (token : Nat) :
    let reached := (ring.performAll unitConverter geometry before).2
    let run := before ++ ⟨.producer, .finish⟩ :: calls
    let now := (ring.performAll unitConverter geometry run).2
    reached.consumer.muteFault = false → Contiguous reached.streamLine →
      (reached.perform unitConverter geometry ⟨.producer, .finish⟩).1 =
        ⟨.producer, .token (some token)⟩ →
      (∀ call ∈ calls, DrainCall call) →
      renders calls ≤ reached.held geometry + geometry.lookahead →
      (now.perform unitConverter geometry ⟨.consumer, .render⟩).2.consumer.muteFault = false →
      DrainsExactly geometry token (renders calls)
        (StreamLog.performAll unitConverter geometry run (ring.view geometry) ⟨[], []⟩)
        reached now := by
  intro reached run now clean contiguous granted drains few roomy
  have unit : geometry.AtUnitRate W := atUnitRate_created created
  have tidy := producerHolds_created created
  obtain ⟨reachedHolds, reachedView⟩ := performAll_view unitConverter tidy before
  obtain ⟨nowHolds, nowView⟩ := performAll_view unitConverter tidy run
  obtain ⟨-, finishView⟩ := perform_view unitConverter reachedHolds ⟨.producer, .finish⟩
  have grantedView : ((reached.view geometry).produce geometry .finish).1 =
      .token (some token) := by
    have reply := (congrArg Prod.fst finishView).symm.trans granted
    exact eq_of_heq (Sigma.mk.inj reply).2
  obtain ⟨wholeEq, finished, starts⟩ :=
    finishing_reached created before clean contiguous grantedView
  have viewEq : ((ring.view geometry).performAll unitConverter geometry before).2 =
      reached.view geometry := (congrArg Prod.snd reachedView).symm
  have finishEq : (reached.view geometry).perform unitConverter geometry ⟨.producer, .finish⟩ =
      (⟨.producer, .token (some token)⟩, { reached.view geometry with finish := token * 4 }) := by
    rw [← finished, ← grantedView]
    rfl
  have nowEq : now.view geometry =
      (({ reached.view geometry with finish := token * 4 } : RingView F Unit W).performAll
        unitConverter geometry calls).2 := by
    refine (congrArg Prod.snd nowView).trans ?_
    change ((ring.view geometry).performAll unitConverter geometry
      (before ++ ⟨.producer, .finish⟩ :: calls)).2 = _
    rw [RingView.performAll_append, viewEq, RingView.performAll_cons, finishEq]
  have logEq : StreamLog.performAll unitConverter geometry run (ring.view geometry) ⟨[], []⟩ =
      (StreamLog.performAll unitConverter geometry before (ring.view geometry)
        ⟨[], []⟩).performAll unitConverter geometry calls
          { reached.view geometry with finish := token * 4 } := by
    change StreamLog.performAll unitConverter geometry (before ++ ⟨.producer, .finish⟩ :: calls)
      _ _ = _
    rw [StreamLog.performAll_append, viewEq]
    generalize StreamLog.performAll unitConverter geometry before (ring.view geometry)
      ⟨[], []⟩ = log
    change (StreamLog.perform unitConverter geometry ⟨.producer, .finish⟩ _ log).performAll
      unitConverter geometry calls
        ((reached.view geometry).perform unitConverter geometry ⟨.producer, .finish⟩).2 = _
    rw [finishEq]
    unfold StreamLog.perform
    dsimp only
    rw [finished, List.drop_length, List.append_nil]
  obtain ⟨-, renderView⟩ := perform_view unitConverter nowHolds ⟨.consumer, .render⟩
  have cleanNow : (now.view geometry).consumer.muteFault = false := by
    apply muteFault_of_started
    apply @started_of_render _ _ _ _ _ geometry
    have doneEq := congrArg Prod.snd renderView
    exact (congrArg (fun view : RingView F Unit W => view.consumer.muteFault) doneEq).symm.trans
      roomy
  rw [nowEq] at cleanNow
  have lineEq : (reached.queue (StreamLog.performAll unitConverter geometry before
      (ring.view geometry) ⟨[], []⟩)).line.length = (reached.queue (StreamLog.performAll
        unitConverter geometry before (ring.view geometry) ⟨[], []⟩)).emitted +
          reached.held geometry := wholeEq
  obtain ⟨ended, kept, endedLog⟩ := starts.performAll unit starts.plays.reached drains (by
    change 0 + renders calls ≤ (reached.queue _).line.length - (reached.queue _).emitted + _
    rw [lineEq, Nat.add_sub_cancel_left, Nat.zero_add]
    exact few) cleanNow
  rw [← nowEq, Nat.zero_add] at kept
  rw [logEq]
  exact endedLog ▸ kept.drainsExactly unit nowHolds wholeEq few roomy

end Draining

/-- What the producer is told. -/
def RingReply.told : RingReply F → Option ProducerResult
  | ⟨.producer, result⟩ => some result
  | _ => none

theorem told_eq {reply : RingReply F} {result : ProducerResult}
    (told : reply.told = some result) : reply = ⟨.producer, result⟩ := by
  obtain ⟨party, reply⟩ := reply
  cases party with
  | producer =>
      cases told
      rfl
  | consumer => cases told

theorem output_eq {reply : RingReply F} {output : Rendered F}
    (rendered : reply.output = some output) : reply = ⟨.consumer, .rendered output⟩ := by
  obtain ⟨party, reply⟩ := reply
  cases party with
  | producer => cases rendered
  | consumer =>
      cases reply with
      | rendered sample =>
          cases rendered
          rfl
      | reset done => cases rendered

theorem contiguous_of_explained {line : List (SourceSample F)} {base : Nat × Int}
    (explained : ∀ entry ∈ line.zipIdx, ∀ mark ∈ entry.1.stamp,
      base = (mark.generation, (mark.source : Int) - entry.2)) : Contiguous line :=
  ⟨base, fun index slot mark slotAt stamped =>
    explained (slot, index) (List.mem_zipIdx_iff_getElem?.mpr slotAt) mark stamped⟩

theorem DrainsExactly.unerrored [Binary32 F] [Binary64 W] [OrderedBinary64 W] [Widening F W]
    {geometry : Geometry} {token count : Nat} {log : StreamLog} {reached now : Ring F Unit W}
    (drains : DrainsExactly geometry token count log reached now) {output : Rendered F}
    (rendered : (now.perform unitConverter geometry ⟨.consumer, .render⟩).1 =
      ⟨.consumer, .rendered output⟩) : output.2.2 = false := by
  obtain ⟨support, -, replied, -⟩ := drains.next
  have same := eq_of_heq (Sigma.mk.inj (rendered.symm.trans replied)).2
  rw [ConsumerResult.rendered.inj same]
  split
  · rfl
  · split <;> rfl

/-- A muted sample, a sample, a gap and another sample. -/
def gappedBurst : List (RingCall ℚ) :=
  [⟨.producer, .pushTagged [1 / 2, 1 / 4] 1 0 [⟨0, 1⟩]⟩, ⟨.producer, .gap 1⟩,
    ⟨.producer, .pushTagged [1 / 8] 1 3 []⟩]

/-- Renders behind the boundary, and a push that it refuses. -/
def drainCalls (count : Nat) : List (RingCall ℚ) :=
  List.replicate count ⟨.consumer, .render⟩ ++ [⟨.producer, .push [1]⟩]

/-- The ring with concealment drains a burst with a gap: after three renders the
substituted sample is the next one out, and the sixth completes the boundary. -/
theorem gapped_burst_drains : ∃ geometry ring,
    Ring.create (unitConverter (F := ℚ) (W := ℚ)) concealedSettings = .ok (geometry, ring) ∧
    let run (calls : List (RingCall ℚ)) := (ring.performAll unitConverter geometry calls).2
    let log (count : Nat) := StreamLog.performAll unitConverter geometry
      (gappedBurst ++ ⟨.producer, .finish⟩ :: drainCalls count) (ring.view geometry) ⟨[], []⟩
    let behind (count : Nat) := run (gappedBurst ++ ⟨.producer, .finish⟩ :: drainCalls count)
    DrainsExactly geometry 1 3 (log 3) (run gappedBurst) (behind 3) ∧
      ((behind 3).perform unitConverter geometry ⟨.consumer, .render⟩).1 =
        ⟨.consumer, .rendered (1 / 4, false, false)⟩ ∧
      DrainsExactly geometry 1 5 (log 5) (run gappedBurst) (behind 5) ∧
      (run gappedBurst).held geometry + geometry.lookahead = 5 := by
  obtain ⟨geometry, ring, created, checked⟩ := exists_created
    (unitConverter (F := ℚ) (W := ℚ)) concealedSettings
    (fun geometry ring =>
      let reached := (ring.performAll unitConverter geometry gappedBurst).2
      let behind (count : Nat) := (ring.performAll unitConverter geometry
        (gappedBurst ++ ⟨.producer, .finish⟩ :: drainCalls count)).2
      let next (count : Nat) := (behind count).perform unitConverter geometry ⟨.consumer, .render⟩
      (!reached.consumer.muteFault && decide (∀ entry ∈ reached.streamLine.zipIdx,
        ∀ mark ∈ entry.1.stamp, ((1, 0) : Nat × Int) =
          (mark.generation, (mark.source : Int) - entry.2))) &&
        (decide ((reached.perform unitConverter geometry ⟨.producer, .finish⟩).1.told =
          some (.token (some 1))) &&
        (decide (reached.held geometry + geometry.lookahead = 5) &&
        (decide ((next 3).1.output = some (1 / 4, false, false)) &&
        (!(next 3).2.consumer.muteFault && !(next 5).2.consumer.muteFault)))))
    (by decide +kernel)
  simp only [Bool.and_eq_true, Bool.not_eq_true', decide_eq_true_eq] at checked
  obtain ⟨⟨clean, explained⟩, granted, whole, third, roomy, roomyLast⟩ := checked
  have drains (count : Nat) : ∀ call ∈ drainCalls count, DrainCall call := by
    intro call member
    rcases List.mem_append.mp member with rendered | pushed
    · rw [List.eq_of_mem_replicate rendered]
      trivial
    · rw [List.mem_singleton.mp pushed]
      trivial
  have contiguous := contiguous_of_explained explained
  exact ⟨geometry, ring, created,
    finite_drain_exact created gappedBurst (drainCalls 3) 1 clean contiguous (told_eq granted)
      (drains 3) (Nat.le_trans (by decide) whole.ge) roomy,
    output_eq third,
    finite_drain_exact created gappedBurst (drainCalls 5) 1 clean contiguous (told_eq granted)
      (drains 5) (Nat.le_trans (by decide) whole.ge) roomyLast, whole⟩

/-- A stream of two generations. -/
def twoGenerations : List (RingCall ℚ) :=
  [⟨.producer, .pushTagged [1 / 2] 1 0 []⟩, ⟨.producer, .pushTagged [1 / 4] 2 0 []⟩]

/-- Two generations in one stream: the fence stops the second one, and the boundary
completes with an adapter error before the first slot is emitted. -/
theorem two_generations_do_not_drain : ∃ geometry ring,
    Ring.create (unitConverter (F := ℚ) (W := ℚ)) smallSettings = .ok (geometry, ring) ∧
    let reached := (ring.performAll unitConverter geometry twoGenerations).2
    let now := (ring.performAll unitConverter geometry
      (twoGenerations ++ [⟨.producer, .finish⟩])).2
    let rendered := now.perform unitConverter geometry ⟨.consumer, .render⟩
    reached.consumer.muteFault = false ∧ reached.consumer.resetFailed = false ∧
      reached.held geometry = 2 ∧
      (reached.perform unitConverter geometry ⟨.producer, .finish⟩).1 =
        ⟨.producer, .token (some 1)⟩ ∧
      rendered.1 = ⟨.consumer, .rendered (0, false, true)⟩ ∧
      (rendered.2.perform unitConverter geometry ⟨.producer, .status 1⟩).1 =
        ⟨.producer, .status (some .adapterError)⟩ ∧
      ∀ log, ¬DrainsExactly geometry 1 0 log reached now := by
  obtain ⟨geometry, ring, created, checked⟩ := exists_created
    (unitConverter (F := ℚ) (W := ℚ)) smallSettings
    (fun geometry ring =>
      let reached := (ring.performAll unitConverter geometry twoGenerations).2
      let now := (ring.performAll unitConverter geometry
        (twoGenerations ++ [⟨.producer, .finish⟩])).2
      let rendered := now.perform unitConverter geometry ⟨.consumer, .render⟩
      (!reached.consumer.muteFault && (!reached.consumer.resetFailed &&
        decide (reached.held geometry = 2))) &&
        (decide ((reached.perform unitConverter geometry ⟨.producer, .finish⟩).1.told =
          some (.token (some 1))) &&
        (decide (rendered.1.output = some (0, false, true)) &&
        decide ((rendered.2.perform unitConverter geometry ⟨.producer, .status 1⟩).1.told =
          some (.status (some .adapterError))))))
    (by decide +kernel)
  simp only [Bool.and_eq_true, Bool.not_eq_true', decide_eq_true_eq] at checked
  obtain ⟨⟨clean, working, held⟩, granted, errored, failed⟩ := checked
  exact ⟨geometry, ring, created, clean, working, held, told_eq granted, output_eq errored,
    told_eq failed, fun log drains => Bool.noConfusion (drains.unerrored (output_eq errored))⟩

end PcmRing
