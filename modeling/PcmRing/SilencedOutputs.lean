import PcmRing.DecidedResults
import PcmRing.MuteLifetime
import PcmRing.PromptMutes

/-!
# Muted positions are silent

Without concealment a render plays the position that it looks up.  So a render
that meets a record published before it began returns silence, in every schedule
and through every converter that advances.
-/

namespace PcmRing

open AtomicProgram TwoLapQueue

variable {F S W : Type}

/-- The access finds the position that a render plays muted. -/
def Access.Silences : Access F S W → Prop
  | .lookup history (some position) => history.muted (some position) = true
  | _ => False

theorem Access.Silences.muted {history : History} {position : Option Position}
    (silences : Access.Silences (F := F) (S := S) (W := W) (.lookup history position)) :
    history.muted position = true := by
  cases position with
  | none => exact silences.elim
  | some position => exact silences

/-- Every access but one that silences. -/
abbrev Access.Sounds (op : Access F S W) : Prop :=
  ¬op.Silences

section Sounds

variable {geometry : Geometry}

theorem sounds_saturatingAddCounter (counter : Counter) (value : Nat) :
    (saturatingAddCounter counter value : RingProgram F S W Nat).Performs Access.Sounds :=
  ⟨id, fun _ => ⟨id, fun _ => trivial⟩⟩

theorem sounds_available :
    (available geometry : RingProgram F S W Nat).Performs Access.Sounds :=
  ⟨id, fun _ => ⟨id, fun _ => trivial⟩⟩

theorem sounds_take {α : Type} (port : Port (Access.Resp (F := F) (S := S) (W := W)) α)
    (capacity : Nat) (sounds : ∀ access, (port.access access).Sounds) :
    (port.take capacity).Performs Access.Sounds := by
  have performs (access : QueueAccess α) : (port.perform access).Performs Access.Sounds :=
    ⟨sounds access, fun _ => trivial⟩
  refine (performs _).bind fun read => (performs _).bind fun written => ?_
  split
  · trivial
  · exact (performs _).bind fun _ => (performs _).bind fun _ => trivial

theorem sounds_drainMailbox (limit : Nat) (state : ConsumerState F S W) :
    (drainMailbox limit state : RingProgram F S W _).Performs Access.Sounds := by
  induction limit generalizing state with
  | zero => trivial
  | succ limit ih =>
      refine (sounds_take mutePort mailboxQueue fun _ => id).bind fun popped => ?_
      cases popped with
      | none => trivial
      | some interval => exact ih _

theorem sounds_captureBoundary (state : ConsumerState F S W) :
    (captureBoundary geometry state : RingProgram F S W _).Performs Access.Sounds := by
  refine ⟨id, fun finish => ?_⟩
  change Program.Performs _ (if FinishPending finish ∧ state.finite.isNone then _ else _)
  split
  · exact sounds_available.bind fun _ => trivial
  · trivial

theorem sounds_takeSources [Binary32 F] (wanted : Nat) (state : ConsumerState F S W) :
    (takeSources geometry wanted state : RingProgram F S W _).Performs Access.Sounds := by
  induction wanted generalizing state with
  | zero => trivial
  | succ wanted ih =>
      unfold takeSources
      split
      · trivial
      · refine (sounds_take pcmPort geometry.capacity fun _ => id).bind fun slot => ?_
        cases slot with
        | none => trivial
        | some sample =>
            dsimp only
            split
            · trivial
            · exact ih _

theorem sounds_leave (state : ConsumerState F S W) (rendered : Rendered F) :
    (leave state rendered : RingProgram F S W _).Performs Access.Sounds :=
  ⟨id, fun _ => trivial⟩

section Binary64

variable [Binary64 W]

theorem sounds_recordShortfall (missing : Bool) :
    (recordShortfall geometry missing : RingProgram F S W Unit).Performs Access.Sounds := by
  have averaged (consecutive : Nat) : (averageShortfall geometry consecutive :
      RingProgram F S W Unit).Performs Access.Sounds := ⟨id, fun _ => ⟨id, fun _ => trivial⟩⟩
  cases missing with
  | false => exact ⟨id, fun _ => averaged 0⟩
  | true =>
      exact (sounds_saturatingAddCounter _ _).bind fun _ =>
        (sounds_saturatingAddCounter _ _).bind fun _ => averaged _

theorem sounds_steer (occupancy : Nat) (state : ConsumerState F S W) :
    (steer geometry occupancy state : RingProgram F S W _).Performs Access.Sounds := by
  unfold steer
  split
  · exact ⟨id, fun _ => ⟨id, fun _ => trivial⟩⟩
  · split <;> trivial

end Binary64

variable [Binary32 F]

theorem sounds_reportFault (state : ConsumerState F S W) :
    (reportFault state : RingProgram F S W _).Performs Access.Sounds :=
  (sounds_saturatingAddCounter _ _).bind fun _ => sounds_leave _ _

variable [Binary64 W] {adapter : Adapter F W S}

theorem sounds_completeFinite (boundary : Finite) (failed : Bool) (state : ConsumerState F S W) :
    (completeFinite adapter geometry boundary failed state :
      RingProgram F S W _).Performs Access.Sounds := by
  refine ⟨id, fun _ => ⟨id, fun _ => ?_⟩⟩
  refine (sounds_recordShortfall false).bind fun _ => ?_
  dsimp only
  split
  · refine Program.Performs.bind ?_ fun _ => ⟨id, fun _ => sounds_leave _ _⟩
    exact ⟨id, fun _ => ⟨id, fun _ => ⟨id, fun _ => ⟨id, fun _ =>
      (sounds_saturatingAddCounter _ _).bind fun _ => trivial⟩⟩⟩⟩
  · exact ⟨id, fun _ => sounds_leave _ _⟩

theorem sounds_refillOutput (state : ConsumerState F S W) :
    (refillOutput adapter geometry state : RingProgram F S W _).Performs Access.Sounds := by
  unfold refillOutput
  split
  · trivial
  · split
    · trivial
    · refine (sounds_takeSources _ _).bind fun taken => ?_
      obtain ⟨kept, state⟩ := taken
      cases kept with
      | false => trivial
      | true =>
          dsimp only
          split
          · trivial
          · unfold convertOutput
            split
            · trivial
            · exact sounds_available.bind fun _ => (sounds_steer _ _).bind fun _ => trivial

variable [Widening F W]

theorem sounds_emitOutput (input : Option F) (state : ConsumerState F S W) :
    (emitOutput input state : RingProgram F S W _).Performs Access.Sounds := by
  unfold emitOutput
  split
  · trivial
  · exact ⟨id, fun _ => trivial⟩

omit [Widening F W] in
theorem sounds_refillTail (limit : Nat) (result : RefillResult) (state : ConsumerState F S W) :
    (refillTail adapter geometry limit result state : RingProgram F S W _).Performs
      Access.Sounds := by
  induction limit generalizing result state with
  | zero => trivial
  | succ limit ih =>
      unfold refillTail
      split
      · exact (sounds_refillOutput state).bind fun refilled => ih _ _
      · trivial

end Sounds

section Silenced

variable [Binary32 F] [Binary64 W] {adapter : Adapter F W S} {geometry : Geometry}

theorem silenced_drainFinite (boundary : Finite) (state : ConsumerState F S W) :
    (drainFinite adapter geometry boundary state).Decides (exec geometry) Access.Silences
      fun rendered => rendered.1 = 0 := by
  unfold drainFinite
  split
  · refine fun _ => ⟨fun released => released.elim, fun _ => ⟨fun silences _ => ?_, ?_⟩⟩
    · exact if_pos silences.muted
    · exact (sounds_leave _ _).decides
  · exact (sounds_completeFinite _ _ _).decides

variable [Widening F W]

/-- Without a lookahead both lookups of an emission are of the position it plays. -/
theorem silenced_emit (plain : geometry.lookahead = 0) (result : RefillResult)
    (state : ConsumerState F S W) :
    (emit geometry result state).Decides (exec geometry) Access.Silences
      fun rendered => rendered.1 = 0 := by
  have played (after : ConsumerState F S W) (position : Option Position) :
      (after.delayPosition geometry.lookahead position).1 = position := by
    unfold ConsumerState.delayPosition
    rw [if_pos plain]
  unfold emit
  refine fun _ => ⟨fun silences => ?_, ?_⟩
  · refine Program.returns_behind _ fun answer => Program.returns_behind _ fun _ =>
      Program.returns_behind _ fun _ => Program.returns_behind _ fun output _ _ => ?_
    refine if_pos ?_
    change state.muteHistory.muted (output.2.delayPosition geometry.lookahead _).1 = true
    rw [played]
    exact silences.muted
  · refine (sounds_recordShortfall _).decidesBefore fun _ => ?_
    have counted : (countFailure (decide (result = .adapterError)) :
        RingProgram F S W Unit).Performs Access.Sounds := by
      cases decide (result = .adapterError) with
      | false => trivial
      | true => exact (sounds_saturatingAddCounter _ _).bind fun _ => trivial
    refine counted.decidesBefore fun _ => (sounds_emitOutput _ _).decidesBefore fun output => ?_
    exact fun _ => ⟨fun silences _ => if_pos silences.muted, (sounds_leave _ _).decides⟩

theorem silenced_renderOutput (plain : geometry.lookahead = 0) (state : ConsumerState F S W) :
    (renderOutput adapter geometry state).Decides (exec geometry) Access.Silences
      fun rendered => rendered.1 = 0 := by
  unfold renderOutput
  refine (sounds_refillOutput state).decidesBefore fun refilled => ?_
  split
  · refine (sounds_refillTail _ _ _).decidesBefore fun tail => ?_
    unfold renderTail
    split_ifs
    · exact (sounds_completeFinite _ _ _).decides
    · exact silenced_drainFinite _ _
    · exact (sounds_reportFault _).decides
    · exact silenced_emit plain _ _
  · split
    · exact (sounds_reportFault _).decides
    · exact silenced_emit plain _ _

theorem silenced_renderAwake (plain : geometry.lookahead = 0) (state : ConsumerState F S W) :
    (renderAwake adapter geometry state).Decides (exec geometry) Access.Silences
      fun rendered => rendered.1 = 0 := by
  have primed (state : ConsumerState F S W) : (renderPrimed adapter geometry state).Decides
      (exec geometry) Access.Silences fun rendered => rendered.1 = 0 := by
    unfold renderPrimed
    split
    · split
      · exact silenced_drainFinite _ _
      · exact silenced_renderOutput plain state
    · exact silenced_renderOutput plain state
  unfold renderAwake
  split
  · exact primed state
  · refine sounds_available.decidesBefore fun readable => ?_
    split
    · exact (sounds_leave _ _).decides
    · exact primed _

theorem silenced_render (plain : geometry.lookahead = 0) :
    (consumerRenderSample adapter geometry).Decides (exec geometry) Access.Silences
      fun rendered => rendered.1 = 0 := by
  have entered : (access .enter : RingProgram F S W _).Performs Access.Sounds :=
    ⟨id, fun _ => trivial⟩
  refine entered.decidesBefore fun state => (sounds_captureBoundary state).decidesBefore
    fun state => (sounds_drainMailbox _ state).decidesBefore fun state => ?_
  unfold renderReady
  split
  · exact (sounds_reportFault _).decides
  · split
    · refine sounds_available.decidesBefore fun readable => ?_
      split
      · exact (sounds_leave _ _).decides
      · exact silenced_renderAwake plain _
    · exact silenced_renderAwake plain state

/-- The call returns an output, and it is silence. -/
def ConsumerResult.Silent (result : ConsumerResult F) : Prop :=
  ∃ real errored, result = .rendered (0, real, errored)

theorem silenced_call (plain : geometry.lookahead = 0) (call : ConsumerCall) :
    (consumerBody adapter geometry call).Decides (exec geometry) Access.Silences
      ConsumerResult.Silent := by
  cases call with
  | render =>
      refine (silenced_render plain).bind (fun rendered silent => ?_) fun _ => trivial
      exact ⟨rendered.2.1, rendered.2.2, by rw [← silent]⟩
  | reset =>
      refine Program.Performs.decidesBefore ?_ fun _ => trivial
      have cancelled : (cancelFinish : RingProgram F S W Unit).Performs Access.Sounds := by
        refine ⟨id, fun finish => ?_⟩
        change Program.Performs _ (if FinishPending finish then _ else _)
        split
        · exact ⟨id, fun _ => trivial⟩
        · trivial
      exact ⟨id, fun _ => ⟨id, fun _ => ⟨id, fun _ => ⟨id, fun _ => ⟨id, fun _ => ⟨id, fun _ =>
        cancelled.bind fun _ => ⟨id, fun _ => trivial⟩⟩⟩⟩⟩⟩⟩

/-- In every schedule, against every converter that advances: a mute record that was
published before a render began, and was not popped when some render of the stream
began, mutes every position that it meets.  Without concealment the render that
plays such a position returns silence. -/
theorem published_mutes_win {settings : Settings} {config : RingConfig F S W} {delay : S → Int}
    (advances : adapter.Advances delay)
    (reached : RingReachable adapter settings (fun _ _ => True) geometry config)
    {call : ConsumerCall} {entry : Ring F S W} {history : History} {position : Position}
    {next : Bool → RingProgram F S W (ConsumerResult F)}
    (running : config.thread .consumer =
      .running call entry (.act (.lookup history (some position)) next))
    {found : Ring F S W} (began : found = entry ∨ found.resetSerial = entry.resetSerial ∧
      ∃ record ∈ config.returned .consumer, record.entry = found)
    {interval : Interval}
    (published : interval ∈ entry.mutes.published.drop found.mutes.passed.length)
    (meets : interval.Meets position) :
    history.muted (some position) = true ∧
      (settings.plc = .disabled → ∀ last, Relation.ReflTransGen
        (Step (body adapter geometry) (exec geometry) fun _ _ => True) config last →
        ∀ record, (last.returned .consumer)[(config.returned .consumer).length]? = some record →
          record.result.Silent) := by
  have muted := muted_of_published advances reached running began published meets
  refine ⟨muted, fun disabled last later record returned => ?_⟩
  obtain ⟨ring, created, steps⟩ := reached
  have plain : geometry.lookahead = 0 := by
    obtain ⟨-, outputDelay, queued, converter, rfl, -⟩ := create_cases created
    simp only [Settings.geometry, disabled]
  have decides := decides_of_running (i := .consumer) (silenced_call plain) steps running
  have returns : (Program.act (.lookup history (some position)) next).Returns (exec geometry)
      ConsumerResult.Silent := fun memory => (decides memory).1 muted
  -- The call is the next of its thread to return.
  rcases returned_of_running later running returns with ⟨-, logEq⟩ | ⟨other, otherAt, silent⟩
  · rw [logEq, List.getElem?_eq_none (Nat.le_refl _)] at returned
    cases returned
  · rw [returned] at otherAt
    obtain rfl := Option.some.inj otherAt
    exact silent

end Silenced

/-- Both samples of a burst are muted between its two renders, and the second
render is about to look its sample up. -/
def promptSchedule : List (Choice (Party.Call ℚ)) :=
  uninterrupted .producer (.pushTagged [1 / 2, 1 / 4] 1 0 []) ++
    uninterrupted .consumer .render ++ uninterrupted .producer (.mute 1 [⟨0, 2⟩]) ++
    [.invoke .consumer .render, .advance .consumer 8]

theorem published_mute_wins_between_renders :
    ∃ (geometry : Geometry) (config : RingConfig ℚ Unit ℚ) (history : History),
      RingReachable unitConverter smallSettings (fun _ _ => True) geometry config ∧
      (config.returned .consumer).length = 1 ∧
      nextLookup config = some (history, ⟨1, 1, 1, Nat.le_refl 1⟩) ∧
      history.muted (some ⟨1, 1, 1, Nat.le_refl 1⟩) = true ∧
      ∀ last, Relation.ReflTransGen
        (Step (body unitConverter geometry) (exec geometry) fun _ _ => True) config last →
        ∀ record, (last.returned .consumer)[1]? = some record → record.result.Silent := by
  let position : Position := ⟨1, 1, 1, Nat.le_refl 1⟩
  let shown (_ : Geometry) (config : RingConfig ℚ Unit ℚ) : Bool :=
    decide ((config.returned .consumer).length = 1) &&
      (nextLookup config).any (fun looked => decide (looked.2 = position)) &&
      ((config.returned .consumer)[0]?).any fun record =>
        decide (record.entry.resetSerial = (config.settled .consumer).resetSerial) &&
          ((config.settled .consumer).mutes.published.drop record.entry.mutes.passed.length).any
            fun interval => decide (interval.Meets position)
  have played : (playRing unitConverter smallSettings promptSchedule).any
      (fun played => shown played.1 played.2) = true := by decide +kernel
  obtain ⟨geometry, config, reached, shows⟩ := reachable_of_plays _ _ _ shown
    (fun choice _ => by cases choice <;> exact True.intro) played
  simp only [Bool.and_eq_true, decide_eq_true_eq, Option.any_eq_true, List.any_eq_true,
    shown] at shows
  obtain ⟨⟨lengthEq, ⟨history, looked⟩, looks, rfl⟩, record, recordAt, serialEq, interval,
    published, meets⟩ := shows
  obtain ⟨call, entry, next, running⟩ := running_of_nextLookup looks
  rw [Config.settled_of_running running] at serialEq published
  obtain ⟨muted, silent⟩ := published_mutes_win unitConverter_advances reached running
    (.inr ⟨serialEq, record, List.mem_of_getElem? recordAt, rfl⟩) published meets
  exact ⟨geometry, config, history, reached, lengthEq, looks, muted, lengthEq ▸ silent rfl⟩

end PcmRing
