import PcmRing.BlankViews
import PcmRing.Descriptor
import PcmRing.PlainStreams

/-!
# Muted samples are never heard

Two runs at unit rate whose tagged blocks differ at muted source positions only:
every reply, every observation and all of concealment are the same.  A different
sample is silenced before anything looks at it, and nothing else looks at samples.
-/

namespace PcmRing

open AtomicProgram TwoLapQueue

variable {F S W : Type}

/-- The slots a call offers. -/
def ProducerCall.slots [Binary32 F] : ProducerCall F → List (SourceSample F)
  | .pushSample sample => [pcmSlot sample]
  | .push input | .pushTagged input .. => input.map pcmSlot
  | .gap samples => List.replicate samples gapSlot
  | .mute .. | .finish | .status _ => []

/-- The stamp that its accepted slots continue. -/
def ProducerCall.stampFrom (current : Option Stamp) : ProducerCall F → Option Stamp
  | .pushTagged _ generation sourceStart _ => some ⟨generation, sourceStart⟩
  | .pushSample _ | .push _ | .gap _ | .mute .. | .finish | .status _ => current

section Accepting

open ProducerAccount

theorem publishOne_published (sample : SourceSample F) (free : Nat)
    (account : ProducerAccount F) : (account.publishOne free sample).2.published =
      account.published ++
        stamped account.stamp ([sample].take (account.publishOne free sample).1.toNat) := by
  unfold publishOne
  split
  · exact (List.append_nil _).symm
  split
  · rfl
  · exact (List.append_nil _).symm

theorem publishAll_published (samples : List (SourceSample F)) (free : Nat)
    (account : ProducerAccount F) : (account.publishAll samples free).2.published =
      account.published ++
        stamped account.stamp (samples.take (account.publishAll samples free).1) := by
  induction samples generalizing account free with
  | nil => exact (List.append_nil _).symm
  | cons sample rest ih =>
      unfold publishAll publishOne
      dsimp only
      by_cases full : free = 0
      · simp only [if_pos full, Bool.false_eq_true, if_false]
        exact (List.append_nil _).symm
      by_cases within : Within account.stamp 1
      · simp only [if_neg full, if_pos within, if_true]
        have others := ih (free - 1) (account.accept [sample])
        rw [List.take_succ_cons, others]
        have joined := accept_append [sample]
          (rest.take ((account.accept [sample]).publishAll rest (free - 1)).1) account
        exact congrArg ProducerAccount.published joined
      · simp only [if_neg full, if_neg within, Bool.false_eq_true, if_false]
        exact (List.append_nil _).symm

variable [Binary32 F] (geometry : Geometry) (view : RingView F S W)

/-- What a call accepts are the credited slots of what it offers, stamped one after
the other. -/
theorem accepted_eq (call : ProducerCall F) : view.accepted geometry call =
    stamped (call.stampFrom view.account.stamp)
      (call.slots.take (call.credited (view.produce geometry call).1)) := by
  suffices appended : (view.produce geometry call).2.account.published =
      view.account.published ++ stamped (call.stampFrom view.account.stamp)
        (call.slots.take (call.credited (view.produce geometry call).1)) by
    unfold RingView.accepted
    rw [appended, List.drop_left]
  have nothing : view.account.published = view.account.published ++
      stamped (call.stampFrom view.account.stamp) (call.slots.take 0) :=
    (List.append_nil _).symm
  unfold RingView.produce
  cases call with
  | pushSample sample =>
      dsimp only
      split
      · exact nothing
      · exact publishOne_published _ _ _
  | push input =>
      unfold RingView.publishBlock
      dsimp only
      split
      · exact nothing
      · exact publishAll_published _ _ _
  | gap samples =>
      unfold RingView.publishBlock
      dsimp only
      split
      · exact nothing
      · exact publishAll_published _ _ _
  | pushTagged input generation sourceStart spans =>
      dsimp only
      split
      · exact nothing
      split
      · exact nothing
      split
      · exact nothing
      unfold taggedAccount
      dsimp only
      by_cases none : min input.length (view.room geometry) = 0
      · rw [if_pos none, none]
        exact nothing
      · rw [if_neg none, List.map_take]
        rfl
  | mute generation spans =>
      dsimp only
      split
      · exact nothing
      split
      · exact nothing
      · exact nothing
  | finish =>
      dsimp only
      split
      · exact nothing
      split
      · exact nothing
      · exact nothing
  | status token => exact nothing

end Accepting

/-- Two slots that differ at most in the sample of a muted position. -/
structure SourceSample.Akin (log : StreamLog) (slot twin : SourceSample F) : Prop where
  missing_eq : twin.missing = slot.missing
  stamp_eq : twin.stamp = slot.stamp
  pcm_eq : twin.pcm = slot.pcm ∨ log.Mutes (slot.stamp.map Stamp.support)

theorem SourceSample.Akin.refl (log : StreamLog) (slot : SourceSample F) : slot.Akin log slot :=
  ⟨rfl, rfl, .inl rfl⟩

theorem StreamLog.Mutes.mono {log later : StreamLog} (more : log.accepted ⊆ later.accepted)
    {support : Option Position} (mutes : log.Mutes support) : later.Mutes support := by
  obtain ⟨position, member, interval, accepted, meets⟩ := mutes
  exact ⟨position, member, interval, more accepted, meets⟩

theorem SourceSample.Akin.mono {log later : StreamLog} (more : log.accepted ⊆ later.accepted)
    {slot twin : SourceSample F} (akin : slot.Akin log twin) : slot.Akin later twin :=
  ⟨akin.missing_eq, akin.stamp_eq, akin.pcm_eq.imp_right (.mono more)⟩

theorem getElem?_related {α β : Type} {related : α → β → Prop} {first : List α} {second : List β}
    (lists : List.Forall₂ related first second) (index : Nat) :
    Option.Rel related (first)[index]? (second)[index]? := by
  induction lists generalizing index with
  | nil => exact .none
  | cons same _ ih =>
      cases index with
      | zero => exact .some same
      | succ index => exact ih index

/-- Two queues whose lines differ at most in the samples of muted positions. -/
def PlainQueue.Akin (queue twin : PlainQueue F) : Prop :=
  ∃ line, List.Forall₂ (SourceSample.Akin queue.log) queue.line line ∧
    twin = { queue with line := line }

namespace PlainQueue.Akin

variable {queue twin : PlainQueue F}

theorem refl (queue : PlainQueue F) : queue.Akin queue :=
  ⟨queue.line, List.forall₂_same.mpr fun slot _ => .refl queue.log slot, rfl⟩

theorem of_lines {line : List (SourceSample F)}
    (lines : List.Forall₂ (SourceSample.Akin queue.log) queue.line line) {after : PlainQueue F}
    (lineEq : after.line = queue.line) (acceptedEq : after.log.accepted = queue.log.accepted) :
    after.Akin { after with line := line } := by
  refine ⟨line, ?_, rfl⟩
  rw [lineEq]
  exact lines.imp fun _ _ same => same.mono (acceptedEq ▸ List.Subset.refl _)

theorem accept (akin : queue.Akin twin) {slots twinSlots : List (SourceSample F)}
    {records : List Interval}
    (alike : List.Forall₂ (SourceSample.Akin (queue.accept slots records).log) slots twinSlots) :
    (queue.accept slots records).Akin (twin.accept twinSlots records) := by
  obtain ⟨line, lines, rfl⟩ := akin
  refine ⟨line ++ twinSlots, List.rel_append (lines.imp fun _ _ same => ?_) alike, rfl⟩
  exact same.mono (List.subset_append_left _ _)

theorem restart [Binary32 F] (akin : queue.Akin twin) (quiet : Bool) :
    (queue.restart quiet).Akin (twin.restart quiet) := by
  obtain ⟨line, -, rfl⟩ := akin
  exact refl _

variable [Binary32 F] [Binary64 W] [Widening F W] {geometry : Geometry} {pending : Bool}
  {support : Option Position}

theorem input_eq {line : List (SourceSample F)}
    (lines : List.Forall₂ (SourceSample.Akin queue.log) queue.line line)
    (located : ∀ slot mark, (queue.line)[queue.emitted]? = some slot →
      slot.stamp = some mark → support = some mark.support) :
    (if queue.log.Mutes support then some 0 else { queue with line := line }.sample) =
      if queue.log.Mutes support then some 0 else queue.sample := by
  by_cases muted : queue.log.Mutes support
  · rw [if_pos muted, if_pos muted]
  rw [if_neg muted, if_neg muted]
  have found := getElem?_related lines queue.emitted
  unfold PlainQueue.sample
  dsimp only
  generalize (line)[queue.emitted]? = twin at found ⊢
  generalize (queue.line)[queue.emitted]? = slot at found located ⊢
  cases found with
  | none => rfl
  | @some slot twin akin =>
      rw [Option.bind_some, Option.bind_some, akin.missing_eq]
      rcases akin.pcm_eq with same | silenced
      · rw [same]
      · obtain ⟨position, member, -⟩ := id silenced
        obtain ⟨mark, stamped, -⟩ := Option.map_eq_some_iff.mp member
        rw [stamped, Option.map_some, ← located slot mark rfl stamped] at silenced
        exact (muted silenced).elim

theorem emit (akin : queue.Akin twin) (lookahead : Nat)
    (located : ∀ slot mark, (queue.line)[queue.emitted]? = some slot →
      slot.stamp = some mark → support = some mark.support) :
    (twin.emit W lookahead support).1 = (queue.emit W lookahead support).1 ∧
      (queue.emit W lookahead support).2.Akin (twin.emit W lookahead support).2 := by
  obtain ⟨line, lines, rfl⟩ := akin
  have inputEq := input_eq lines located
  have lengthEq := lines.length_eq
  unfold PlainQueue.emit
  dsimp only
  rw [inputEq, ← lengthEq]
  exact ⟨rfl, of_lines lines rfl rfl⟩

omit [Binary32 F] in
theorem isEmpty_eq (akin : queue.Akin twin) : twin.line.isEmpty = queue.line.isEmpty := by
  obtain ⟨line, lines, rfl⟩ := akin
  rw [Bool.eq_iff_iff, List.isEmpty_iff_length_eq_zero, List.isEmpty_iff_length_eq_zero,
    lines.length_eq]

omit [Binary32 F] in
theorem rests_iff (akin : queue.Akin twin) :
    twin.Rests geometry pending ↔ queue.Rests geometry pending := by
  have emptyEq := akin.isEmpty_eq
  obtain ⟨line, lines, rfl⟩ := akin
  unfold PlainQueue.Rests
  rw [emptyEq]
  dsimp only
  rw [lines.length_eq]

theorem render (akin : queue.Akin twin) (geometry : Geometry) (pending : Bool)
    (located : ∀ slot mark, (queue.line)[queue.emitted]? = some slot →
      slot.stamp = some mark → support = some mark.support) :
    (twin.render W geometry pending support).1 = (queue.render W geometry pending support).1 ∧
      (queue.render W geometry pending support).2.Akin
        (twin.render W geometry pending support).2 := by
  have restsIff : twin.Rests geometry pending ↔ queue.Rests geometry pending := akin.rests_iff
  have restarted := akin.restart true
  obtain ⟨line, lines, rfl⟩ := id akin
  have lengthEq : queue.line.length = line.length := lines.length_eq
  unfold PlainQueue.render
  dsimp only
  by_cases rests : queue.Rests geometry pending
  · rw [if_pos rests, if_pos (restsIff.mpr rests)]
    refine ⟨rfl, ?_⟩
    have emptyEq : line.isEmpty = queue.line.isEmpty := akin.isEmpty_eq
    rw [emptyEq]
    exact of_lines lines rfl rfl
  rw [if_neg rests, if_neg (mt restsIff.mp rests), ← lengthEq]
  by_cases found : queue.emitted < queue.line.length
  · rw [if_pos found, if_pos found]
    exact akin.emit geometry.lookahead located
  rw [if_neg found, if_neg found]
  by_cases idle : pending = false
  · rw [if_pos idle, if_pos idle]
    refine akin.emit geometry.lookahead fun slot mark slotAt => ?_
    rw [List.getElem?_eq_none (not_lt.mp found)] at slotAt
    cases slotAt
  rw [if_neg idle, if_neg idle]
  by_cases left : queue.released < geometry.lookahead
  · rw [if_pos left, if_pos left]
    exact ⟨rfl, of_lines lines rfl rfl⟩
  · rw [if_neg left, if_neg left]
    exact ⟨rfl, restarted⟩

end PlainQueue.Akin

/-- Two calls that differ at most in the samples of muted positions of a tagged block. -/
inductive AkinCall (log : StreamLog) : RingCall F → RingCall F → Prop where
  | same (call : RingCall F) : AkinCall log call call
  | muted {input twin : List F} (generation sourceStart : Nat) (spans : List Span)
      (length_eq : twin.length = input.length)
      (differs : ∀ index < input.length, (twin)[index]? = (input)[index]? ∨
        log.Mutes (some (Stamp.support ⟨generation, sourceStart + index⟩))) :
      AkinCall log ⟨.producer, .pushTagged input generation sourceStart spans⟩
        ⟨.producer, .pushTagged twin generation sourceStart spans⟩

theorem AkinCall.blank_eq {log : StreamLog} {call twin : RingCall F} (akin : AkinCall log call twin) :
    RingCall.blank twin = RingCall.blank call := by
  cases akin with
  | same => rfl
  | @muted input twin generation sourceStart spans length_eq differs =>
      have erased : (twin.map fun _ => (⟨⟩ : Blank)) = input.map fun _ => ⟨⟩ := by
        rw [List.map_const', List.map_const', length_eq]
      exact congrArg (fun samples => (⟨.producer, .pushTagged samples generation sourceStart
        spans⟩ : RingCall Blank)) erased

section Accepting

open ProducerAccount

variable [Binary32 F] {geometry : Geometry} {view twin : RingView F S W}

/-- What both accept differs at most in the samples of muted positions. -/
theorem AkinCall.accepted {log : StreamLog} {call other : ProducerCall F}
    (akin : AkinCall log ⟨.producer, call⟩ ⟨.producer, other⟩)
    (stampEq : twin.account.stamp = view.account.stamp)
    (replies : (twin.produce geometry other).1 = (view.produce geometry call).1) :
    List.Forall₂ (SourceSample.Akin log) (view.accepted geometry call)
      (twin.accepted geometry other) := by
  rw [accepted_eq, accepted_eq, replies, stampEq]
  cases akin with
  | same => exact List.forall₂_same.mpr fun slot _ => .refl log slot
  | @muted input twin generation sourceStart spans length_eq differs =>
      have credited (result : ProducerResult) :
          (ProducerCall.pushTagged twin generation sourceStart spans).credited result =
            (ProducerCall.pushTagged input generation sourceStart spans).credited result := by
        cases result <;> rfl
      rw [credited]
      generalize ProducerCall.credited _ _ = count
      change List.Forall₂ _
        (stamped (some ⟨generation, sourceStart⟩) ((input.map pcmSlot).take count))
        (stamped (some ⟨generation, sourceStart⟩) ((twin.map pcmSlot).take count))
      refine List.forall₂_iff_get.mpr ⟨?_, fun index inside inside' => ?_⟩
      · rw [stamped_length, stamped_length, List.length_take, List.length_take, List.length_map,
          List.length_map, length_eq]
      · rw [stamped_length, List.length_take, List.length_map] at inside inside'
        have within : index < input.length := by omega
        have within' : index < twin.length := by omega
        unfold stamped
        simp only [List.get_eq_getElem, List.getElem_mapIdx, List.getElem_take, List.getElem_map]
        refine ⟨rfl, rfl, (differs index within).imp (fun same => ?_) id⟩
        rw [List.getElem?_eq_getElem within, List.getElem?_eq_getElem within'] at same
        exact congrArg canonicalize (Option.some_injective _ same)

end Accepting

/-- A tagged block keeps to the generation of its stream. -/
def RingCall.KeepsTo (stamp : Option Stamp) : RingCall F → Prop
  | ⟨.producer, .pushTagged _ generation _ _⟩ => ∀ mark ∈ stamp, mark.generation = generation
  | ⟨.producer, _⟩ | ⟨.consumer, _⟩ => True

/-- Calls of two runs that keep to the generations of their streams and differ at
most in tagged samples whose positions are muted when their call returns. -/
def TwinCalls [Binary32 F] [Binary64 W] [Widening F W] (geometry : Geometry) :
    List (RingCall F × RingCall F) → RingView F Unit W → StreamLog → Prop
  | [], _, _ => True
  | pair :: rest, view, log =>
      pair.1.KeepsTo view.account.stamp ∧
        AkinCall (log.perform unitConverter geometry pair.1 view) pair.1 pair.2 ∧
        TwinCalls geometry rest (view.perform unitConverter geometry pair.1).2
          (log.perform unitConverter geometry pair.1 view)

/-- Both rings play queues that differ at muted positions. -/
def StreamTwins [Binary32 F] [Binary64 W] [OrderedBinary64 W] (geometry : Geometry)
    (log : StreamLog) (view twin : RingView F Unit W) : Prop :=
  ∃ queue other : PlainQueue F, Streams geometry queue view ∧ Streams geometry other twin ∧
    queue.Akin other ∧ queue.log = log

/-- Both rings are silent behind a mute fault. -/
structure Latched (view twin : RingView F S W) : Prop where
  faulted : view.consumer.muteFault = true
  plc_eq : twin.consumer.plc = view.consumer.plc
  fed_eq : twin.fed = view.fed

section Twins

variable [Binary32 F] [Binary64 W] [OrderedBinary64 W] [Widening F W] {geometry : Geometry}
  {view twin : RingView F Unit W} {queue : PlainQueue F} {log : StreamLog}

omit [Binary32 F] [Binary64 W] [OrderedBinary64 W] [Widening F W] in
theorem started_plc : view.started.plc = view.consumer.plc := by
  obtain ⟨history, fault, receivedEq⟩ := receiveAll_cases view.records
    (if FinishPending view.finish ∧ view.consumer.finite.isNone = true then
      view.consumer.capture view.finish view.slots.length else view.consumer)
  unfold RingView.started
  dsimp only
  rw [receivedEq]
  change (if _ then _ else _ : ConsumerState F Unit W).plc = _
  split <;> rfl

omit [OrderedBinary64 W] in
theorem render_faulted (fault : view.started.muteFault = true) :
    view.render unitConverter geometry =
      ((0, false, true), { view with records := [], consumer := view.started }) := by
  unfold RingView.render RingView.renderReady
  rw [if_pos fault]
  rfl

omit [Widening F W] in
theorem Streams.streamCall (streams : Streams geometry queue view) {call : ProducerCall F}
    (keeps : RingCall.KeepsTo view.account.stamp ⟨.producer, call⟩) :
    StreamCall view queue ⟨.producer, call⟩ := by
  cases call with
  | pushTagged input generation sourceStart spans =>
      have explained := streams.explained
      cases stampEq : view.account.stamp with
      | none =>
          rw [stampEq] at explained
          exact .inr explained
      | some mark => exact .inl ⟨mark, stampEq, keeps mark stampEq⟩
  | _ => trivial

omit [Widening F W] in
theorem Streams.located_stamped (streams : Streams geometry queue view)
    (mapped : Option Position) {slot : SourceSample F} {mark : Stamp}
    (slotAt : (queue.line)[queue.emitted]? = some slot) (stamped : slot.stamp = some mark) :
    queue.located view.account.stamp mapped = some mark.support := by
  have explained := streams.explained
  unfold PlainQueue.located
  cases stampEq : view.account.stamp with
  | none =>
      rw [stampEq] at explained
      rw [explained slot (List.mem_of_getElem? slotAt)] at stamped
      cases stamped
  | some current =>
      rw [Option.bind_some, slotAt, Option.bind_some, stamped]
      rfl

namespace StreamTwins

theorem produce (unit : geometry.AtUnitRate W) (twins : StreamTwins geometry log view twin)
    {call other : ProducerCall F} (same : twin.blank id = view.blank id)
    (after : (twin.produce geometry other).2.blank id = (view.produce geometry call).2.blank id)
    (replies : (twin.produce geometry other).1 = (view.produce geometry call).1)
    (keeps : RingCall.KeepsTo view.account.stamp ⟨.producer, call⟩)
    (akin : AkinCall (log.perform unitConverter geometry ⟨.producer, call⟩ view)
      ⟨.producer, call⟩ ⟨.producer, other⟩) :
    StreamTwins geometry (log.perform unitConverter geometry ⟨.producer, call⟩ view)
      (view.produce geometry call).2 (twin.produce geometry other).2 := by
  obtain ⟨queue, queue', streams, streams', queues, rfl⟩ := twins
  have stampEq : twin.account.stamp = view.account.stamp :=
    congrArg (fun blanked : RingView Blank Unit W => blanked.account.stamp) same
  have before : twin.account.records = view.account.records :=
    congrArg (fun blanked : RingView Blank Unit W => blanked.account.records) same
  have records : (twin.produce geometry other).2.account.records =
      (view.produce geometry call).2.account.records :=
    congrArg (fun blanked : RingView Blank Unit W => blanked.account.records) after
  have keeps' : RingCall.KeepsTo twin.account.stamp ⟨.producer, other⟩ := by
    rw [stampEq]
    cases akin <;> exact keeps
  obtain ⟨-, kept⟩ := streams.perform unit ⟨.producer, call⟩ (streams.streamCall keeps)
  obtain ⟨-, kept'⟩ := streams'.perform unit ⟨.producer, other⟩ (streams'.streamCall keeps')
  refine ⟨_, _, kept, kept', ?_, rfl⟩
  have accepted := akin.accepted stampEq replies
  unfold PlainQueue.follow
  dsimp only
  rw [records, before]
  exact queues.accept accepted

theorem render (unit : geometry.AtUnitRate W) (twins : StreamTwins geometry log view twin)
    (same : twin.blank id = view.blank id)
    (clean : view.started.muteFault = view.consumer.muteFault) :
    (twin.render unitConverter geometry).1 = (view.render unitConverter geometry).1 ∧
      StreamTwins geometry (log.perform unitConverter geometry ⟨.consumer, .render⟩ view)
        (view.render unitConverter geometry).2 (twin.render unitConverter geometry).2 := by
  obtain ⟨queue, queue', streams, streams', queues, rfl⟩ := twins
  have forgets := Adapter.unitConverter_forgets (F := F) (W := W)
  have stampEq : twin.account.stamp = view.account.stamp :=
    congrArg (fun blanked : RingView Blank Unit W => blanked.account.stamp) same
  have finishEq : twin.finish = view.finish := 
    congrArg (fun blanked : RingView Blank Unit W => blanked.finish) same
  have clean' : twin.started.muteFault = twin.consumer.muteFault := by
    have begun := congrArg (fun blanked : RingView Blank Unit W => blanked.started.muteFault) same
    have before := congrArg (fun blanked : RingView Blank Unit W => blanked.consumer.muteFault) same
    rw [started_blank, started_blank] at begun
    exact Eq.trans begun (clean.trans before.symm)
  have locatedEq : queue'.located twin.account.stamp (twin.exit unitConverter geometry).support =
      queue.located view.account.stamp (view.exit unitConverter geometry).support := by
    rw [stampEq, support_eq_of_blank forgets geometry same]
    obtain ⟨line, lines, rfl⟩ := id queues
    have found := getElem?_related lines queue.emitted
    unfold PlainQueue.located
    dsimp only
    generalize (line)[queue.emitted]? = slot' at found ⊢
    generalize (queue.line)[queue.emitted]? = slot at found ⊢
    cases found with
    | none => rfl
    | some akin => rw [Option.bind_some, Option.bind_some, akin.stamp_eq]
  obtain ⟨output, kept⟩ := streams.perform unit ⟨.consumer, .render⟩ clean
  obtain ⟨output', kept'⟩ := streams'.perform unit ⟨.consumer, .render⟩ clean'
  have logEq := (streams.plays.render_ends unit clean).log_eq
  rw [PlainQueue.render_congr geometry fun awake found =>
    streams.located_eq unit clean awake found] at logEq
  unfold PlainQueue.follow at output output' kept kept'
  dsimp only at output output' kept kept'
  rw [locatedEq, finishEq] at output' kept'
  obtain ⟨rendered, akin⟩ := queues.render (W := W) geometry (decide (FinishPending view.finish))
    fun slot mark slotAt stamped => streams.located_stamped
      (view.exit unitConverter geometry).support slotAt stamped
  refine ⟨?_, _, _, kept, kept', akin, logEq⟩
  exact (Option.some_injective _ output').trans
    (rendered.trans (Option.some_injective _ output).symm)

end StreamTwins

omit [Widening F W] in
theorem streams_reset : Streams geometry
    (PlainQueue.restart view.consumer.quiet { PlainQueue.fresh view.consumer.plc with
      fed := view.fed, missing := view.missing })
    (view.reset unitConverter).2 := by
  have heeds : Heeds ⟨[], []⟩ (view.reset unitConverter).2 := by
    refine ⟨fun interval waiting => (List.not_mem_nil waiting).elim, fun position met => ?_⟩
    obtain ⟨interval, member, -⟩ := met
    exact (List.not_mem_nil member).elim
  refine ⟨plays_restart rfl view.consumer.quiet rfl rfl rfl rfl ?_ heeds, ?_,
    view.account.published, (List.append_nil _).symm⟩
  · have consumer : (view.reset unitConverter).2.consumer =
        { (view.consumer.reset unitConverter).2 with quiet := view.consumer.quiet } := rfl
    exact hears_reset view.consumer view.consumer.quiet consumer
  · exact fun slot member => (List.not_mem_nil member).elim

omit [Widening F W] in
theorem twins_reset (same : twin.blank id = view.blank id)
    (plcEq : twin.consumer.plc = view.consumer.plc) (fedEq : twin.fed = view.fed) :
    StreamTwins geometry ⟨[], []⟩ (view.reset unitConverter).2 (twin.reset unitConverter).2 := by
  have quietEq : twin.consumer.quiet = view.consumer.quiet :=
    congrArg (fun blanked : RingView Blank Unit W => blanked.consumer.quiet) same
  have missingEq : twin.missing = view.missing :=
    congrArg (fun blanked : RingView Blank Unit W => blanked.missing) same
  refine ⟨_, _, streams_reset, streams_reset, ?_, rfl⟩
  rw [quietEq, missingEq, plcEq, fedEq]
  exact .refl _

omit [Widening F W] in
theorem StreamTwins.plc_eq (twins : StreamTwins geometry log view twin) :
    twin.consumer.plc = view.consumer.plc ∧ twin.fed = view.fed := by
  obtain ⟨queue, queue', streams, streams', ⟨line, -, rfl⟩, -⟩ := twins
  exact ⟨streams'.plays.plc_eq.trans streams.plays.plc_eq.symm,
    streams'.plays.fed_eq.trans streams.plays.fed_eq.symm⟩

theorem twins_perform (unit : geometry.AtUnitRate W)
    (stands : StreamTwins geometry log view twin ∨ Latched view twin)
    (same : twin.blank id = view.blank id) {call other : RingCall F}
    (after : (twin.perform unitConverter geometry other).2.blank id =
      (view.perform unitConverter geometry call).2.blank id)
    (report : (twin.perform unitConverter geometry other).1.report =
      (view.perform unitConverter geometry call).1.report)
    (keeps : call.KeepsTo view.account.stamp)
    (akin : AkinCall (log.perform unitConverter geometry call view) call other) :
    (twin.perform unitConverter geometry other).1 = (view.perform unitConverter geometry call).1 ∧
      (StreamTwins geometry (log.perform unitConverter geometry call view)
          (view.perform unitConverter geometry call).2
          (twin.perform unitConverter geometry other).2 ∨
        Latched (view.perform unitConverter geometry call).2
          (twin.perform unitConverter geometry other).2) := by
  have heard : twin.consumer.plc = view.consumer.plc ∧ twin.fed = view.fed :=
    stands.elim StreamTwins.plc_eq fun latched => ⟨latched.plc_eq, latched.fed_eq⟩
  obtain ⟨party, call⟩ := call
  cases party with
  | producer =>
      obtain ⟨other, rfl⟩ : ∃ other', other = ⟨.producer, other'⟩ := by
        cases akin <;> exact ⟨_, rfl⟩
      have replies : (twin.produce geometry other).1 = (view.produce geometry call).1 :=
        Sum.inl_injective report
      refine ⟨congrArg (fun result : ProducerResult => (⟨.producer, result⟩ : RingReply F)) replies,
        stands.imp (fun twins => twins.produce unit same after replies keeps akin)
          fun latched => ?_⟩
      obtain ⟨consumer, -⟩ : view.Grows (view.produce geometry call).2 :=
        RingView.grows_produce call
      obtain ⟨consumer', -⟩ : twin.Grows (twin.produce geometry other).2 :=
        RingView.grows_produce other
      obtain ⟨-, fed, -⟩ := produce_still geometry view call
      obtain ⟨-, fed', -⟩ := produce_still geometry twin other
      refine ⟨?_, ?_, ?_⟩
      · exact (congrArg ConsumerState.muteFault consumer).trans latched.faulted
      · change (twin.produce geometry other).2.consumer.plc =
          (view.produce geometry call).2.consumer.plc
        rw [consumer, consumer']
        exact latched.plc_eq
      · exact fed'.trans (latched.fed_eq.trans fed.symm)
  | consumer =>
      obtain rfl : other = ⟨.consumer, call⟩ := by cases akin; rfl
      cases call with
      | reset => exact ⟨rfl, .inl (twins_reset same heard.1 heard.2)⟩
      | render =>
          have begun : twin.started.muteFault = view.started.muteFault := by
            have blanked := congrArg (fun blanked : RingView Blank Unit W =>
              blanked.started.muteFault) same
            rwa [started_blank, started_blank] at blanked
          by_cases fault : view.started.muteFault = true
          · have silent : view.render unitConverter geometry = _ := render_faulted fault
            have silent' : twin.render unitConverter geometry = _ :=
              render_faulted (begun.trans fault)
            change (⟨.consumer, .rendered (twin.render unitConverter geometry).1⟩ : RingReply F) =
                ⟨.consumer, .rendered (view.render unitConverter geometry).1⟩ ∧
              (_ ∨ Latched (view.render unitConverter geometry).2
                (twin.render unitConverter geometry).2)
            rw [silent, silent']
            exact ⟨rfl, .inr ⟨fault, started_plc.trans (heard.1.trans started_plc.symm), heard.2⟩⟩
          · have silent := Bool.eq_false_iff.mpr fault
            have clean : view.started.muteFault = view.consumer.muteFault :=
              silent.trans (muteFault_of_started silent).symm
            rcases stands with twins | latched
            · obtain ⟨rendered, kept⟩ := twins.render unit same clean
              exact ⟨congrArg (fun output : Rendered F =>
                (⟨.consumer, .rendered output⟩ : RingReply F)) rendered, .inl kept⟩
            · exact (fault (clean.trans latched.faulted)).elim

/-- Two rings between two calls of runs that differ at muted positions. -/
structure TwinRings (geometry : Geometry) (log : StreamLog) (ring twin : Ring F Unit W) :
    Prop where
  holds : ProducerHolds geometry True none ring
  twin_holds : ProducerHolds geometry True none twin
  blank_eq : twin.blank id = ring.blank id
  stands : StreamTwins geometry log (ring.view geometry) (twin.view geometry) ∨
    Latched (ring.view geometry) (twin.view geometry)

variable {ring twin : Ring F Unit W}

omit [Widening F W] in
theorem TwinRings.heard (twins : TwinRings geometry log ring twin) :
    twin.consumer.plc = ring.consumer.plc ∧ twin.ledger.fed = ring.ledger.fed :=
  twins.stands.elim StreamTwins.plc_eq fun latched => ⟨latched.plc_eq, latched.fed_eq⟩

theorem TwinRings.perform (unit : geometry.AtUnitRate W)
    (twins : TwinRings geometry log ring twin) {call other : RingCall F}
    (keeps : call.KeepsTo (ring.view geometry).account.stamp)
    (akin : AkinCall (log.perform unitConverter geometry call (ring.view geometry)) call other) :
    (twin.perform unitConverter geometry other).1 = (ring.perform unitConverter geometry call).1 ∧
      TwinRings geometry (log.perform unitConverter geometry call (ring.view geometry))
        (ring.perform unitConverter geometry call).2
        (twin.perform unitConverter geometry other).2 := by
  obtain ⟨report, memory⟩ := perform_eq_of_blank Adapter.unitConverter_forgets geometry
    akin.blank_eq twins.blank_eq
  obtain ⟨holds, viewed⟩ := perform_view unitConverter twins.holds call
  obtain ⟨twinHolds, twinViewed⟩ := perform_view unitConverter twins.twin_holds other
  have same : (twin.view geometry).blank id = (ring.view geometry).blank id := by
    rw [← view_blank, ← view_blank, twins.blank_eq]
  have after : ((twin.perform unitConverter geometry other).2.view geometry).blank id =
      ((ring.perform unitConverter geometry call).2.view geometry).blank id := by
    rw [← view_blank, ← view_blank, memory]
  have replyEq := congrArg Prod.fst viewed
  have twinReplyEq := congrArg Prod.fst twinViewed
  have viewEq := congrArg Prod.snd viewed
  have twinViewEq := congrArg Prod.snd twinViewed
  dsimp only at replyEq twinReplyEq viewEq twinViewEq
  rw [replyEq, twinReplyEq] at report ⊢
  rw [viewEq, twinViewEq] at after
  obtain ⟨replies, stands⟩ := twins_perform unit twins.stands same after report keeps akin
  refine ⟨replies, holds, twinHolds, memory, ?_⟩
  rw [viewEq, twinViewEq]
  exact stands

omit [Widening F W] in
theorem TwinRings.created {settings : Settings}
    (created : Ring.create unitConverter settings = .ok (geometry, ring)) :
    TwinRings geometry ⟨[], []⟩ ring ring :=
  ⟨producerHolds_created created, producerHolds_created created, rfl,
    .inl ⟨_, _, streams_created created, streams_created created, .refl _, rfl⟩⟩

theorem TwinRings.performAll (unit : geometry.AtUnitRate W)
    (twins : TwinRings geometry log ring twin) (calls : List (RingCall F × RingCall F))
    (akin : TwinCalls geometry calls (ring.view geometry) log) :
    (twin.performAll unitConverter geometry (calls.map Prod.snd)).1 =
        (ring.performAll unitConverter geometry (calls.map Prod.fst)).1 ∧
      ∃ log, TwinRings geometry log
        (ring.performAll unitConverter geometry (calls.map Prod.fst)).2
        (twin.performAll unitConverter geometry (calls.map Prod.snd)).2 := by
  induction calls generalizing ring twin log with
  | nil => exact ⟨rfl, log, twins⟩
  | cons pair rest ih =>
      obtain ⟨keeps, call, others⟩ := akin
      obtain ⟨reply, kept⟩ := twins.perform unit keeps call
      obtain ⟨-, viewed⟩ := perform_view unitConverter twins.holds pair.1
      rw [← congrArg Prod.snd viewed] at others
      obtain ⟨replies, last⟩ := ih kept others
      exact ⟨congrArg₂ List.cons reply replies, last⟩

end Twins

theorem observe_blank {T : Type} (erase : S → T) (geometry : Geometry) (ring : Ring F S W) :
    (ring.blank erase).observe geometry = ring.observe geometry := by
  have mirrored : Blanks geometry erase Same (available geometry : RingProgram F S W Nat)
      (available geometry) := available_blank geometry
  obtain ⟨availableEq, -⟩ := mirrored.run ring
  exact congrArg (fun count => ({ ring.observe geometry with
    availableSamples := count } : CObservation)) availableEq

section Unheard

variable [Binary32 F] [Binary64 W] [OrderedBinary64 W] [Widening F W] {geometry : Geometry}

/-- Samples at muted positions are never heard: two runs that differ in nothing else
reply, observe and conceal the same. -/
theorem muted_samples_unheard {settings : Settings} {ring : Ring F Unit W}
    (created : Ring.create unitConverter settings = .ok (geometry, ring))
    (calls : List (RingCall F × RingCall F))
    (akin : TwinCalls geometry calls (ring.view geometry) ⟨[], []⟩) :
    let run := ring.performAll unitConverter geometry (calls.map Prod.fst)
    let twin := ring.performAll unitConverter geometry (calls.map Prod.snd)
    twin.1 = run.1 ∧ twin.2.observe geometry = run.2.observe geometry ∧
      twin.2.consumer.plc = run.2.consumer.plc ∧ twin.2.ledger.fed = run.2.ledger.fed := by
  intro run twin
  have unit : geometry.AtUnitRate W := atUnitRate_created created
  have starts := TwinRings.created created
  obtain ⟨replies, log, twins⟩ := starts.performAll unit calls akin
  refine ⟨replies, ?_, twins.heard⟩
  rw [← observe_blank id, twins.blank_eq, observe_blank]

end Unheard

/-- A block whose second sample is muted, and two renders. -/
def mutedBlock (sample : ℚ) : List (RingCall ℚ) :=
  [⟨.producer, .pushTagged [1 / 8, sample] 0 0 [⟨1, 2⟩]⟩, ⟨.consumer, .render⟩,
    ⟨.consumer, .render⟩]

theorem muted_sample_unheard : ∃ geometry ring,
    Ring.create (unitConverter (F := ℚ) (W := ℚ)) smallSettings = .ok (geometry, ring) ∧
    (ring.performAll unitConverter geometry (mutedBlock (1 / 2))).1 =
      (ring.performAll unitConverter geometry (mutedBlock (1 / 4))).1 := by
  let input : List ℚ := [1 / 8, 1 / 4]
  let twin : List ℚ := [1 / 8, 1 / 2]
  let push (samples : List ℚ) : RingCall ℚ := ⟨.producer, .pushTagged samples 0 0 [⟨1, 2⟩]⟩
  obtain ⟨geometry, ring, created, checked⟩ := exists_created
    (unitConverter (F := ℚ) (W := ℚ)) smallSettings
    (fun geometry ring => decide ((ring.view geometry).account.stamp = none ∧
      ∀ index < input.length, (twin)[index]? = (input)[index]? ∨
        (StreamLog.perform unitConverter geometry (push input) (ring.view geometry) ⟨[], []⟩).Mutes
          (some (Stamp.support ⟨0, 0 + index⟩))))
    (by decide +kernel)
  obtain ⟨unstamped, differs⟩ := of_decide_eq_true checked
  refine ⟨geometry, ring, created, (muted_samples_unheard created
    [(push input, push twin), (⟨.consumer, .render⟩, ⟨.consumer, .render⟩),
      (⟨.consumer, .render⟩, ⟨.consumer, .render⟩)] ⟨fun mark member => ?_, ?_, ?_⟩).1⟩
  · rw [unstamped] at member
    cases member
  · exact .muted 0 0 [⟨1, 2⟩] rfl differs
  · exact ⟨trivial, .same _, trivial, .same _, trivial⟩

end PcmRing
