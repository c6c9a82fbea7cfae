import PcmRing.FiniteDrain

/-!
# Streams one after another

Boundaries and resets end a stream and begin the next one.  As long as each stream
keeps to one generation, every run of the ring at unit rate is a run of the plain
queue, whose slots lie where their stamps say.
-/

namespace PcmRing

open TwoLapQueue

variable {F S W : Type}

/-- The producer's stamp explains every stamp of the stream behind it. -/
def Explained (stamp : Option Stamp) (line : List (SourceSample F)) : Prop :=
  match stamp with
  | none => ∀ slot ∈ line, slot.stamp = none
  | some mark => mark.source < 2 ^ 64 ∧ ∀ (index : Nat) slot earlier,
      (line)[index]? = some slot → slot.stamp = some earlier →
        earlier.generation = mark.generation ∧
          (earlier.source : Int) - index = (mark.source : Int) - line.length

namespace Explained

open ProducerAccount

variable {stamp : Option Stamp} {line : List (SourceSample F)}

theorem contiguous (explained : Explained stamp line) : Contiguous line := by
  cases stamp with
  | none =>
      refine ⟨(0, 0), fun index slot mark slotAt stamped => ?_⟩
      rw [explained slot (List.mem_of_getElem? slotAt)] at stamped
      cases stamped
  | some current =>
      refine ⟨(current.generation, current.source - line.length), ?_⟩
      intro index slot mark slotAt stamped
      obtain ⟨generation, source⟩ := explained.2 index slot mark slotAt stamped
      rw [generation, source]

theorem append (explained : Explained stamp line) (samples : List (SourceSample F))
    (within : ∀ mark ∈ stamp, mark.source + samples.length < 2 ^ 64) :
    Explained (stamp.map (Stamp.advance samples.length)) (line ++ stamped stamp samples) := by
  cases stamp with
  | none =>
      intro slot member
      rcases List.mem_append.mp member with earlier | new
      · exact explained slot earlier
      · obtain ⟨index, inside, rfl⟩ := List.mem_mapIdx.mp new
        rfl
  | some mark =>
      refine ⟨within mark rfl, fun index slot earlier slotAt marked => ?_⟩
      rw [List.length_append, stamped_length]
      change earlier.generation = mark.generation ∧
        (earlier.source : Int) - index = ((mark.source + samples.length : Nat) : Int) - _
      rcases Nat.lt_or_ge index line.length with old | new
      · rw [List.getElem?_append_left old] at slotAt
        obtain ⟨generation, source⟩ := explained.2 index slot earlier slotAt marked
        exact ⟨generation, by omega⟩
      · rw [List.getElem?_append_right new] at slotAt
        obtain ⟨sample, -, rfl⟩ := Option.map_eq_some_iff.mp
          ((List.getElem?_mapIdx (l := samples)).symm.trans slotAt)
        cases marked
        refine ⟨rfl, ?_⟩
        change ((mark.source + (index - line.length) : Nat) : Int) - index = _
        omega

/-- A tag that continues the stamp, or the first one of its stream. -/
theorem tag {mark : Stamp} (explained : Explained stamp line) (small : mark.source < 2 ^ 64)
    (continues : stamp = some mark ∨ ∀ slot ∈ line, slot.stamp = none) :
    Explained (some mark) line := by
  rcases continues with rfl | unstamped
  · exact explained
  · refine ⟨small, fun index slot earlier slotAt marked => ?_⟩
    rw [unstamped slot (List.mem_of_getElem? slotAt)] at marked
    cases marked

end Explained

/-- What was accepted since `earlier` is explained. -/
def Continues (earlier : List (SourceSample F)) (account : ProducerAccount F) : Prop :=
  ∃ line, account.published = earlier ++ line ∧ Explained account.stamp line

namespace Continues

variable {earlier : List (SourceSample F)} {account : ProducerAccount F}

theorem discard (continues : Continues earlier account) (count : Nat) :
    Continues earlier (account.discard count) :=
  continues

theorem accept (continues : Continues earlier account) (samples : List (SourceSample F))
    (within : ∀ mark ∈ account.stamp, mark.source + samples.length < 2 ^ 64) :
    Continues earlier (account.accept samples) := by
  obtain ⟨line, whole, explained⟩ := continues
  refine ⟨_, ?_, explained.append samples within⟩
  change account.published ++ _ = _
  rw [whole, List.append_assoc]

theorem publishOne (continues : Continues earlier account) (free : Nat)
    (sample : SourceSample F) : Continues earlier (account.publishOne free sample).2 := by
  unfold ProducerAccount.publishOne
  split
  · exact continues.discard 1
  · split
    · rename_i fits
      exact continues.accept [sample] (fits.resolve_left (by decide))
    · exact continues

theorem publishAll (continues : Continues earlier account) (samples : List (SourceSample F))
    (free : Nat) : Continues earlier (account.publishAll samples free).2 := by
  induction samples generalizing account free with
  | nil => exact continues
  | cons sample rest ih =>
      have one := continues.publishOne free sample
      unfold ProducerAccount.publishAll
      dsimp only
      split
      · exact ih one (free - 1)
      · exact one.discard rest.length

theorem tagged [Binary32 F] (continues : Continues earlier account)
    {generation sourceStart : Nat} {spans : List Span} {input : List F} (room : Nat)
    (fits : sourceStart + input.length < 2 ^ 64)
    (follows : account.stamp = some ⟨generation, sourceStart⟩ ∨
      ∀ line, account.published = earlier ++ line → ∀ slot ∈ line, slot.stamp = none) :
    Continues earlier (taggedAccount generation sourceStart spans input room account) := by
  unfold taggedAccount
  dsimp only
  split
  · exact continues.discard _
  · apply Continues.discard
    apply Continues.accept
    · obtain ⟨line, whole, explained⟩ := continues
      refine ⟨line, whole, explained.tag ?_ (follows.imp_right fun unstamped =>
        unstamped line whole)⟩
      change sourceStart < 2 ^ 64
      omega
    · intro mark member
      cases member
      rw [List.length_map, List.length_take]
      dsimp only
      omega

end Continues

/-- A tagged block keeps to the generation of its stream, and a render finds room
in the mute history. -/
def StreamCall (view : RingView F S W) (queue : PlainQueue F) : RingCall F → Prop
  | ⟨.producer, .pushTagged _ generation _ _⟩ =>
      (∃ mark ∈ view.account.stamp, mark.generation = generation) ∨
        ∀ slot ∈ queue.line, slot.stamp = none
  | ⟨.consumer, .render⟩ => view.started.muteFault = view.consumer.muteFault
  | ⟨.producer, _⟩ | ⟨.consumer, .reset⟩ => True

instance (view : RingView F S W) (queue : PlainQueue F) :
    (call : RingCall F) → Decidable (StreamCall view queue call)
  | ⟨.producer, .pushTagged _ generation _ _⟩ =>
      inferInstanceAs (Decidable ((∃ mark ∈ view.account.stamp, mark.generation = generation) ∨
        ∀ slot ∈ queue.line, slot.stamp = none))
  | ⟨.consumer, .render⟩ =>
      inferInstanceAs (Decidable (view.started.muteFault = view.consumer.muteFault))
  | ⟨.producer, .pushSample _⟩ | ⟨.producer, .push _⟩ | ⟨.producer, .gap _⟩
  | ⟨.producer, .mute ..⟩ | ⟨.producer, .finish⟩ | ⟨.producer, .status _⟩
  | ⟨.consumer, .reset⟩ => .isTrue trivial

/-- What a producer call accepts is explained with what was accepted before. -/
theorem Continues.produce [Binary32 F] (geometry : Geometry) {view : RingView F S W}
    {earlier : List (SourceSample F)} {queue : PlainQueue F}
    (whole : view.account.published = earlier ++ queue.line)
    (continues : Continues earlier view.account) (call : ProducerCall F)
    (admitted : StreamCall view queue ⟨.producer, call⟩) :
    Continues earlier (view.produce geometry call).2.account := by
  unfold RingView.produce
  cases call with
  | pushSample sample =>
      dsimp only
      split
      · exact continues
      · exact continues.publishOne _ _
  | push input =>
      unfold RingView.publishBlock
      dsimp only
      split
      · exact continues
      · exact continues.publishAll _ _
  | gap samples =>
      unfold RingView.publishBlock
      dsimp only
      split
      · exact continues
      · exact continues.publishAll _ _
  | pushTagged input generation sourceStart spans =>
      dsimp only
      split
      · exact continues
      split
      · exact continues
      rename_i valid
      split
      · exact continues
      obtain ⟨valid, follows⟩ := not_or.mp valid
      have fits : sourceStart + input.length < 2 ^ 64 := not_le.mp (not_or.mp valid).1
      apply continues.tagged _ fits
      rcases admitted with ⟨mark, member, rfl⟩ | unstamped
      · left
        have source : mark.source = sourceStart := by
          by_contra differs
          exact follows ⟨mark, member, rfl, differs⟩
        rw [Option.mem_def.mp member, ← source]
      · refine .inr fun line lineEq => ?_
        rwa [List.append_cancel_left (lineEq.symm.trans whole)]
  | mute generation spans =>
      dsimp only
      split
      · exact continues
      split
      · exact continues
      · exact continues
  | finish =>
      dsimp only
      split
      · exact continues
      split
      · exact continues
      · exact continues
  | status token => exact continues

namespace PlainQueue

/-- Where the next slot lies: at its own stamp; nowhere while nothing of its stream is
stamped; and where the consumer maps it in front of the first stamp. -/
def located (stamp : Option Stamp) (mapped : Option Position) (queue : PlainQueue F) :
    Option Position :=
  stamp.bind fun _ =>
    (((queue.line)[queue.emitted]?).bind SourceSample.stamp).elim mapped fun mark =>
      some mark.support

variable [Binary32 F] [Binary64 W] [Widening F W] (geometry : Geometry)

/-- One call of a run of streams. -/
def follow (call : RingCall F) (view : RingView F Unit W) (queue : PlainQueue F) :
    Option (Rendered F) × PlainQueue F :=
  match call with
  | ⟨.producer, call⟩ => (none, queue.accept (view.accepted geometry call)
      ((view.produce geometry call).2.account.records.drop view.account.records.length))
  | ⟨.consumer, .render⟩ =>
      let rendered := queue.render W geometry (decide (FinishPending view.finish))
        (queue.located view.account.stamp (view.exit unitConverter geometry).support)
      (some rendered.1, rendered.2)
  | ⟨.consumer, .reset⟩ => (none, queue.restart queue.quiet)

/-- The outputs of a run of streams, and the queue behind it. -/
def followAll : List (RingCall F) → RingView F Unit W → PlainQueue F →
    List (Rendered F) × PlainQueue F
  | [], _, queue => ([], queue)
  | call :: rest, view, queue =>
      let first := queue.follow geometry call view
      let others := followAll rest (view.perform unitConverter geometry call).2 first.2
      (first.1.toList ++ others.1, others.2)

theorem followAll_cons (call : RingCall F) (rest : List (RingCall F)) (view : RingView F Unit W)
    (queue : PlainQueue F) : queue.followAll geometry (call :: rest) view =
      ((queue.follow geometry call view).1.toList ++
        ((queue.follow geometry call view).2.followAll geometry rest
          (view.perform unitConverter geometry call).2).1,
        ((queue.follow geometry call view).2.followAll geometry rest
          (view.perform unitConverter geometry call).2).2) := rfl

/-- Every call of a run keeps to the generation of its stream. -/
def StreamCalls : List (RingCall F) → RingView F Unit W → PlainQueue F → Prop
  | [], _, _ => True
  | call :: rest, view, queue => StreamCall view queue call ∧
      StreamCalls rest (view.perform unitConverter geometry call).2
        (queue.follow geometry call view).2

/-- Whether every call of a run keeps to its stream. -/
def streamCalls : (calls : List (RingCall F)) → (view : RingView F Unit W) →
    (queue : PlainQueue F) → Decidable (queue.StreamCalls geometry calls view)
  | [], _, _ => .isTrue trivial
  | call :: rest, view, queue =>
      have := streamCalls rest (view.perform unitConverter geometry call).2
        (queue.follow geometry call view).2
      inferInstanceAs (Decidable (StreamCall view queue call ∧ _))

instance (calls : List (RingCall F)) (view : RingView F Unit W) (queue : PlainQueue F) :
    Decidable (queue.StreamCalls geometry calls view) :=
  streamCalls geometry calls view queue

omit [Widening F W] in
/-- Where nothing is left to emit the support does not matter. -/
theorem render_congr {queue : PlainQueue F} [Widening F W] {support located : Option Position}
    {pending : Bool} (same : ¬queue.Rests geometry pending → queue.emitted < queue.line.length →
      support = located) :
    queue.render W geometry pending support = queue.render W geometry pending located := by
  unfold PlainQueue.render
  by_cases rests : queue.Rests geometry pending
  · rw [if_pos rests, if_pos rests]
  · rw [if_neg rests, if_neg rests]
    by_cases found : queue.emitted < queue.line.length
    · rw [if_pos found, if_pos found, same rests found]
    · rw [if_neg found, if_neg found]

/-- Only the render that completes a stream drops its line. -/
theorem render_line {queue : PlainQueue F} {pending : Bool} (support : Option Position)
    (kept : ¬queue.Over geometry pending) :
    (queue.render W geometry pending support).2.line = queue.line := by
  unfold PlainQueue.render
  by_cases rests : queue.Rests geometry pending
  · rw [if_pos rests]
  rw [if_neg rests]
  by_cases found : queue.emitted < queue.line.length
  · rw [if_pos found]
    rfl
  rw [if_neg found]
  by_cases idle : pending = false
  · rw [if_pos idle]
    rfl
  rw [if_neg idle]
  by_cases left : queue.released < geometry.lookahead
  · rw [if_pos left]
    rfl
  · exact (kept ⟨by simpa using idle, not_lt.mp found, not_lt.mp left⟩).elim

end PlainQueue

/-- The ring between two calls of a run of streams. -/
structure Streams [Binary32 F] [Binary64 W] [OrderedBinary64 W] (geometry : Geometry)
    (queue : PlainQueue F) (view : RingView F Unit W) : Prop where
  plays : Plays geometry queue view
  explained : Explained view.account.stamp queue.line
  whole : ∃ earlier, view.account.published = earlier ++ queue.line

section Streaming

variable [Binary32 F] [Binary64 W] [OrderedBinary64 W] [Widening F W] {geometry : Geometry}
  {queue : PlainQueue F} {view : RingView F Unit W}

omit [Widening F W] in
/-- The consumer maps the next output to the stamp of its slot. -/
theorem Streams.located_eq (unit : geometry.AtUnitRate W) (streams : Streams geometry queue view)
    (clean : view.started.muteFault = view.consumer.muteFault)
    (awake : ¬queue.Rests geometry (decide (FinishPending view.finish)))
    (found : queue.emitted < queue.line.length) :
    (view.exit unitConverter geometry).support =
      queue.located view.account.stamp (view.exit unitConverter geometry).support := by
  obtain ⟨mapped, unmapped⟩ := streams.plays.support_of_stamp unit clean awake found
  have explained := streams.explained
  have slotAt := List.getElem?_eq_getElem found
  unfold PlainQueue.located
  cases stampEq : view.account.stamp with
  | none =>
      rw [stampEq] at explained
      exact unmapped explained
  | some current =>
      rw [stampEq] at explained
      rw [Option.bind_some, slotAt, Option.bind_some]
      cases markEq : (queue.line)[queue.emitted].stamp with
      | none => rfl
      | some mark =>
          obtain ⟨-, source⟩ := explained.2 _ _ _ slotAt markEq
          have small := explained.1
          exact mapped _ mark slotAt markEq (by omega)

theorem Streams.perform (unit : geometry.AtUnitRate W) (streams : Streams geometry queue view)
    (call : RingCall F) (admitted : StreamCall view queue call) :
    (view.perform unitConverter geometry call).1.output = (queue.follow geometry call view).1 ∧
      Streams geometry (queue.follow geometry call view).2
        (view.perform unitConverter geometry call).2 := by
  obtain ⟨earlier, whole⟩ := streams.whole
  obtain ⟨party, call⟩ := call
  cases party with
  | producer =>
      have continues : Continues earlier view.account := ⟨queue.line, whole, streams.explained⟩
      obtain ⟨line, wholeLine, explained⟩ :=
        continues.produce geometry whole call admitted
      obtain ⟨-, fresh, -, published⟩ : view.Grows (view.produce geometry call).2 :=
        RingView.grows_produce call
      have grown : queue.line ++ view.accepted geometry call = line := by
        unfold RingView.accepted
        rw [published, List.drop_left]
        rw [published, whole, List.append_assoc] at wholeLine
        exact List.append_cancel_left wholeLine
      rw [← grown] at wholeLine explained
      have plays := streams.plays.produce unit.sized call explained.contiguous
      exact ⟨rfl, plays, explained, earlier, wholeLine⟩
  | consumer =>
      cases call with
      | reset =>
          refine ⟨rfl, streams.plays.reset unit.sized, ?_, view.account.published, ?_⟩
          · exact fun slot member => (List.not_mem_nil member).elim
          · exact (List.append_nil _).symm
      | render =>
          obtain ⟨rendered, plays⟩ := streams.plays.render unit admitted
          have ends := streams.plays.render_ends unit admitted
          have locatedEq : queue.render W geometry (decide (FinishPending view.finish))
              (view.exit unitConverter geometry).support =
                queue.render W geometry (decide (FinishPending view.finish))
                  (queue.located view.account.stamp (view.exit unitConverter geometry).support) :=
            PlainQueue.render_congr geometry fun awake found =>
              streams.located_eq unit admitted awake found
          refine ⟨congrArg some (rendered.trans (congrArg Prod.fst locatedEq)), ?_⟩
          change Streams geometry (queue.render W geometry (decide (FinishPending view.finish))
            (queue.located view.account.stamp (view.exit unitConverter geometry).support)).2
            (view.render unitConverter geometry).2
          rw [← locatedEq]
          by_cases expired : queue.Over geometry (decide (FinishPending view.finish))
          · obtain ⟨accountEq, -⟩ := ends.expired expired
            have restarted : (queue.render W geometry (decide (FinishPending view.finish))
                (view.exit unitConverter geometry).support).2.line = [] := by
              obtain ⟨pending, emitted, released⟩ := expired
              unfold PlainQueue.render
              rw [if_neg fun rests => Bool.noConfusion (rests.1.symm.trans pending),
                if_neg (not_lt.mpr emitted), if_neg (by rw [pending]; decide),
                if_neg (not_lt.mpr released)]
              rfl
            refine ⟨plays, ?_, view.account.published, ?_⟩
            · rw [accountEq, restarted]
              exact fun slot member => (List.not_mem_nil member).elim
            · rw [accountEq, restarted, List.append_nil]
          · obtain ⟨accountEq, -⟩ := ends.aside expired
            have lineEq : (queue.render W geometry (decide (FinishPending view.finish))
                (view.exit unitConverter geometry).support).2.line = queue.line :=
              PlainQueue.render_line geometry _ expired
            refine ⟨plays, ?_, earlier, ?_⟩
            · rw [accountEq, lineEq]
              exact streams.explained
            · rw [accountEq, lineEq]
              exact whole

theorem Streams.performAll (unit : geometry.AtUnitRate W)
    (streams : Streams geometry queue view) (calls : List (RingCall F))
    (admitted : queue.StreamCalls geometry calls view) :
    (view.performAll unitConverter geometry calls).1.filterMap RingReply.output =
        (queue.followAll geometry calls view).1 ∧
      Streams geometry (queue.followAll geometry calls view).2
        (view.performAll unitConverter geometry calls).2 := by
  induction calls generalizing view queue with
  | nil => exact ⟨rfl, streams⟩
  | cons call rest ih =>
      obtain ⟨first, kept⟩ := streams.perform unit call admitted.1
      obtain ⟨others, ended⟩ := ih kept admitted.2
      refine ⟨?_, ended⟩
      rw [RingView.performAll_cons, PlainQueue.followAll_cons, List.filterMap_cons, first, others]
      cases (queue.follow geometry call view).1 <;> rfl

omit [Widening F W] in
theorem streams_created {settings : Settings} {ring : Ring F Unit W}
    (created : Ring.create unitConverter settings = .ok (geometry, ring)) :
    Streams geometry (.fresh ring.consumer.plc) (ring.view geometry) := by
  have plays := plays_created created
  obtain ⟨-, outputDelay, queued, converter, rfl, rfl⟩ := create_cases created
  exact ⟨plays, fun slot member => (List.not_mem_nil member).elim, [], rfl⟩

/-- Through any boundaries and resets the ring at unit rate plays one queue after
the other, and between two calls it holds what the queue holds. -/
theorem plays_streams {settings : Settings} {ring : Ring F Unit W}
    (created : Ring.create unitConverter settings = .ok (geometry, ring))
    (calls : List (RingCall F))
    (admitted : (PlainQueue.fresh ring.consumer.plc).StreamCalls geometry calls
      (ring.view geometry)) :
    let run := ring.performAll unitConverter geometry calls
    let played := (PlainQueue.fresh ring.consumer.plc).followAll geometry calls (ring.view geometry)
    run.1.filterMap RingReply.output = played.1 ∧
      (∃ earlier, run.2.pcm.published = earlier ++ played.2.line) ∧
      run.2.ledger.fed = played.2.fed ∧
      run.2.counters .missing = played.2.missing ∧
      run.2.consumer.plc = played.2.plc ∧
      played.2.emitted ≤ played.2.line.length ∧
      (run.2.consumer.finite = none →
        played.2.line.length = played.2.emitted + run.2.held geometry) := by
  intro run played
  have unit : geometry.AtUnitRate W := atUnitRate_created created
  obtain ⟨outputs, streams⟩ := (streams_created created).performAll unit calls admitted
  obtain ⟨-, viewed⟩ := performAll_view unitConverter (producerHolds_created created) calls
  rw [← congrArg Prod.fst viewed] at outputs
  rw [← congrArg Prod.snd viewed] at streams
  have plays := streams.plays
  exact ⟨outputs, streams.whole, plays.fed_eq, plays.missing_eq, plays.plc_eq, plays.reached,
    fun streaming => plays.held streaming⟩

end Streaming

/-- A stream that drains, a stream of the next generation, and a reset. -/
def streamsOfTwoGenerations : List (RingCall ℚ) :=
  [⟨.producer, .push [1 / 8]⟩, ⟨.producer, .pushTagged [1 / 2, 1 / 4] 0 0 [⟨1, 2⟩]⟩,
    ⟨.producer, .finish⟩, ⟨.consumer, .render⟩, ⟨.consumer, .render⟩, ⟨.consumer, .render⟩,
    ⟨.consumer, .render⟩, ⟨.producer, .pushTagged [1] 1 0 []⟩, ⟨.consumer, .render⟩,
    ⟨.consumer, .reset⟩, ⟨.consumer, .render⟩]

theorem streams_of_two_generations_play : ∃ geometry ring,
    Ring.create (unitConverter (F := ℚ) (W := ℚ)) smallSettings = .ok (geometry, ring) ∧
    (ring.performAll unitConverter geometry streamsOfTwoGenerations).1.filterMap
        RingReply.output =
      ((PlainQueue.fresh ring.consumer.plc).followAll geometry streamsOfTwoGenerations
        (ring.view geometry)).1 := by
  obtain ⟨geometry, ring, created, admitted⟩ := exists_created
    (unitConverter (F := ℚ) (W := ℚ)) smallSettings
    (fun geometry ring =>
      decide ((PlainQueue.fresh ring.consumer.plc).StreamCalls geometry
        streamsOfTwoGenerations (ring.view geometry)))
    (by decide +kernel)
  exact ⟨geometry, ring, created,
    (plays_streams created streamsOfTwoGenerations (of_decide_eq_true admitted)).1⟩

end PcmRing
