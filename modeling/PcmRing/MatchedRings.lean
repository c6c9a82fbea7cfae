import PcmRing.AtomicRuns
import PcmRing.StaleState

/-!
# Rings that answer alike

Two atomic rings with the same queues and consumers that behave alike answer
every call alike, up to the tokens of their boundaries, whatever their producers
accepted before.
-/

namespace PcmRing

open AtomicProgram TwoLapQueue

variable {F S W : Type}

namespace ProducerAccount

/-- Both accounts grew by the same and continue the same stamp. -/
structure Tracks (before other after after' : ProducerAccount F) : Prop where
  stamp_eq : after'.stamp = after.stamp
  published : ∃ fresh, after.published = before.published ++ fresh ∧
    after'.published = other.published ++ fresh
  records : ∃ fresh, after.records = before.records ++ fresh ∧
    after'.records = other.records ++ fresh

variable {account other : ProducerAccount F}

theorem Tracks.trans {middle middle' after after' : ProducerAccount F}
    (first : Tracks account other middle middle') (second : Tracks middle middle' after after') :
    Tracks account other after after' := by
  obtain ⟨fresh, grown, grown'⟩ := first.published
  obtain ⟨more, later, later'⟩ := second.published
  obtain ⟨records, noted, noted'⟩ := first.records
  obtain ⟨others, ends, ends'⟩ := second.records
  refine ⟨second.stamp_eq, ⟨fresh ++ more, ?_, ?_⟩, ⟨records ++ others, ?_, ?_⟩⟩
  · rw [later, grown, List.append_assoc]
  · rw [later', grown', List.append_assoc]
  · rw [ends, noted, List.append_assoc]
  · rw [ends', noted', List.append_assoc]

theorem tracks_discard (same : other.stamp = account.stamp) (count : Nat) :
    Tracks account other (account.discard count) (other.discard count) :=
  ⟨same, ⟨[], (List.append_nil _).symm, (List.append_nil _).symm⟩,
    ⟨[], (List.append_nil _).symm, (List.append_nil _).symm⟩⟩

theorem tracks_self (same : other.stamp = account.stamp) : Tracks account other account other :=
  ⟨same, ⟨[], (List.append_nil _).symm, (List.append_nil _).symm⟩,
    ⟨[], (List.append_nil _).symm, (List.append_nil _).symm⟩⟩

theorem tracks_accept (same : other.stamp = account.stamp) (samples : List (SourceSample F)) :
    Tracks account other (account.accept samples) (other.accept samples) := by
  refine ⟨?_, ⟨stamped account.stamp samples, rfl, ?_⟩,
    ⟨[], (List.append_nil _).symm, (List.append_nil _).symm⟩⟩ <;> simp only [accept, same]

theorem publishOne_tracks (same : other.stamp = account.stamp) (free : Nat)
    (sample : SourceSample F) :
    (other.publishOne free sample).1 = (account.publishOne free sample).1 ∧
      Tracks account other (account.publishOne free sample).2
        (other.publishOne free sample).2 := by
  unfold publishOne
  rw [same]
  by_cases full : free = 0
  · rw [if_pos full, if_pos full]
    exact ⟨rfl, tracks_discard same 1⟩
  · rw [if_neg full, if_neg full]
    by_cases within : Within account.stamp 1
    · rw [if_pos within, if_pos within]
      exact ⟨rfl, tracks_accept same _⟩
    · rw [if_neg within, if_neg within]
      exact ⟨rfl, tracks_self same⟩

theorem publishAll_tracks (same : other.stamp = account.stamp) (samples : List (SourceSample F))
    (free : Nat) :
    (other.publishAll samples free).1 = (account.publishAll samples free).1 ∧
      Tracks account other (account.publishAll samples free).2
        (other.publishAll samples free).2 := by
  induction samples generalizing account other free with
  | nil => exact ⟨rfl, tracks_self same⟩
  | cons sample rest ih =>
      obtain ⟨sameOne, one⟩ := publishOne_tracks same free sample
      unfold publishAll
      dsimp only
      rw [sameOne]
      by_cases accepted : (account.publishOne free sample).1 = true
      · rw [if_pos accepted, if_pos accepted]
        obtain ⟨sameAll, all⟩ := ih one.stamp_eq (free - 1)
        exact ⟨congrArg (· + 1) sameAll, one.trans all⟩
      · rw [if_neg accepted, if_neg accepted]
        exact ⟨rfl, one.trans (tracks_discard one.stamp_eq _)⟩

theorem taggedAccount_tracks [Binary32 F] (same : other.stamp = account.stamp)
    (generation sourceStart : Nat) (spans : List Span) (input : List F) (room : Nat) :
    Tracks account other (taggedAccount generation sourceStart spans input room account)
      (taggedAccount generation sourceStart spans input room other) := by
  unfold taggedAccount
  dsimp only
  split
  · exact tracks_discard same _
  · have tagged : Tracks account other
        (account.tag (clippedIntervals generation spans
          (sourceStart + min input.length room)) ⟨generation, sourceStart⟩)
        (other.tag (clippedIntervals generation spans
          (sourceStart + min input.length room)) ⟨generation, sourceStart⟩) :=
      ⟨rfl, ⟨[], (List.append_nil _).symm, (List.append_nil _).symm⟩, ⟨_, rfl, rfl⟩⟩
    have accepted := tagged.trans (tracks_accept tagged.stamp_eq
      ((input.take (min input.length room)).map pcmSlot))
    exact accepted.trans (tracks_discard accepted.stamp_eq _)

end ProducerAccount

namespace RingView

/-- The queues, the stamp and the gate are the same, and the consumers are related. -/
structure Matches (related : ConsumerState F S W → ConsumerState F S W → Prop)
    (view other : RingView F S W) : Prop where
  slots_eq : other.slots = view.slots
  records_eq : other.records = view.records
  stamp_eq : other.account.stamp = view.account.stamp
  pending : FinishPending other.finish ↔ FinishPending view.finish
  consumer : related view.consumer other.consumer

variable {related : ConsumerState F S W → ConsumerState F S W → Prop}
  {view other : RingView F S W}

theorem Matches.produced (same : view.Matches related other)
    {account account' : ProducerAccount F}
    (tracks : ProducerAccount.Tracks view.account other.account account account') :
    (view.produced account).Matches related (other.produced account') := by
  obtain ⟨fresh, grown, grown'⟩ := tracks.published
  obtain ⟨records, noted, noted'⟩ := tracks.records
  refine ⟨?_, ?_, tracks.stamp_eq, same.pending, same.consumer⟩
  · simp only [RingView.produced, grown, grown', List.drop_left, same.slots_eq]
  · simp only [RingView.produced, noted, noted', List.drop_left, same.records_eq]

end RingView

/-- What two rings answer alike: everything but the tokens of their boundaries. -/
def RingReply.plain : RingReply F → Option (RingReply F)
  | ⟨.producer, .token _⟩ | ⟨.producer, .status _⟩ => none
  | reply => some reply

namespace RingView

variable {related : ConsumerState F S W → ConsumerState F S W → Prop}
  {view other : RingView F S W}

/-- A boundary can be requested, as far as the tokens are concerned. -/
def HasToken (finish : Nat) : Prop :=
  finish / 4 + 1 < 2 ^ 62

theorem Matches.publishBlock (same : view.Matches related other) (geometry : Geometry)
    (samples : List (SourceSample F)) :
    (other.publishBlock geometry samples).1 = (view.publishBlock geometry samples).1 ∧
      (view.publishBlock geometry samples).2.Matches related
        (other.publishBlock geometry samples).2 := by
  have room : other.room geometry = view.room geometry := by
    unfold RingView.room
    rw [same.slots_eq]
  unfold RingView.publishBlock
  rw [room]
  by_cases pending : FinishPending view.finish
  · rw [if_pos pending, if_pos (same.pending.mpr pending)]
    exact ⟨rfl, same⟩
  · rw [if_neg pending, if_neg fun found => pending (same.pending.mp found)]
    obtain ⟨sameAll, all⟩ := ProducerAccount.publishAll_tracks same.stamp_eq samples
      (view.room geometry)
    exact ⟨sameAll, same.produced all⟩

theorem pending_of_token (token : Nat) : FinishPending ((token + 1) * 4) := by
  unfold FinishPending
  omega

theorem Matches.produce [Binary32 F] (same : view.Matches related other) (geometry : Geometry)
    (call : ProducerCall F)
    (tokens : call = .finish → HasToken view.finish ∧ HasToken other.finish) :
    RingReply.plain (⟨.producer, (other.produce geometry call).1⟩ : RingReply F) =
        RingReply.plain ⟨.producer, (view.produce geometry call).1⟩ ∧
      (view.produce geometry call).2.Matches related (other.produce geometry call).2 := by
  have room : other.room geometry = view.room geometry := by
    unfold RingView.room
    rw [same.slots_eq]
  unfold RingView.produce
  cases call with
  | pushSample sample =>
      dsimp only
      rw [room]
      by_cases pending : FinishPending view.finish
      · rw [if_pos pending, if_pos (same.pending.mpr pending)]
        exact ⟨rfl, same⟩
      · rw [if_neg pending, if_neg fun found => pending (same.pending.mp found)]
        obtain ⟨sameOne, one⟩ := ProducerAccount.publishOne_tracks same.stamp_eq
          (view.room geometry) (pcmSlot sample)
        exact ⟨by rw [sameOne], same.produced one⟩
  | push input =>
      obtain ⟨sameBlock, block⟩ := same.publishBlock geometry (input.map pcmSlot)
      dsimp only
      rw [sameBlock]
      exact ⟨rfl, block⟩
  | gap samples =>
      obtain ⟨sameBlock, block⟩ := same.publishBlock geometry (List.replicate samples gapSlot)
      dsimp only
      rw [sameBlock]
      exact ⟨rfl, block⟩
  | pushTagged input generation sourceStart spans =>
      dsimp only
      rw [room, same.stamp_eq, same.records_eq]
      by_cases pending : FinishPending view.finish
      · rw [if_pos pending, if_pos (same.pending.mpr pending)]
        exact ⟨rfl, same⟩
      rw [if_neg pending, if_neg fun found => pending (same.pending.mp found)]
      split
      · exact ⟨rfl, same⟩
      · split
        · exact ⟨rfl, same⟩
        · exact ⟨rfl, same.produced (ProducerAccount.taggedAccount_tracks same.stamp_eq _ _ _ _ _)⟩
  | mute generation spans =>
      dsimp only
      rw [same.stamp_eq, same.records_eq]
      cases view.account.stamp with
      | none => exact ⟨rfl, same⟩
      | some current =>
          dsimp only
          split
          · exact ⟨rfl, same⟩
          · refine ⟨rfl, same.produced ⟨rfl, ⟨[], ?_, ?_⟩, _, rfl, rfl⟩⟩
            · exact (List.append_nil _).symm
            · exact (List.append_nil _).symm
  | finish =>
      obtain ⟨left, left'⟩ := tokens rfl
      unfold HasToken at left left'
      dsimp only
      by_cases pending : FinishPending view.finish
      · rw [if_pos pending, if_pos (same.pending.mpr pending)]
        exact ⟨rfl, same⟩
      · rw [if_neg pending, if_neg fun found => pending (same.pending.mp found), if_pos left,
          if_pos left']
        exact ⟨rfl, { same with pending := iff_of_true (pending_of_token _) (pending_of_token _) }⟩
  | status token => exact ⟨rfl, same⟩

section Rendering

variable [Binary32 F] [Binary64 W] {adapter : Adapter F W S} {geometry : Geometry}
  {state state' : ConsumerState F S W}

/-- Two calls answer alike and leave rings that do. -/
def Agree {α : Type} (one two : α × RingView F S W) : Prop :=
  two.1 = one.1 ∧ one.2.Matches ConsumerState.Alike two.2

omit [Binary64 W] in
theorem Matches.silent (same : view.Matches related other) (alike : state.Alike state')
    (errored : Bool) : Agree (view.silent state errored) (other.silent state' errored) :=
  ⟨rfl, same.slots_eq, same.records_eq, same.stamp_eq, same.pending, alike⟩

theorem not_pending_of_bits (token : Nat) (failed : Bool) : ¬FinishPending
    (token * 4 + (if failed then FinishStatus.adapterError else FinishStatus.drained).bits) := by
  unfold FinishPending
  cases failed <;> simp only [FinishStatus.bits, if_true, Bool.false_eq_true, if_false] <;> omega

theorem Matches.complete (same : view.Matches related other) (alike : state.Alike state')
    (boundary boundary' : Finite) (failed : Bool) :
    Agree (view.complete adapter boundary failed state)
      (other.complete adapter boundary' failed state') := by
  obtain ⟨succeeds, alikeReset⟩ := alike.reset adapter
  unfold RingView.complete Agree
  dsimp only
  rw [succeeds]
  refine ⟨rfl, ?_, ?_, rfl, iff_of_false (not_pending_of_bits _ _) (not_pending_of_bits _ _),
    alikeReset.flags true false⟩
  · rw [same.slots_eq]
  · rw [same.records_eq]

theorem Matches.drain (same : view.Matches related other) (alike : state.Alike state')
    (boundary : Finite) (token : Nat) :
    Agree (view.drain adapter geometry boundary state)
      (other.drain adapter geometry { boundary with token := token } state') := by
  unfold RingView.drain
  have remaining : ConsumerState.remainingLookahead geometry.lookahead
      { boundary with token := token } =
        ConsumerState.remainingLookahead geometry.lookahead boundary := rfl
  rw [remaining]
  by_cases left : ConsumerState.remainingLookahead geometry.lookahead boundary ≠ 0
  · rw [if_pos left, if_pos left]
    obtain ⟨sameOutput, released⟩ := alike.release geometry boundary token
    exact ⟨sameOutput, same.slots_eq, same.records_eq, same.stamp_eq, same.pending, released⟩
  · rw [if_neg left, if_neg left]
    have ended : ConsumerState.Alike
        { state with finite := some { boundary with plcRemaining := some 0 } }
        { state' with
          finite := some { boundary with token := token, plcRemaining := some 0 } } := by
      cases alike with
      | mk left hides =>
          exact .mk { left with token := token }
            ⟨hides.input, hides.output, hides.cache, hides.plc⟩
    exact same.complete ended _ _ _

variable [Widening F W]

theorem Matches.emit (same : view.Matches related other) (alike : state.Alike state')
    {result : RefillResult} (cached : result = .ready → state.outputPending ≠ 0) :
    Agree (view.emit geometry result state) (other.emit geometry result state') := by
  obtain ⟨-, rendered, emitted⟩ := alike.emission geometry cached
  exact ⟨rendered, same.slots_eq, same.records_eq, same.stamp_eq, same.pending, emitted⟩

theorem Matches.renderTail (same : view.Matches related other) (alike : state.Alike state')
    (boundary : Finite) (token : Nat) {result : RefillResult}
    (cached : result = .ready → state.outputPending ≠ 0) :
    Agree (view.renderTail adapter geometry boundary result state)
      (other.renderTail adapter geometry { boundary with token := token } result state') := by
  have fault := alike.muteFault_eq
  unfold RingView.renderTail
  by_cases failed : result ≠ .ready
  · rw [if_pos failed, if_pos failed]
    exact same.complete alike _ _ _
  rw [if_neg failed, if_neg failed]
  have pending := cached (not_not.mp failed)
  by_cases past : state.PastBoundary
  · rw [if_pos past, if_pos ((alike.pastBoundary pending).mpr past)]
    exact same.drain alike boundary token
  rw [if_neg past, if_neg fun found => past ((alike.pastBoundary pending).mp found), fault]
  split
  · exact same.silent alike true
  · exact same.emit alike cached

theorem Matches.renderOutput (same : view.Matches related other) (alike : state.Alike state') :
    Agree (view.renderOutput adapter geometry state)
      (other.renderOutput adapter geometry state') := by
  obtain ⟨sameSlots, sameResult, refilled⟩ := alike.refilled adapter geometry view.slots
  have ready : (state.refilled adapter geometry view.slots).1.1 = .ready →
      (state.refilled adapter geometry view.slots).1.2.outputPending ≠ 0 :=
    ConsumerState.refilled_ready
  unfold RingView.renderOutput
  dsimp only
  rw [same.slots_eq, sameSlots, sameResult]
  generalize (state.refilled adapter geometry view.slots).1.1 = result at ready ⊢
  generalize (state.refilled adapter geometry view.slots).2 = slots
  generalize (state.refilled adapter geometry view.slots).1.2 = first at refilled ready ⊢
  generalize (state'.refilled adapter geometry view.slots).1.2 = second at refilled ⊢
  have kept (slots : List (SourceSample F)) : RingView.Matches related
      { view with slots := slots } { other with slots := slots } :=
    ⟨rfl, same.records_eq, same.stamp_eq, same.pending, same.consumer⟩
  cases refilled with
  | mk left hides =>
      have finiteEq : (first.withLeftover left).finite =
        first.finite.map fun boundary => { boundary with token := left.token } := rfl
      rw [finiteEq]
      cases first.finite with
      | none =>
          dsimp only [Option.map_none]
          have fault : (first.withLeftover left).muteFault = first.muteFault := rfl
          rw [fault]
          split
          · exact (kept slots).silent (.mk left hides) true
          · exact (kept slots).emit (.mk left hides) ready
      | some boundary =>
          dsimp only [Option.map_some]
          obtain ⟨tailSlots, tailResult, tail⟩ := (ConsumerState.Alike.mk left hides).refilledTail
            adapter geometry geometry.finiteRefillLimit result slots
          rw [tailSlots, tailResult]
          exact (kept _).renderTail tail boundary left.token
            (ConsumerState.refilledTail_ready _ ready)

theorem Matches.renderPrimed (same : view.Matches related other) (alike : state.Alike state') :
    Agree (view.renderPrimed adapter geometry state)
      (other.renderPrimed adapter geometry state') := by
  have draining := alike.draining
  have converts : Agree (view.renderOutput adapter geometry state)
    (other.renderOutput adapter geometry state') := same.renderOutput alike
  unfold RingView.renderPrimed
  cases alike with
  | mk left hides =>
      have finiteEq : (state.withLeftover left).finite =
        state.finite.map fun boundary => { boundary with token := left.token } := rfl
      rw [finiteEq]
      cases state.finite with
      | none => exact converts
      | some boundary =>
          dsimp only [Option.map_some]
          by_cases drains : state.Draining
          · rw [if_pos drains, if_pos (draining.mpr drains)]
            exact same.drain (.mk left hides) boundary left.token
          · rw [if_neg drains, if_neg fun found => drains (draining.mp found)]
            exact converts

theorem Matches.renderAwake (same : view.Matches related other) (alike : state.Alike state') :
    Agree (view.renderAwake adapter geometry state)
      (other.renderAwake adapter geometry state') := by
  have below : state'.finite.isNone = state.finite.isNone := alike.finite_isNone
  unfold RingView.renderAwake
  cases alike with
  | mk left hides =>
      by_cases awake : state.primed ∨ state.resetFailed
      · have awakeToo : (state.withLeftover left).primed ∨ (state.withLeftover left).resetFailed :=
          awake
        rw [if_pos awake, if_pos awakeToo]
        exact same.renderPrimed (.mk left hides)
      have awakeToo : ¬((state.withLeftover left).primed ∨
        (state.withLeftover left).resetFailed) := awake
      rw [if_neg awake, if_neg awakeToo, below, same.slots_eq]
      split
      · exact same.silent (.mk left hides) false
      · exact same.renderPrimed ((ConsumerState.Alike.mk left hides).flags state.quiet true)

theorem Matches.renderReady (same : view.Matches related other) (alike : state.Alike state') :
    Agree (view.renderReady adapter geometry state)
      (other.renderReady adapter geometry state') := by
  unfold RingView.renderReady
  cases alike with
  | mk left hides =>
      by_cases faulty : state.muteFault = true
      · have faultyToo : (state.withLeftover left).muteFault = true := faulty
        rw [if_pos faulty, if_pos faultyToo]
        exact same.silent (.mk left hides) true
      have faultyToo : ¬(state.withLeftover left).muteFault = true := faulty
      rw [if_neg faulty, if_neg faultyToo]
      by_cases quiet : state.quiet = true
      · have quietToo : (state.withLeftover left).quiet = true := quiet
        rw [if_pos quiet, if_pos quietToo, same.slots_eq]
        split
        · exact same.silent (.mk left hides) state.resetFailed
        · exact same.renderAwake ((ConsumerState.Alike.mk left hides).flags false state.primed)
      · have quietToo : ¬(state.withLeftover left).quiet = true := quiet
        rw [if_neg quiet, if_neg quietToo]
        exact same.renderAwake (.mk left hides)

omit [Binary32 F] [Binary64 W] [Widening F W] in
theorem Matches.started (same : view.Matches ConsumerState.Alike other) :
    view.started.Alike other.started := by
  unfold RingView.started
  dsimp only
  rw [same.records_eq, same.slots_eq, same.consumer.finite_isNone]
  refine ConsumerState.Alike.receiveAll ?_ _
  by_cases captures : FinishPending view.finish ∧ view.consumer.finite.isNone
  · rw [if_pos captures, if_pos ⟨same.pending.mpr captures.1, captures.2⟩]
    exact same.consumer.capture _ _ _
  · rw [if_neg captures, if_neg fun found => captures ⟨same.pending.mp found.1, found.2⟩]
    exact same.consumer

theorem Matches.render (same : view.Matches ConsumerState.Alike other) :
    Agree (view.render adapter geometry) (other.render adapter geometry) := by
  have drained : RingView.Matches ConsumerState.Alike { view with records := [] }
      { other with records := [] } :=
    ⟨same.slots_eq, rfl, same.stamp_eq, same.pending, same.consumer⟩
  exact drained.renderReady same.started

omit [Widening F W] in
theorem Matches.reset (same : view.Matches ConsumerState.Alike other) :
    Agree (view.reset adapter) (other.reset adapter) := by
  have cancelled (finish : Nat) : ¬FinishPending
      (if FinishPending finish then finish + FinishStatus.cancelled.bits else finish) := by
    split
    · rename_i pending
      have low := pending.2
      simp only [FinishPending, FinishStatus.bits]
      omega
    · assumption
  obtain ⟨succeeds, resets⟩ := same.consumer.reset adapter
  exact ⟨succeeds, rfl, rfl, rfl, iff_of_false (cancelled _) (cancelled _), resets⟩

theorem Matches.consume (same : view.Matches ConsumerState.Alike other) (call : ConsumerCall) :
    Agree (view.consume adapter geometry call) (other.consume adapter geometry call) := by
  cases call with
  | render =>
      have agree : Agree (view.render adapter geometry) (other.render adapter geometry) :=
        same.render
      exact ⟨congrArg ConsumerResult.rendered agree.1, agree.2⟩
  | reset =>
      have agree : Agree (view.reset adapter) (other.reset adapter) := same.reset
      exact ⟨congrArg ConsumerResult.reset agree.1, agree.2⟩

/-- Tokens are left for every boundary that the calls request. -/
def TokensLast (adapter : Adapter F W S) (geometry : Geometry) (calls : List (RingCall F))
    (view : RingView F S W) : Prop :=
  ∀ earlier later, calls = earlier ++ ⟨.producer, .finish⟩ :: later →
    HasToken (view.performAll adapter geometry earlier).2.finish

theorem TokensLast.rest {call : RingCall F} {rest : List (RingCall F)}
    (tokens : TokensLast adapter geometry (call :: rest) view) :
    TokensLast adapter geometry rest (view.perform adapter geometry call).2 := by
  rintro earlier later rfl
  exact tokens (call :: earlier) later rfl

theorem TokensLast.append {early later : List (RingCall F)}
    (tokens : TokensLast adapter geometry (early ++ later) view) :
    TokensLast adapter geometry early view ∧
      TokensLast adapter geometry later (view.performAll adapter geometry early).2 := by
  constructor
  · rintro earlier rest rfl
    exact tokens earlier (rest ++ later) (by simp)
  · rintro earlier rest rfl
    have last := tokens (early ++ earlier) rest (by simp)
    rw [performAll_append] at last
    exact last

/-- Rings that match answer a run alike, if they answer its consumer calls alike. -/
theorem Matches.performAll (calls : List (RingCall F))
    (consumes : ∀ call, ⟨.consumer, call⟩ ∈ calls → ∀ view other : RingView F S W,
      view.Matches related other →
      (other.consume adapter geometry call).1 = (view.consume adapter geometry call).1 ∧
        (view.consume adapter geometry call).2.Matches related
          (other.consume adapter geometry call).2)
    (same : view.Matches related other) (tokens : TokensLast adapter geometry calls view)
    (tokens' : TokensLast adapter geometry calls other) :
    (other.performAll adapter geometry calls).1.map RingReply.plain =
        (view.performAll adapter geometry calls).1.map RingReply.plain ∧
      (view.performAll adapter geometry calls).2.Matches related
        (other.performAll adapter geometry calls).2 := by
  induction calls generalizing view other with
  | nil => exact ⟨rfl, same⟩
  | cons call rest ih =>
      suffices one : RingReply.plain (other.perform adapter geometry call).1 =
          RingReply.plain (view.perform adapter geometry call).1 ∧
          (view.perform adapter geometry call).2.Matches related
            (other.perform adapter geometry call).2 by
        obtain ⟨reply, later⟩ := one
        obtain ⟨replies, last⟩ := ih (fun call member => consumes call (.tail _ member)) later
          tokens.rest tokens'.rest
        simp only [performAll_cons, List.map_cons, reply, replies]
        exact ⟨trivial, last⟩
      obtain ⟨party, call⟩ := call
      cases party with
      | producer =>
          refine same.produce geometry call ?_
          rintro rfl
          exact ⟨tokens [] rest rfl, tokens' [] rest rfl⟩
      | consumer =>
          obtain ⟨reply, later⟩ := consumes call (.head _) view other same
          refine ⟨?_, later⟩
          simp only [RingView.perform, reply]

end Rendering

end RingView

end PcmRing
