import PcmRing.PlainRuns

/-!
# Playout of one stream

Until a boundary or a reset the ring at unit rate emits what was accepted, slot by
slot.  The stamps of the producer then say where each slot lies in the source.
-/

namespace PcmRing

open TwoLapQueue

variable {F S W : Type}

/-- Every accepted slot is stamped with its place in one generation, or none is. -/
def Stamped (account : ProducerAccount F) : Prop :=
  match account.stamp with
  | none => ∀ slot ∈ account.published, slot.stamp = none
  | some mark => ∃ base, mark.source = base + account.published.length ∧ mark.source < 2 ^ 64 ∧
      ∀ (index : Nat) slot, account.published[index]? = some slot →
        slot.stamp = some ⟨mark.generation, base + index⟩

namespace Stamped

open ProducerAccount

variable {account : ProducerAccount F}

theorem discard (stamped : Stamped account) (count : Nat) : Stamped (account.discard count) :=
  stamped

theorem accept (stampedAccount : Stamped account) (samples : List (SourceSample F))
    (within : ∀ mark ∈ account.stamp, mark.source + samples.length < 2 ^ 64) :
    Stamped (account.accept samples) := by
  unfold Stamped at stampedAccount ⊢
  unfold ProducerAccount.accept
  dsimp only
  cases stampEq : account.stamp with
  | none =>
      rw [stampEq] at stampedAccount
      intro slot member
      rcases List.mem_append.mp member with earlier | new
      · exact stampedAccount slot earlier
      · obtain ⟨index, inside, rfl⟩ := List.mem_mapIdx.mp new
        rfl
  | some mark =>
      rw [stampEq] at stampedAccount
      obtain ⟨base, sourceEq, small, stamps⟩ := stampedAccount
      have small' := within mark stampEq
      dsimp only [Option.map_some]
      refine ⟨base, ?_, ?_, fun index slot slotAt => ?_⟩
      · rw [List.length_append, stamped_length]
        change mark.source + samples.length = _
        omega
      · exact small'
      · rcases Nat.lt_or_ge index account.published.length with old | new
        · rw [List.getElem?_append_left old] at slotAt
          exact stamps index slot slotAt
        · rw [List.getElem?_append_right new] at slotAt
          obtain ⟨sample, -, rfl⟩ := Option.map_eq_some_iff.mp
            ((List.getElem?_mapIdx (l := samples)).symm.trans slotAt)
          change some (Stamp.advance _ mark) = _
          unfold Stamp.advance
          rw [sourceEq, Nat.add_assoc, Nat.add_sub_cancel' new]

theorem publishOne (stampedAccount : Stamped account) (free : Nat) (sample : SourceSample F) :
    Stamped (account.publishOne free sample).2 := by
  unfold ProducerAccount.publishOne
  split
  · exact stampedAccount.discard 1
  · split
    · rename_i fits
      exact stampedAccount.accept [sample] (fits.resolve_left (by decide))
    · exact stampedAccount

theorem publishAll (stampedAccount : Stamped account) (samples : List (SourceSample F))
    (free : Nat) : Stamped (account.publishAll samples free).2 := by
  induction samples generalizing account free with
  | nil => exact stampedAccount
  | cons sample rest ih =>
      have one := stampedAccount.publishOne free sample
      unfold ProducerAccount.publishAll
      dsimp only
      split
      · exact ih one (free - 1)
      · exact one.discard rest.length

/-- A block of the same generation, or the first block, continues the stamps. -/
theorem tagged [Binary32 F] (stampedAccount : Stamped account) {generation sourceStart : Nat}
    {spans : List Span} {input : List F} (room : Nat)
    (fits : sourceStart + input.length < 2 ^ 64)
    (continues : account.stamp = some ⟨generation, sourceStart⟩ ∨ account.published = []) :
    Stamped (taggedAccount generation sourceStart spans input room account) := by
  unfold taggedAccount
  dsimp only
  split
  · exact stampedAccount.discard _
  · apply Stamped.discard
    apply Stamped.accept
    · unfold Stamped at stampedAccount ⊢
      dsimp only [ProducerAccount.tag]
      rcases continues with same | empty
      · rw [same] at stampedAccount
        exact stampedAccount
      · rw [empty]
        exact ⟨sourceStart, rfl, by omega, fun index slot slotAt => by simp at slotAt⟩
    · intro mark member
      cases member
      rw [List.length_map, List.length_take]
      dsimp only
      omega

/-- One base explains all stamps. -/
theorem contiguous (stampedAccount : Stamped account) : Contiguous account.published := by
  unfold Stamped at stampedAccount
  cases stampEq : account.stamp with
  | none =>
      rw [stampEq] at stampedAccount
      refine ⟨(0, 0), fun index slot mark slotAt stamped => ?_⟩
      rw [stampedAccount slot (List.mem_of_getElem? slotAt)] at stamped
      cases stamped
  | some current =>
      rw [stampEq] at stampedAccount
      obtain ⟨base, -, -, stamps⟩ := stampedAccount
      refine ⟨(current.generation, base), fun index slot mark slotAt stamped => ?_⟩
      rw [stamps index slot slotAt] at stamped
      cases stamped
      simp

end Stamped

/-- The support of a whole source frame. -/
def Stamp.support (mark : Stamp) : Position :=
  ⟨mark.generation, mark.source, mark.source, Nat.le_refl _⟩

/-- The source position of the next slot, if the stream is stamped. -/
def PlainQueue.source (queue : PlainQueue F) : Option Position :=
  ((queue.line)[queue.emitted]?).bind fun slot => slot.stamp.map Stamp.support

theorem toU64?_natCast {count : Nat} (small : count < 2 ^ 64) :
    toU64? (count : Int) = some count := by
  unfold toU64?
  rw [if_pos (by omega)]
  rfl

private theorem floor_whole {unit : Int} (positive : 0 < unit) (count : Int) :
    count * unit / unit = count :=
  Int.mul_ediv_cancel _ positive.ne'

private theorem ceil_whole {unit : Int} (positive : 0 < unit) (count : Int) :
    (count * unit + (unit - 1)) / unit = count := by
  rw [Int.add_comm, Int.add_mul_ediv_right _ _ positive.ne',
    Int.ediv_eq_zero_of_lt (by omega) (by omega), Int.zero_add]

private theorem around_of {generation low high : Nat} {position : Int} (le : low ≤ high)
    (lowEq : toU64? (position / frameUnit) = some low)
    (highEq : toU64? ((position + (frameUnit - 1)) / frameUnit) = some high) :
    Position.around generation position = some ⟨generation, low, high, le⟩ := by
  unfold Position.around
  split
  · rename_i found found' lowEq' highEq'
    rw [lowEq] at lowEq'
    rw [highEq] at highEq'
    cases lowEq'
    cases highEq'
    rfl
  · rename_i none
    exact (none _ _ lowEq highEq).elim

theorem around_whole (mark : Stamp) (small : mark.source < 2 ^ 64) :
    Position.around mark.generation ((mark.source : Int) * frameUnit) = some mark.support := by
  have positive : (0 : Int) < frameUnit := by decide
  apply around_of
  · rw [floor_whole positive]
    exact toU64?_natCast small
  · rw [ceil_whole positive]
    exact toU64?_natCast small

section Emitted

variable [Binary32 F] {account : ProducerAccount F} {state : ConsumerState F Unit W}

/-- The next cached output carries the support of its slot. -/
theorem InOrder.support (ordered : InOrder account.published state)
    (stamped : Stamped account) (pending : state.outputPending ≠ 0)
    (taken : state.nextIndex < state.sourceTaken) :
    state.cachePosition = ((account.published)[state.nextIndex]?).bind fun slot =>
      slot.stamp.map Stamp.support := by
  have inside := taken.trans_le ordered.classified.taken_le
  have slotAt := List.getElem?_eq_getElem inside
  unfold Stamped at stamped
  unfold ConsumerState.cachePosition
  rw [slotAt, ordered.position pending]
  cases stampEq : account.stamp with
  | none =>
      rw [stampEq] at stamped
      rw [Option.bind_some, stamped _ (List.getElem_mem inside)]
      cases baseEq : state.sourceBase with
      | none => rfl
      | some base =>
          obtain ⟨index, -, slot, mark, found, marked, -⟩ := ordered.based base baseEq
          rw [stamped slot (List.mem_of_getElem? found)] at marked
          cases marked
  | some current =>
      rw [stampEq] at stamped
      obtain ⟨base, sourceEq, small, stamps⟩ := stamped
      have mark := stamps _ _ slotAt
      rw [ordered.base _ taken _ _ slotAt mark, Option.bind_some, mark]
      change Position.around current.generation ((state.nextIndex : Int) * frameUnit +
        (((base + state.nextIndex : Nat) : Int) - state.nextIndex) * frameUnit) = some _
      rw [← Int.add_mul, show (state.nextIndex : Int) + (((base + state.nextIndex : Nat) : Int) -
        state.nextIndex) = ((base + state.nextIndex : Nat) : Int) by omega]
      exact around_whole ⟨current.generation, base + state.nextIndex⟩ (by dsimp only; omega)

end Emitted

/-- No boundary and no reset, one generation from the first publication on, and
room in the mute history. -/
def PlainCall (view : RingView F S W) : RingCall F → Prop
  | ⟨.producer, .finish⟩ | ⟨.consumer, .reset⟩ => False
  | ⟨.producer, .pushTagged _ generation _ _⟩ =>
      (∃ mark ∈ view.account.stamp, mark.generation = generation) ∨ view.account.published = []
  | ⟨.producer, _⟩ => True
  | ⟨.consumer, .render⟩ => view.started.muteFault = view.consumer.muteFault

instance (view : RingView F S W) : (call : RingCall F) → Decidable (PlainCall view call)
  | ⟨.producer, .pushTagged _ generation _ _⟩ =>
      inferInstanceAs (Decidable ((∃ mark ∈ view.account.stamp, mark.generation = generation) ∨
        view.account.published = []))
  | ⟨.consumer, .render⟩ =>
      inferInstanceAs (Decidable (view.started.muteFault = view.consumer.muteFault))
  | ⟨.producer, .finish⟩ | ⟨.consumer, .reset⟩ => .isFalse id
  | ⟨.producer, .pushSample _⟩ | ⟨.producer, .push _⟩ | ⟨.producer, .gap _⟩
  | ⟨.producer, .mute ..⟩ | ⟨.producer, .status _⟩ => .isTrue trivial

/-- A run of plain calls. -/
def PlainCalls [Binary32 F] [Binary64 W] [Widening F W] (adapter : Adapter F W S)
    (geometry : Geometry) : List (RingCall F) → RingView F S W → Prop
  | [], _ => True
  | call :: rest, view => PlainCall view call ∧
      PlainCalls adapter geometry rest (view.perform adapter geometry call).2

def plainCalls [Binary32 F] [Binary64 W] [Widening F W] (adapter : Adapter F W S)
    (geometry : Geometry) : (calls : List (RingCall F)) → (view : RingView F S W) →
    Decidable (PlainCalls adapter geometry calls view)
  | [], _ => .isTrue trivial
  | call :: rest, view =>
      have := plainCalls adapter geometry rest (view.perform adapter geometry call).2
      inferInstanceAs (Decidable (PlainCall view call ∧ _))

instance [Binary32 F] [Binary64 W] [Widening F W] (adapter : Adapter F W S) (geometry : Geometry)
    (calls : List (RingCall F)) (view : RingView F S W) :
    Decidable (PlainCalls adapter geometry calls view) :=
  plainCalls adapter geometry calls view

theorem Stamped.produce [Binary32 F] (geometry : Geometry) {view : RingView F S W}
    (stamped : Stamped view.account) (call : ProducerCall F)
    (plain : PlainCall view ⟨.producer, call⟩) :
    Stamped (view.produce geometry call).2.account := by
  unfold RingView.produce
  cases call with
  | pushSample sample =>
      dsimp only
      split
      · exact stamped
      · exact stamped.publishOne _ _
  | push input =>
      unfold RingView.publishBlock
      dsimp only
      split
      · exact stamped
      · exact stamped.publishAll _ _
  | gap samples =>
      unfold RingView.publishBlock
      dsimp only
      split
      · exact stamped
      · exact stamped.publishAll _ _
  | pushTagged input generation sourceStart spans =>
      dsimp only
      split
      · exact stamped
      split
      · exact stamped
      rename_i valid
      split
      · exact stamped
      obtain ⟨valid, follows⟩ := not_or.mp valid
      have fits : sourceStart + input.length < 2 ^ 64 := not_le.mp (not_or.mp valid).1
      refine stamped.tagged _ fits ?_
      rcases plain with ⟨mark, member, rfl⟩ | empty
      · left
        have source : mark.source = sourceStart := by
          by_contra differs
          exact follows ⟨mark, member, rfl, differs⟩
        rw [Option.mem_def.mp member, ← source]
      · exact .inr empty
  | mute generation spans =>
      dsimp only
      split
      · exact stamped
      split
      · exact stamped
      · exact stamped
  | finish => exact plain.elim
  | status token => exact stamped

namespace PlainQueue

variable [Binary32 F] [Binary64 W] [Widening F W] (geometry : Geometry)

/-- One plain call: a render plays the next slot, mapped to where its stamp says. -/
def serve (call : RingCall F) (view : RingView F Unit W) (queue : PlainQueue F) :
    Option (Rendered F) × PlainQueue F :=
  match call with
  | ⟨.producer, call⟩ => (none, queue.accept (view.accepted geometry call)
      ((view.produce geometry call).2.account.records.drop view.account.records.length))
  | ⟨.consumer, .render⟩ =>
      let rendered := queue.render W geometry false queue.source
      (some rendered.1, rendered.2)
  | ⟨.consumer, .reset⟩ => (none, queue)

/-- The outputs of a plain run, and the queue behind it. -/
def serveAll : List (RingCall F) → RingView F Unit W → PlainQueue F →
    List (Rendered F) × PlainQueue F
  | [], _, queue => ([], queue)
  | call :: rest, view, queue =>
      let first := queue.serve geometry call view
      let others := serveAll rest (view.perform unitConverter geometry call).2 first.2
      (first.1.toList ++ others.1, others.2)

theorem serveAll_cons (call : RingCall F) (rest : List (RingCall F)) (view : RingView F Unit W)
    (queue : PlainQueue F) : queue.serveAll geometry (call :: rest) view =
      ((queue.serve geometry call view).1.toList ++
        ((queue.serve geometry call view).2.serveAll geometry rest
          (view.perform unitConverter geometry call).2).1,
        ((queue.serve geometry call view).2.serveAll geometry rest
          (view.perform unitConverter geometry call).2).2) := rfl

variable {geometry}

/-- Where nothing is left to emit the support does not matter. -/
theorem render_source {queue : PlainQueue F} {support : Option Position} {pending : Bool}
    (same : ¬queue.Rests geometry pending → queue.emitted < queue.line.length →
      support = queue.source) :
    queue.render W geometry pending support = queue.render W geometry pending queue.source := by
  unfold PlainQueue.render
  by_cases rests : queue.Rests geometry pending
  · rw [if_pos rests, if_pos rests]
  · rw [if_neg rests, if_neg rests]
    by_cases found : queue.emitted < queue.line.length
    · rw [if_pos found, if_pos found, same rests found]
    · rw [if_neg found, if_neg found]

end PlainQueue

/-- The ring between two plain calls. -/
structure Serves [Binary32 F] [Binary64 W] [OrderedBinary64 W] (geometry : Geometry)
    (queue : PlainQueue F) (view : RingView F Unit W) : Prop where
  plays : Plays geometry queue view
  stamped : Stamped view.account
  line_eq : queue.line = view.account.published
  unfinished : view.finish = 0
  missing_eq : queue.missing = min (queue.fed.countP Option.isNone) (2 ^ 64 - 1)

section Serving

variable [Binary32 F] [Binary64 W] [OrderedBinary64 W] [Widening F W] {geometry : Geometry}
  {queue : PlainQueue F} {view : RingView F Unit W}

omit [Widening F W] in
theorem Serves.idle (serves : Serves geometry queue view) :
    decide (FinishPending view.finish) = false := by
  rw [serves.unfinished]
  decide

omit [Widening F W] in
/-- The consumer maps the next output to the stamp of its slot. -/
theorem Serves.support_eq (unit : geometry.AtUnitRate W) (serves : Serves geometry queue view)
    (clean : view.started.muteFault = view.consumer.muteFault)
    (awake : ¬queue.Rests geometry false) (found : queue.emitted < queue.line.length) :
    (view.exit unitConverter geometry).support = queue.source := by
  have plays := serves.plays
  have begun := plays.begun clean
  rw [← serves.idle] at awake
  obtain ⟨before, woken⟩ := plays.awake clean awake
  obtain ⟨rest, after, exitEq, kept, cached⟩ := plays.found unit clean woken found
  have ordered : InOrder view.account.published after := serves.line_eq ▸ kept.standing.ordered
  have nextEq : after.nextIndex = queue.emitted := kept.next_eq.trans woken.next_eq
  have unpadded : after.inputPadding = false := by
    refine Bool.eq_false_iff.mpr fun padded => ?_
    have captured := kept.standing.padded padded
    rw [kept.beside.finite_eq, woken.finite_eq, begun.pending_eq, serves.idle] at captured
    cases captured
  have sum := ordered.sum unpadded
  have whole := ordered.pending_le
  have taken : after.nextIndex < after.sourceTaken := by
    unfold ConsumerState.nextIndex
    omega
  rw [exitEq]
  change after.cachePosition = _
  rw [ordered.support serves.stamped cached taken, nextEq, ← serves.line_eq]
  rfl

omit [OrderedBinary64 W] in
theorem emit_missing (lookahead : Nat) (support : Option Position)
    (counted : queue.missing = min (queue.fed.countP Option.isNone) (2 ^ 64 - 1)) :
    (queue.emit W lookahead support).2.missing =
      min ((queue.emit W lookahead support).2.fed.countP Option.isNone) (2 ^ 64 - 1) := by
  unfold PlainQueue.emit PlainQueue.play
  dsimp only
  rw [counted, List.countP_append]
  generalize (if queue.log.Mutes support then some 0 else queue.sample) = input
  cases input with
  | none =>
      rw [show [(none : Option F)].countP Option.isNone = 1 from rfl, Option.isNone_none,
        if_pos rfl]
      omega
  | some sample =>
      rw [show [some sample].countP Option.isNone = 0 from rfl, Option.isNone_some,
        if_neg (by decide), Nat.add_zero]

theorem Serves.perform (unit : geometry.AtUnitRate W) (serves : Serves geometry queue view)
    (call : RingCall F) (plain : PlainCall view call) :
    (view.perform unitConverter geometry call).1.output = (queue.serve geometry call view).1 ∧
      Serves geometry (queue.serve geometry call view).2
        (view.perform unitConverter geometry call).2 := by
  obtain ⟨party, call⟩ := call
  cases party with
  | producer =>
      have unfinished : call ≠ .finish := by
        rintro rfl
        exact plain
      obtain ⟨-, -, finish, -⟩ := produce_still geometry view call
      obtain ⟨-, fresh, -, published⟩ : view.Grows (view.produce geometry call).2 :=
        RingView.grows_produce call
      have stamped := serves.stamped.produce geometry call plain
      have grown : queue.line ++ view.accepted geometry call =
          (view.produce geometry call).2.account.published := by
        unfold RingView.accepted
        rw [serves.line_eq, published, List.drop_left]
      have plays := serves.plays.produce unit.sized call (by
        change Contiguous (queue.line ++ view.accepted geometry call)
        rw [grown]
        exact stamped.contiguous)
      exact ⟨rfl, plays, stamped, grown, (finish unfinished).trans serves.unfinished,
        serves.missing_eq⟩
  | consumer =>
      cases call with
      | reset => exact plain.elim
      | render =>
          obtain ⟨rendered, plays⟩ := serves.plays.render unit plain
          have sourced : queue.render W geometry (decide (FinishPending view.finish))
              (view.exit unitConverter geometry).support =
                queue.render W geometry false queue.source := by
            rw [serves.idle]
            exact PlainQueue.render_source fun awake found =>
              serves.support_eq unit plain awake found
          obtain ⟨account, finish⟩ := serves.plays.render_aside unit plain
            (of_decide_eq_false serves.idle)
          rw [sourced] at rendered plays
          have kept : (queue.render W geometry false queue.source).2.line = queue.line ∧
              (queue.render W geometry false queue.source).2.missing =
                min ((queue.render W geometry false queue.source).2.fed.countP Option.isNone)
                  (2 ^ 64 - 1) := by
            unfold PlainQueue.render
            by_cases rests : queue.Rests geometry false
            · rw [if_pos rests]
              exact ⟨rfl, serves.missing_eq⟩
            · rw [if_neg rests]
              by_cases found : queue.emitted < queue.line.length
              · rw [if_pos found]
                exact ⟨rfl, emit_missing _ _ serves.missing_eq⟩
              · rw [if_neg found, if_pos rfl]
                exact ⟨rfl, emit_missing _ _ serves.missing_eq⟩
          refine ⟨congrArg some rendered, plays, ?_, ?_, finish.trans serves.unfinished, kept.2⟩
          · change Stamped (view.render unitConverter geometry).2.account
            rw [account]
            exact serves.stamped
          · change _ = (view.render unitConverter geometry).2.account.published
            rw [account, ← serves.line_eq]
            exact kept.1

theorem Serves.performAll (unit : geometry.AtUnitRate W) (serves : Serves geometry queue view)
    (calls : List (RingCall F)) (plain : PlainCalls unitConverter geometry calls view) :
    (view.performAll unitConverter geometry calls).1.filterMap RingReply.output =
        (queue.serveAll geometry calls view).1 ∧
      Serves geometry (queue.serveAll geometry calls view).2
        (view.performAll unitConverter geometry calls).2 := by
  induction calls generalizing view queue with
  | nil => exact ⟨rfl, serves⟩
  | cons call rest ih =>
      obtain ⟨first, kept⟩ := serves.perform unit call plain.1
      obtain ⟨others, ended⟩ := ih kept plain.2
      refine ⟨?_, ended⟩
      rw [RingView.performAll_cons, PlainQueue.serveAll_cons, List.filterMap_cons, first, others]
      cases (queue.serve geometry call view).1 <;> rfl

/-- Until a boundary or a reset every render emits the slot behind the last one,
silent where an accepted interval mutes it, and a shortfall where there is none;
before the reserve is reached it emits nothing. -/
theorem plays_out_slot_by_slot {settings : Settings} {ring : Ring F Unit W}
    (created : Ring.create unitConverter settings = .ok (geometry, ring))
    (calls : List (RingCall F)) (plain : PlainCalls unitConverter geometry calls
      (ring.view geometry)) :
    let run := ring.performAll unitConverter geometry calls
    let served := (PlainQueue.fresh ring.consumer.plc).serveAll geometry calls (ring.view geometry)
    run.1.filterMap RingReply.output = served.1 ∧
      run.2.pcm.published = served.2.line ∧
      run.2.ledger.fed = served.2.fed ∧
      run.2.counters .missing = min (served.2.fed.countP Option.isNone) (2 ^ 64 - 1) ∧
      served.2.line.length = served.2.emitted + ((run.2.pcm.unread geometry.capacity).length +
        run.2.consumer.inputPending + run.2.consumer.outputPending) ∧
      (served.2.primed = false →
        served.2.emitted = 0 ∧ run.2.pcm.unread geometry.capacity = run.2.pcm.published) := by
  intro run served
  have unit : geometry.AtUnitRate W := atUnitRate_created created
  have starts : Serves geometry (.fresh ring.consumer.plc) (ring.view geometry) := by
    have plays := plays_created created
    obtain ⟨-, outputDelay, queued, converter, rfl, rfl⟩ := create_cases created
    exact ⟨plays, fun slot member => (List.not_mem_nil member).elim, rfl, rfl, rfl⟩
  obtain ⟨outputs, serves⟩ := starts.performAll unit calls plain
  obtain ⟨-, viewed⟩ := performAll_view unitConverter (producerHolds_created created) calls
  rw [← congrArg Prod.fst viewed] at outputs
  rw [← congrArg Prod.snd viewed] at serves
  have plays := serves.plays
  have streaming : run.2.consumer.finite = none := by
    apply Option.not_isSome_iff_eq_none.mp
    intro captured
    exact of_decide_eq_false serves.idle (plays.captured captured).1
  have line : served.2.line = run.2.pcm.published := serves.line_eq
  refine ⟨outputs, line.symm, plays.fed_eq, plays.missing_eq.trans serves.missing_eq,
    plays.held streaming, fun unprimed => ?_⟩
  have untaken : run.2.consumer.sourceTaken = 0 := plays.waiting unprimed
  have rest : served.2.line.drop run.2.consumer.sourceTaken =
    run.2.pcm.unread geometry.capacity := plays.standing.split.rest
  have whole := plays.held streaming
  have split : served.2.line.length = run.2.consumer.sourceTaken +
    (run.2.pcm.unread geometry.capacity).length := plays.standing.split.whole
  rw [untaken, List.drop_zero, line] at rest
  refine ⟨?_, rest.symm⟩
  change served.2.line.length = served.2.emitted +
    ((run.2.pcm.unread geometry.capacity).length + _ + _) at whole
  omega

end Serving

/-- Two samples of which one is muted, a gap, a sample, and a shortfall. -/
def mutedAndGapped : List (RingCall ℚ) :=
  [⟨.producer, .pushTagged [1 / 8, 1 / 2] 0 0 [⟨1, 2⟩]⟩, ⟨.producer, .gap 1⟩,
    ⟨.producer, .push [1 / 4]⟩] ++ List.replicate 5 ⟨.consumer, .render⟩

theorem muted_and_gapped_play_out : ∃ geometry ring,
    Ring.create (unitConverter (F := ℚ) (W := ℚ)) smallSettings = .ok (geometry, ring) ∧
    (ring.performAll unitConverter geometry mutedAndGapped).1.filterMap RingReply.output =
      ((PlainQueue.fresh ring.consumer.plc).serveAll geometry mutedAndGapped
        (ring.view geometry)).1 ∧
    (ring.performAll unitConverter geometry mutedAndGapped).1.filterMap RingReply.output =
      [(1 / 8, true, false), (0, true, false), (0, false, false), (1 / 4, true, false),
        (0, false, false)] ∧
    (ring.performAll unitConverter geometry mutedAndGapped).2.counters .missing = 2 := by
  obtain ⟨geometry, ring, created, checked⟩ := exists_created (unitConverter (F := ℚ) (W := ℚ))
    smallSettings (fun geometry ring =>
      decide (PlainCalls unitConverter geometry mutedAndGapped (ring.view geometry)) &&
        (decide ((ring.performAll unitConverter geometry mutedAndGapped).1.filterMap
          RingReply.output = [(1 / 8, true, false), (0, true, false), (0, false, false),
            (1 / 4, true, false), (0, false, false)]) &&
          decide ((ring.performAll unitConverter geometry mutedAndGapped).2.counters .missing = 2)))
    (by decide +kernel)
  simp only [Bool.and_eq_true, decide_eq_true_eq] at checked
  obtain ⟨plain, outputs, missing⟩ := checked
  exact ⟨geometry, ring, created, (plays_out_slot_by_slot created mutedAndGapped plain).1, outputs,
    missing⟩

end PcmRing
