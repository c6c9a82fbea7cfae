import PcmRing.MutedTwins

/-!
# Noninterference of muted samples

Runs of one generation.  The stamp of the producer never leaves that generation, so
every tagged block keeps to the generation of its stream, and what was muted when
its block was pushed is not heard at any later point of the run.
-/

namespace PcmRing

open AtomicProgram TwoLapQueue

variable {F S W : Type}

/-- A tagged block of one generation. -/
def RingCall.OfGeneration (generation : Nat) : RingCall F → Prop
  | ⟨.producer, .pushTagged _ tagged _ _⟩ => tagged = generation
  | ⟨.producer, _⟩ | ⟨.consumer, _⟩ => True

namespace ProducerAccount

/-- The next slot is of one generation, if it is stamped. -/
def OfGeneration (generation : Nat) (account : ProducerAccount F) : Prop :=
  ∀ mark ∈ account.stamp, mark.generation = generation

namespace OfGeneration

variable {generation : Nat} {account : ProducerAccount F}

theorem unstamped (stampEq : account.stamp = none) : account.OfGeneration generation := by
  intro mark member
  rw [stampEq] at member
  cases member

theorem discard (single : account.OfGeneration generation) (count : Nat) :
    (account.discard count).OfGeneration generation :=
  single

theorem accept (single : account.OfGeneration generation) (samples : List (SourceSample F)) :
    (account.accept samples).OfGeneration generation := by
  intro mark member
  obtain ⟨earlier, stampEq, rfl⟩ := Option.map_eq_some_iff.mp member
  exact single earlier stampEq

theorem publishOne (single : account.OfGeneration generation) (free : Nat)
    (sample : SourceSample F) : (account.publishOne free sample).2.OfGeneration generation := by
  unfold ProducerAccount.publishOne
  split
  · exact single.discard 1
  · split
    · exact single.accept [sample]
    · exact single

theorem publishAll (single : account.OfGeneration generation) (samples : List (SourceSample F))
    (free : Nat) : (account.publishAll samples free).2.OfGeneration generation := by
  induction samples generalizing account free with
  | nil => exact single
  | cons sample rest ih =>
      have one := single.publishOne free sample
      unfold ProducerAccount.publishAll
      dsimp only
      split
      · exact ih one (free - 1)
      · exact one.discard rest.length

theorem tagged [Binary32 F] (single : account.OfGeneration generation) (sourceStart : Nat)
    (spans : List Span) (input : List F) (room : Nat) :
    (taggedAccount generation sourceStart spans input room account).OfGeneration generation := by
  unfold taggedAccount
  dsimp only
  split
  · exact single.discard _
  · refine discard (accept (fun mark member => ?_) _) _
    cases member
    rfl

end OfGeneration

end ProducerAccount

namespace RingView

open ProducerAccount

variable [Binary32 F] {generation : Nat} {geometry : Geometry} {view : RingView F S W}

theorem produce_ofGeneration (single : view.account.OfGeneration generation)
    (call : ProducerCall F) (same : RingCall.OfGeneration generation ⟨.producer, call⟩) :
    (view.produce geometry call).2.account.OfGeneration generation := by
  unfold produce
  cases call with
  | pushSample sample =>
      dsimp only
      split
      · exact single
      · exact single.publishOne _ _
  | push input =>
      unfold publishBlock
      dsimp only
      split
      · exact single
      · exact single.publishAll _ _
  | gap samples =>
      unfold publishBlock
      dsimp only
      split
      · exact single
      · exact single.publishAll _ _
  | pushTagged input tagged sourceStart spans =>
      obtain rfl : tagged = generation := same
      dsimp only
      split
      · exact single
      split
      · exact single
      split
      · exact single
      · exact single.tagged _ _ _ _
  | mute generation spans =>
      dsimp only
      split
      · exact single
      split
      · exact single
      · exact single
  | finish =>
      dsimp only
      split
      · exact single
      split <;> exact single
  | status token => exact single

variable [Binary64 W] [Widening F W] {adapter : Adapter F W S}

theorem render_ofGeneration (single : view.account.OfGeneration generation) :
    (view.render adapter geometry).2.account.OfGeneration generation := by
  rw [render_eq_close]
  generalize view.exit adapter geometry = exit
  cases exit with
  | silent | released | emitted => exact single
  | completed => exact .unstamped rfl

theorem perform_ofGeneration (single : view.account.OfGeneration generation)
    (call : RingCall F) (same : call.OfGeneration generation) :
    (view.perform adapter geometry call).2.account.OfGeneration generation := by
  obtain ⟨party, call⟩ := call
  cases party with
  | producer => exact produce_ofGeneration single call same
  | consumer =>
      cases call with
      | render => exact render_ofGeneration single
      | reset => exact .unstamped rfl

end RingView

/-- A tagged block of the only generation keeps to the generation of its stream. -/
theorem RingCall.OfGeneration.keepsTo {generation : Nat} {call : RingCall F}
    {account : ProducerAccount F} (same : call.OfGeneration generation)
    (single : account.OfGeneration generation) : call.KeepsTo account.stamp := by
  obtain ⟨party, call⟩ := call
  cases party with
  | consumer => trivial
  | producer =>
      cases call with
      | pushTagged input tagged sourceStart spans =>
          obtain rfl : tagged = generation := same
          exact single
      | _ => trivial

section Runs

variable [Binary32 F] [Binary64 W] [Widening F W] {geometry : Geometry}

/-- Calls of two runs that differ at most in tagged samples whose source position the
published spans of their stream cover when their call returns. -/
def DifferMuted (geometry : Geometry) :
    List (RingCall F × RingCall F) → RingView F Unit W → StreamLog → Prop
  | [], _, _ => True
  | pair :: rest, view, log =>
      AkinCall (log.perform unitConverter geometry pair.1 view) pair.1 pair.2 ∧
        DifferMuted geometry rest (view.perform unitConverter geometry pair.1).2
          (log.perform unitConverter geometry pair.1 view)

theorem DifferMuted.of_same (calls : List (RingCall F)) {view : RingView F Unit W}
    {log : StreamLog} : DifferMuted geometry (calls.map fun call => (call, call)) view log := by
  induction calls generalizing view log with
  | nil => trivial
  | cons call rest ih => exact ⟨.same call, ih⟩

theorem DifferMuted.take {calls : List (RingCall F × RingCall F)} {view : RingView F Unit W}
    {log : StreamLog} (differ : DifferMuted geometry calls view log) (count : Nat) :
    DifferMuted geometry (calls.take count) view log := by
  induction calls generalizing view log count with
  | nil =>
      rw [List.take_nil]
      trivial
  | cons pair rest ih =>
      cases count with
      | zero => trivial
      | succ count => exact ⟨differ.1, ih differ.2 count⟩

theorem DifferMuted.twinCalls {generation : Nat} {calls : List (RingCall F × RingCall F)}
    {view : RingView F Unit W} {log : StreamLog}
    (single : view.account.OfGeneration generation)
    (same : ∀ pair ∈ calls, pair.1.OfGeneration generation)
    (differ : DifferMuted geometry calls view log) : TwinCalls geometry calls view log := by
  induction calls generalizing view log with
  | nil => trivial
  | cons pair rest ih =>
      have first := same pair List.mem_cons_self
      exact ⟨first.keepsTo single, differ.1, ih (RingView.perform_ofGeneration single _ first)
        (fun other member => same other (List.mem_cons_of_mem _ member)) differ.2⟩

variable [OrderedBinary64 W]

/-- At unit rate, in either mode of concealment: two runs of one generation that differ
in muted samples only reply and observe the same all along, and conceal the same. -/
theorem muted_pcm_noninterference {settings : Settings} {ring : Ring F Unit W}
    (created : Ring.create unitConverter settings = .ok (geometry, ring)) (generation : Nat)
    (calls : List (RingCall F × RingCall F))
    (same : ∀ pair ∈ calls, pair.1.OfGeneration generation)
    (differ : DifferMuted geometry calls (ring.view geometry) ⟨[], []⟩) (count : Nat) :
    let run := ring.performAll unitConverter geometry ((calls.take count).map Prod.fst)
    let twin := ring.performAll unitConverter geometry ((calls.take count).map Prod.snd)
    twin.1 = run.1 ∧ twin.2.observe geometry = run.2.observe geometry ∧
      twin.2.consumer.plc = run.2.consumer.plc := by
  intro run twin
  have unit : geometry.AtUnitRate W := atUnitRate_created created
  have starts := TwinRings.created created
  have unstamped : (ring.view geometry).account.stamp = none := by
    obtain ⟨-, outputDelay, queued, converter, -, rfl⟩ := create_cases created
    rfl
  have akin : TwinCalls geometry (calls.take count) (ring.view geometry) ⟨[], []⟩ :=
    (differ.take count).twinCalls (.unstamped unstamped) fun pair member =>
      same pair (List.mem_of_mem_take member)
  obtain ⟨replies, log, twins⟩ := starts.performAll unit _ akin
  refine ⟨replies, ?_, twins.heard.1⟩
  rw [← observe_blank id, twins.blank_eq, observe_blank]

end Runs

/-- Two blocks of one generation, the last sample of the second muted, in front of two
gaps and a third block. -/
def gapBehindMuted (sample : ℚ) : List (RingCall ℚ) :=
  [⟨.producer, .pushTagged [1 / 2, 1 / 4] 1 0 []⟩,
    ⟨.producer, .pushTagged [1 / 3, sample] 1 2 [⟨3, 4⟩]⟩, ⟨.producer, .gap 2⟩,
    ⟨.producer, .pushTagged [1 / 8] 1 6 []⟩, ⟨.producer, .finish⟩] ++
    List.replicate 8 ⟨.consumer, .render⟩

/-- The gaps are concealed with the period in front of them, in which the muted sample
is silence. -/
theorem muted_pcm_noninterference_behind_gaps : ∃ geometry ring,
    Ring.create (unitConverter (F := ℚ) (W := ℚ)) concealedSettings = .ok (geometry, ring) ∧
    (ring.performAll unitConverter geometry (gapBehindMuted (1 / 8))).1.filterMap
      RingReply.output = [(0, false, false), (1 / 2, true, false), (1 / 4, true, false),
        (1 / 3, true, false), (0, true, false), (0, false, false), (1 / 3, false, false),
        (1 / 8, true, false)] ∧
    (ring.performAll unitConverter geometry (gapBehindMuted 1)).1 =
      (ring.performAll unitConverter geometry (gapBehindMuted (1 / 8))).1 := by
  let first : RingCall ℚ := ⟨.producer, .pushTagged [1 / 2, 1 / 4] 1 0 []⟩
  let input : List ℚ := [1 / 3, 1 / 8]
  let twin : List ℚ := [1 / 3, 1]
  let push (samples : List ℚ) : RingCall ℚ := ⟨.producer, .pushTagged samples 1 2 [⟨3, 4⟩]⟩
  let rest : List (RingCall ℚ) := (gapBehindMuted 0).drop 2
  obtain ⟨geometry, ring, created, checked⟩ := exists_created
    (unitConverter (F := ℚ) (W := ℚ)) concealedSettings
    (fun geometry ring => decide ((ring.performAll unitConverter geometry
        (gapBehindMuted (1 / 8))).1.filterMap RingReply.output = [(0, false, false),
          (1 / 2, true, false), (1 / 4, true, false), (1 / 3, true, false), (0, true, false),
          (0, false, false), (1 / 3, false, false), (1 / 8, true, false)] ∧
      ∀ index < input.length, (twin)[index]? = (input)[index]? ∨
        (StreamLog.performAll unitConverter geometry [first, push input] (ring.view geometry)
          ⟨[], []⟩).Mutes (some (Stamp.support ⟨1, 2 + index⟩))))
    (by decide +kernel)
  obtain ⟨outputs, differs⟩ := of_decide_eq_true checked
  refine ⟨geometry, ring, created, outputs, (muted_pcm_noninterference created
    1 ((first, first) :: (push input, push twin) :: rest.map fun call => (call, call))
    ?_ ⟨.same _, .muted 1 2 [⟨3, 4⟩] rfl differs, .of_same rest⟩ 100).1⟩
  simp [first, push, rest, gapBehindMuted, RingCall.OfGeneration]

end PcmRing
