import PcmRing.BlankRings

/-!
# Programs without their samples

Whatever the samples are, every call of either endpoint performs the accesses that
it would perform without them, as long as the converter counts them only.
-/

namespace PcmRing

open AtomicProgram TwoLapQueue

variable {F S T W α β : Type}

/-- A program and the one that it becomes without PCM. -/
abbrev Blanks (geometry : Geometry) (erase : S → T) (related : α → β → Prop)
    (program : RingProgram F S W α) (image : RingProgram Blank T W β) : Prop :=
  Program.Mirrors (blankMirror erase geometry) related program image

/-- The same answer. -/
def Same (value image : α) : Prop :=
  image = value

section Rules

variable {geometry : Geometry} {erase : S → T}

theorem access_blank (op : Access F S W) : Blanks geometry erase
    (fun response image => image = op.blankResponse erase response) (access op)
    (access (op.blank erase)) :=
  .perform op

theorem done_blank (value : α) : Blanks geometry erase Same (pure value : RingProgram F S W α)
    (pure value) :=
  .done rfl

theorem pcmPort_blank : Port.Mirrored SourceSample.blank (blankMirror erase geometry)
    (pcmPort (F := F) (S := S) (W := W)) pcmPort where
  perform access := .act (Access.pcm access) fun _ => .done rfl

theorem mutePort_blank : Port.Mirrored id (blankMirror erase geometry)
    (mutePort (F := F) (S := S) (W := W)) mutePort where
  perform access := by
    cases access <;> exact .act (Access.mutes _) fun _ => .done rfl

end Rules

section Producer

variable (geometry : Geometry) {erase : S → T}

theorem saturatingAddCounter_blank (counter : Counter) (value : Nat) : Blanks geometry erase Same
    (saturatingAddCounter counter value : RingProgram F S W Nat)
    (saturatingAddCounter counter value) := by
  refine (access_blank (.loadCounter counter)).bind ?_
  rintro _ (current : Nat) rfl
  refine (access_blank (.storeCounter counter _)).bind ?_
  exact fun _ _ _ => done_blank _

theorem finishPending_blank (site : FinishSite) : Blanks geometry erase Same
    (finishPending site : RingProgram F S W Bool) (finishPending site) := by
  refine (access_blank (.loadFinish site)).bind ?_
  rintro _ (current : Nat) rfl
  exact done_blank _

theorem syncProducerEpoch_blank : Blanks geometry erase Same
    (syncProducerEpoch : RingProgram F S W Unit) syncProducerEpoch := by
  refine (access_blank .loadResetSerial).bind ?_
  rintro _ (reset : Nat) rfl
  refine (access_blank .loadEpoch).bind ?_
  rintro _ (epoch : Nat) rfl
  apply Program.Mirrors.ite Iff.rfl
  · intro _
    refine (access_blank (.setStamp none)).bind ?_
    exact fun _ _ _ => access_blank (.storeEpoch reset)
  · exact fun _ => .done rfl

theorem available_blank : Blanks geometry erase Same
    (available geometry : RingProgram F S W Nat) (available geometry) := by
  refine (pcmPort_blank.occupied geometry.capacity).bind ?_
  rintro _ occupied rfl
  exact done_blank _

theorem storeSlot_blank (written : Nat) (sample : SourceSample F) : Blanks geometry erase Same
    (storeSlot geometry written sample : RingProgram F S W Bool)
    (storeSlot geometry written sample.blank) := by
  refine (access_blank (.pcm (.storeCell _ sample))).bind fun _ _ _ => ?_
  refine (access_blank (.pcm (.storeWritten _))).bind fun _ _ _ => ?_
  exact done_blank true

theorem producerPublish_blank (sample : SourceSample F) : Blanks geometry erase Same
    (producerPublish geometry sample : RingProgram F S W Bool)
    (producerPublish geometry sample.blank) := by
  refine (syncProducerEpoch_blank geometry).bind fun _ _ _ => ?_
  refine (finishPending_blank geometry .publishGate).bind ?_
  rintro _ pending rfl
  apply Program.Mirrors.ite Iff.rfl
  · exact fun _ => .done rfl
  intro _
  refine (access_blank (.pcm .loadWritten)).bind ?_
  rintro _ (written : Nat) rfl
  refine (access_blank (.pcm .loadRead)).bind ?_
  rintro _ (read : Nat) rfl
  apply Program.Mirrors.ite Iff.rfl
  · intro _
    exact (saturatingAddCounter_blank geometry .discarded 1).bind fun _ _ _ => .done rfl
  intro _
  refine (access_blank .loadStamp).bind ?_
  rintro _ (stamp : Option Stamp) rfl
  cases stamp with
  | none => exact storeSlot_blank geometry written sample
  | some current =>
      apply Program.Mirrors.ite Iff.rfl
      · exact fun _ => .done rfl
      intro _
      refine (access_blank (.advanceStamp _)).bind fun _ _ _ => ?_
      exact storeSlot_blank geometry written { sample with stamp := some current }

theorem producerGapFrom_blank [Zero F] (remaining accepted : Nat) : Blanks geometry erase Same
    (producerGapFrom geometry remaining accepted : RingProgram F S W Nat)
    (producerGapFrom geometry remaining accepted) := by
  induction remaining generalizing accepted with
  | zero => exact .done rfl
  | succ remaining ih =>
      refine (producerPublish_blank geometry gapSlot).bind ?_
      rintro _ published rfl
      apply Program.Mirrors.ite Iff.rfl
      · exact fun _ => ih _
      · intro _
        exact (saturatingAddCounter_blank geometry .discarded remaining).bind
          fun _ _ _ => .done rfl

theorem producerGap_blank [Zero F] (samples : Nat) : Blanks geometry erase Same
    (producerGap geometry samples : RingProgram F S W Nat) (producerGap geometry samples) := by
  refine (finishPending_blank geometry .gate).bind ?_
  rintro _ pending rfl
  apply Program.Mirrors.ite Iff.rfl
  · exact fun _ => .done rfl
  · exact fun _ => producerGapFrom_blank geometry samples 0

theorem mailboxFree_blank : Blanks geometry erase Same
    (mailboxFree mutePort : RingProgram F S W Nat) (mailboxFree mutePort) := by
  refine (mutePort_blank.occupied mailboxQueue).bind ?_
  rintro _ occupied rfl
  exact done_blank _

theorem mailboxPublish_blank (generation : Nat) (spans : List Span) (stop : Nat) :
    Blanks geometry erase (fun _ _ => True)
      (mailboxPublish mutePort generation spans stop : RingProgram F S W Unit)
      (mailboxPublish mutePort generation spans stop) := by
  have published : Blanks geometry erase (fun _ _ => True)
      (mailboxPublish mutePort generation spans stop : RingProgram F S W Unit)
      (mutePort.append mailboxQueue ((clippedIntervals generation spans stop).map id)) :=
    mutePort_blank.append mailboxQueue (clippedIntervals generation spans stop)
  rwa [List.map_id] at published

variable [Binary32 F]

theorem producerPushFrom_blank (input : List F) (accepted : Nat) : Blanks geometry erase Same
    (producerPushFrom geometry input accepted : RingProgram F S W Nat)
    (producerPushFrom geometry (input.map fun _ => (⟨⟩ : Blank)) accepted) := by
  induction input generalizing accepted with
  | nil => exact .done rfl
  | cons sample rest ih =>
      refine (producerPublish_blank geometry ⟨canonicalize sample, false, none⟩).bind ?_
      rintro _ published rfl
      apply Program.Mirrors.ite Iff.rfl
      · exact fun _ => ih _
      · intro _
        rw [List.length_map]
        exact (saturatingAddCounter_blank geometry .discarded rest.length).bind
          fun _ _ _ => .done rfl

theorem producerPush_blank (input : List F) : Blanks geometry erase Same
    (producerPush geometry input : RingProgram F S W Nat)
    (producerPush geometry (input.map fun _ => (⟨⟩ : Blank))) := by
  refine (finishPending_blank geometry .gate).bind ?_
  rintro _ pending rfl
  apply Program.Mirrors.ite Iff.rfl
  · exact fun _ => .done rfl
  · exact fun _ => producerPushFrom_blank geometry input 0

theorem producerPushTagged_blank (input : List F) (generation sourceStart : Nat)
    (spans : List Span) : Blanks geometry erase Same
      (producerPushTagged geometry input generation sourceStart spans :
        RingProgram F S W (Option Nat))
      (producerPushTagged geometry (input.map fun _ => (⟨⟩ : Blank)) generation sourceStart
        spans) := by
  have lengthEq : (input.map fun _ => (⟨⟩ : Blank)).length = input.length := List.length_map _
  unfold producerPushTagged
  refine (syncProducerEpoch_blank geometry).bind fun _ _ _ => ?_
  refine (finishPending_blank geometry .publishGate).bind ?_
  rintro _ pending rfl
  apply Program.Mirrors.ite Iff.rfl
  · exact fun _ => .done rfl
  intro _
  apply Program.Mirrors.ite
  · unfold TaggedInvalid
    rw [lengthEq]
  · exact fun _ => .done rfl
  intro _
  refine (access_blank .loadStamp).bind ?_
  rintro _ (previous : Option Stamp) rfl
  apply Program.Mirrors.ite Iff.rfl
  · exact fun _ => .done rfl
  intro _
  refine (mailboxFree_blank geometry).bind ?_
  rintro _ free rfl
  apply Program.Mirrors.ite Iff.rfl
  · exact fun _ => .done rfl
  intro _
  refine (available_blank geometry).bind ?_
  rintro _ occupied rfl
  rw [lengthEq]
  apply Program.Mirrors.ite Iff.rfl
  · intro _
    exact (saturatingAddCounter_blank geometry .discarded input.length).bind
      fun _ _ _ => .done rfl
  intro _
  refine (mailboxPublish_blank geometry generation spans _).bind fun _ _ _ => ?_
  refine (access_blank (.setStamp _)).bind fun _ _ _ => ?_
  rw [← List.map_take]
  refine (producerPush_blank geometry _).bind ?_
  rintro _ accepted rfl
  exact (saturatingAddCounter_blank geometry .discarded _).bind fun _ _ _ => .done rfl

omit [Binary32 F] in
theorem producerMute_blank (generation : Nat) (spans : List Span) : Blanks geometry erase Same
    (producerMute geometry generation spans : RingProgram F S W (Option Nat))
    (producerMute geometry generation spans) := by
  refine (syncProducerEpoch_blank geometry).bind fun _ _ _ => ?_
  refine (access_blank .loadStamp).bind ?_
  rintro _ (stamp : Option Stamp) rfl
  cases stamp with
  | none => exact .done rfl
  | some current =>
      apply Program.Mirrors.ite Iff.rfl
      · exact fun _ => .done rfl
      intro _
      refine (mailboxFree_blank geometry).bind ?_
      rintro _ free rfl
      exact (mailboxPublish_blank geometry generation _ current.source).bind
        fun _ _ _ => .done rfl

omit [Binary32 F] in
theorem producerFinish_blank : Blanks geometry erase Same
    (producerFinish : RingProgram F S W (Option Nat)) producerFinish := by
  refine (access_blank (.loadFinish .request)).bind ?_
  rintro _ (current : Nat) rfl
  apply Program.Mirrors.ite Iff.rfl
  · exact fun _ => .done rfl
  intro _
  apply Program.Mirrors.ite Iff.rfl
  · exact fun _ => (access_blank (.storeFinish _)).bind fun _ _ _ => .done rfl
  · exact fun _ => .done rfl

omit [Binary32 F] in
theorem finishStatus_blank (token : Nat) : Blanks geometry erase Same
    (finishStatus token : RingProgram F S W (Option FinishStatus)) (finishStatus token) := by
  refine (access_blank (.loadFinish .status)).bind ?_
  rintro _ (current : Nat) rfl
  exact done_blank _

/-- A call without its samples. -/
def ProducerCall.blank : ProducerCall F → ProducerCall Blank
  | pushSample _ => .pushSample ⟨⟩
  | push input => .push (input.map fun _ => ⟨⟩)
  | pushTagged input generation sourceStart spans =>
      .pushTagged (input.map fun _ => ⟨⟩) generation sourceStart spans
  | gap samples => .gap samples
  | mute generation spans => .mute generation spans
  | finish => .finish
  | status token => .status token

theorem producerBody_blank (call : ProducerCall F) : Blanks geometry erase Same
    (producerBody geometry call : RingProgram F S W ProducerResult)
    (producerBody geometry call.blank) := by
  cases call with
  | pushSample sample =>
      refine (producerPublish_blank geometry ⟨canonicalize sample, false, none⟩).bind ?_
      rintro _ accepted rfl
      exact .done rfl
  | push input =>
      refine (producerPush_blank geometry input).bind ?_
      rintro _ accepted rfl
      exact .done rfl
  | pushTagged input generation sourceStart spans =>
      refine (producerPushTagged_blank geometry input generation sourceStart spans).bind ?_
      rintro _ accepted rfl
      exact .done rfl
  | gap samples =>
      refine (producerGap_blank geometry samples).bind ?_
      rintro _ accepted rfl
      exact .done rfl
  | mute generation spans =>
      refine (producerMute_blank geometry generation spans).bind ?_
      rintro _ accepted rfl
      exact .done rfl
  | finish =>
      refine (producerFinish_blank geometry).bind ?_
      rintro _ granted rfl
      exact .done rfl
  | status token =>
      refine (finishStatus_blank geometry token).bind ?_
      rintro _ current rfl
      exact .done rfl

end Producer

end PcmRing
