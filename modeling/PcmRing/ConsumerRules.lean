import PcmRing.EndpointProtocol

/-!
# Rules for consumer programs

Rely/guarantee rules for the pieces consumer programs are made of.  The rely is
any part of what the producer may do, so the same rules serve interleaved runs
and uninterrupted calls.
-/

namespace PcmRing

open AtomicProgram TwoLapQueue

variable {F S W α β : Type}

/-- The accesses a consumer proof has nothing more to promise about. -/
def Access.Plain : Access F S W → Prop
  | .storeFinish _ | .fetchAddResetSerial | .lookup .. | .retire _ => False
  | _ => True

/-- What a consumer program may assume and must promise. -/
structure ConsumerSide (geometry : Geometry) (resets : Prop)
    (shape : List (SourceSample F) → List SlotNote → Prop)
    (rely : Ring F S W → Ring F S W → Prop) (guar : Access F S W → Ring F S W → Prop) :
    Prop where
  order : Program.Preordered rely
  moves : ∀ {before after}, rely before after → ProducerMoves geometry shape before after
  permits : ∀ op ring, ConsumerPermits geometry resets op ring → op.Plain → guar op ring

/-- An assertion on the memory that survives the producer and ignores the
consumer's diagnostics. -/
structure Steady (geometry : Geometry) (rely : Ring F S W → Ring F S W → Prop)
    (assertion : Ring F S W → Prop) : Prop where
  stable : ∀ {before after}, rely before after → assertion before → assertion after
  pcm : ∀ ring, assertion ring → ring.pcm.Sound geometry.capacity
  mutes : ∀ ring, assertion ring → ring.mutes.Sound mailboxQueue
  counter : ∀ ring counter value, assertion ring → counter ≠ .discarded →
    assertion (effect geometry (.storeCounter counter value) ring)
  correction : ∀ ring ppm, assertion ring →
    assertion (effect geometry (.storeRatioCorrection ppm) ring)

theorem Steady.under {geometry : Geometry} {rely less : Ring F S W → Ring F S W → Prop}
    {assertion : Ring F S W → Prop} (steady : Steady geometry rely assertion)
    (weaker : ∀ {before after}, less before after → rely before after) :
    Steady geometry less assertion :=
  { steady with stable := fun moves => steady.stable (weaker moves) }

/-- A fact about anything but the memory stays beside an assertion. -/
theorem Steady.beside {geometry : Geometry} {rely : Ring F S W → Ring F S W → Prop}
    {assertion : Ring F S W → Prop} (steady : Steady geometry rely assertion) (fact : Prop) :
    Steady geometry rely fun ring => assertion ring ∧ fact where
  stable moves holds := ⟨steady.stable moves holds.1, holds.2⟩
  pcm _ holds := steady.pcm _ holds.1
  mutes _ holds := steady.mutes _ holds.1
  counter _ _ _ holds other := ⟨steady.counter _ _ _ holds.1 other, holds.2⟩
  correction _ _ holds := ⟨steady.correction _ _ holds.1, holds.2⟩

namespace ConsumerSide

variable {geometry : Geometry} {resets : Prop}
  {shape : List (SourceSample F) → List SlotNote → Prop}
  {rely : Ring F S W → Ring F S W → Prop} {guar : Access F S W → Ring F S W → Prop}
  {post : β → Ring F S W → Prop} {assertion : Ring F S W → Prop} {ring : Ring F S W}
  (side : ConsumerSide geometry resets shape rely guar)

include side

theorem pcmReader : (pcmPort (F := F) (S := S) (W := W)).ReaderSide geometry.capacity Ring.pcm
    rely guar where
  order := side.order
  writes moves := (side.moves moves).pcm
  permits access ring permitted := side.permits (.pcm access) ring permitted trivial

theorem muteReader : (mutePort (F := F) (S := S) (W := W)).ReaderSide mailboxQueue Ring.mutes
    rely guar where
  order := side.order
  writes moves := (side.moves moves).mutes
  permits access ring permitted := side.permits (.mutes access) ring permitted trivial

theorem safe_addCounter {counter : Counter} (other : counter ≠ .discarded) {value : Nat}
    (steady : Steady geometry rely assertion) (holds : assertion ring)
    {next : Nat → RingProgram F S W β}
    (safe : ∀ total current, assertion current →
      (next total).Safe (exec geometry) rely guar post current) :
    (saturatingAddCounter counter value >>= next).Safe (exec geometry) rely guar post ring := by
  unfold saturatingAddCounter
  simp only [bind_assoc]
  refine safe_answer (.loadCounter counter) trivial fun first firstMoves =>
    ⟨side.permits _ _ trivial trivial, ?_⟩
  refine safe_access.mpr fun second secondMoves => ⟨side.permits _ _ other trivial, ?_⟩
  exact safe _ _ (steady.counter _ _ _
    (steady.stable secondMoves (steady.stable firstMoves holds)) other)

theorem safe_averageShortfall [Binary64 W] {consecutive : Nat}
    (steady : Steady geometry rely assertion) (holds : assertion ring)
    {next : Unit → RingProgram F S W β}
    (safe : ∀ current, assertion current →
      (next ()).Safe (exec geometry) rely guar post current) :
    (averageShortfall geometry consecutive >>= next).Safe (exec geometry) rely guar post
      ring := by
  unfold averageShortfall
  simp only [bind_assoc]
  refine safe_answer (.loadCounter _) trivial fun first firstMoves =>
    ⟨side.permits _ _ trivial trivial, ?_⟩
  refine safe_access.mpr fun second secondMoves =>
    ⟨side.permits _ _ (by simp [ConsumerPermits]) trivial, ?_⟩
  exact safe _ (steady.counter _ _ _
    (steady.stable secondMoves (steady.stable firstMoves holds)) (by simp))

theorem safe_recordShortfall [Binary64 W] {missing : Bool}
    (steady : Steady geometry rely assertion) (holds : assertion ring)
    {next : Unit → RingProgram F S W β}
    (safe : ∀ current, assertion current →
      (next ()).Safe (exec geometry) rely guar post current) :
    (recordShortfall geometry missing >>= next).Safe (exec geometry) rely guar post ring := by
  cases missing with
  | false =>
      simp only [recordShortfall, Bool.false_eq_true, if_false, bind_assoc]
      refine safe_access.mpr fun first firstMoves =>
        ⟨side.permits _ _ (by simp [ConsumerPermits]) trivial, ?_⟩
      exact side.safe_averageShortfall steady
        (steady.counter _ _ _ (steady.stable firstMoves holds) (by simp)) safe
  | true =>
      simp only [recordShortfall, if_true, bind_assoc]
      refine side.safe_addCounter (by simp) steady holds fun _ first firstHolds => ?_
      refine side.safe_addCounter (by simp) steady firstHolds fun total second secondHolds => ?_
      exact side.safe_averageShortfall steady secondHolds safe

/-- The consumer learns how many slots were readable at one moment of the load. -/
theorem safe_available (steady : Steady geometry rely assertion) (holds : assertion ring)
    {next : Nat → RingProgram F S W β}
    (safe : ∀ early current, rely ring early → rely early current → assertion early →
      assertion current →
      (next (early.pcm.unread geometry.capacity).length).Safe (exec geometry) rely guar post
        current) :
    (available geometry >>= next).Safe (exec geometry) rely guar post ring := by
  unfold available
  simp only [bind_assoc]
  refine Port.safe_occupied (pcm_lawful geometry) side.pcmReader (steady.pcm _ holds)
    fun early current earlyMoves currentMoves => ?_
  have earlyHolds := steady.stable earlyMoves holds
  have bounded : (early.pcm.unread geometry.capacity).length ≤ geometry.capacity := by
    rw [Channel.unread_length]
    exact (steady.pcm _ earlyHolds).valid.distance_le
  rw [Nat.min_eq_left bounded]
  exact safe early current earlyMoves currentMoves earlyHolds
    (steady.stable currentMoves earlyHolds)

theorem safe_leave {state : ConsumerState F S W} {rendered : Rendered F}
    {post : Rendered F → Ring F S W → Prop}
    (steady : Steady geometry rely assertion) (holds : assertion ring)
    (safe : ∀ current, assertion current → ∀ after,
      rely (effect geometry (.leave state rendered.2.2) current) after → post rendered after) :
    (leave state rendered).Safe (exec geometry) rely guar post ring := by
  unfold leave
  refine safe_access.mpr fun current moves => ⟨side.permits _ _ trivial trivial, ?_⟩
  exact fun after later => safe current (steady.stable moves holds) after later

theorem safe_reportFault [Binary32 F] {state : ConsumerState F S W}
    {post : Rendered F → Ring F S W → Prop}
    (steady : Steady geometry rely assertion) (holds : assertion ring)
    (safe : ∀ current, assertion current → ∀ after,
      rely (effect geometry (.leave state true) current) after → post (0, false, true) after) :
    (reportFault state).Safe (exec geometry) rely guar post ring := by
  unfold reportFault
  refine side.safe_addCounter (by simp) steady holds fun _ current currentHolds => ?_
  exact side.safe_leave steady currentHolds safe

end ConsumerSide

end PcmRing
