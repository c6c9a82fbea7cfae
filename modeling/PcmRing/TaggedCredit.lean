import PcmRing.PrefixCredit

/-!
# What the credit of a tagged block says

A tagged block looks for room before it publishes anything, and behind an open
gate the consumer can only make more of it, whatever else it does.  The records
of the block are therefore published exactly when slots are credited, clipped to
the last of them.
-/

namespace PcmRing

open AtomicProgram TwoLapQueue

variable {F S W β : Type} {geometry : Geometry}

/-- These records are published. -/
structure Posted (geometry : Geometry) (records : List Interval) (ring : Ring F S W) : Prop where
  pcm : ring.pcm.Sound geometry.capacity
  mutes : ring.mutes.Sound mailboxQueue
  records_eq : ring.mutes.published = records

/-- No boundary is pending, and there is room for so many more slots. -/
structure Spacious (geometry : Geometry) (count : Nat) (records : List Interval)
    (ring : Ring F S W) : Prop extends Posted geometry records ring where
  idle : ¬FinishPending ring.finish
  room : distance geometry.capacity ring.pcm.queue.written ring.pcm.queue.read + count ≤
    geometry.capacity

/-- Their source positions are representable too. -/
structure Roomy (geometry : Geometry) (count : Nat) (records : List Interval)
    (ring : Ring F S W) : Prop extends Spacious geometry count records ring where
  within : ∀ stamp ∈ ring.producerStamp, stamp.source + count < 2 ^ 64

section Stable

variable {count : Nat} {records : List Interval} {before after : Ring F S W}

theorem Posted.stable (posted : Posted geometry records before)
    (moves : ConsumerMoves geometry True before after) : Posted geometry records after where
  pcm := (moves.pcm posted.pcm).1
  mutes := (moves.mutes posted.mutes).1
  records_eq := moves.records_published_eq.trans posted.records_eq

theorem Spacious.stable (spacious : Spacious geometry count records before)
    (moves : ConsumerMoves geometry True before after) : Spacious geometry count records after where
  toPosted := spacious.toPosted.stable moves
  idle := moves.idle spacious.idle ▸ spacious.idle
  room := Nat.le_trans (Nat.add_le_add_right (moves.pcm spacious.pcm).2.distance_le _)
    spacious.room

theorem Roomy.stable (roomy : Roomy geometry count records before)
    (moves : ConsumerMoves geometry True before after) : Roomy geometry count records after where
  toSpacious := roomy.toSpacious.stable moves
  within := moves.stamp_eq ▸ roomy.within

end Stable

section Rules

variable {count : Nat} {records : List Interval} {ring : Ring F S W}
  {post : β → Ring F S W → Prop}

theorem safe_syncKeeping (assertion : Ring F S W → Prop)
    (stable : ∀ {first last}, ConsumerMoves geometry True first last → assertion first →
      assertion last)
    (forgets : ∀ now, assertion now → assertion (effect geometry (.setStamp none) now))
    (syncs : ∀ now epoch, assertion now → assertion (effect geometry (.storeEpoch epoch) now))
    (holds : assertion ring) {next : Unit → RingProgram F S W β}
    (safe : ∀ now, assertion now →
      (next ()).Safe (exec geometry) (ConsumerMoves geometry True) (fun _ _ => True) post now) :
    (syncProducerEpoch >>= next).Safe (exec geometry) (ConsumerMoves geometry True)
      (fun _ _ => True) post ring := by
  unfold syncProducerEpoch
  simp only [bind_assoc]
  refine safe_answer .loadResetSerial trivial fun first firstMoves => ⟨trivial, ?_⟩
  refine safe_answer .loadEpoch trivial fun second secondMoves => ⟨trivial, ?_⟩
  have secondHolds := stable secondMoves (stable firstMoves holds)
  split
  · rw [bind_assoc]
    refine safe_access.mpr fun third thirdMoves => ⟨trivial, ?_⟩
    refine safe_access.mpr fun fourth fourthMoves => ⟨trivial, ?_⟩
    exact safe _ (syncs _ _ (stable fourthMoves (forgets _ (stable thirdMoves secondHolds))))
  · exact safe second secondHolds

theorem safe_countPosted (value : Nat) (posted : Posted geometry records ring)
    {next : Nat → RingProgram F S W β}
    (safe : ∀ total now, Posted geometry records now →
      (next total).Safe (exec geometry) (ConsumerMoves geometry True) (fun _ _ => True) post now) :
    (saturatingAddCounter .discarded value >>= next).Safe (exec geometry)
      (ConsumerMoves geometry True) (fun _ _ => True) post ring := by
  unfold saturatingAddCounter
  simp only [bind_assoc]
  refine safe_answer (.loadCounter .discarded) trivial fun first firstMoves => ⟨trivial, ?_⟩
  refine safe_access.mpr fun second secondMoves => ⟨trivial, ?_⟩
  exact safe _ _ { (posted.stable firstMoves).stable secondMoves with }

theorem safe_storeRoomy {slot : SourceSample F} (roomy : Roomy geometry count records ring)
    (space : distance geometry.capacity ring.pcm.queue.written ring.pcm.queue.read + (count + 1) ≤
      geometry.capacity)
    {next : Bool → RingProgram F S W β}
    (safe : ∀ now, Roomy geometry count records now →
      (next true).Safe (exec geometry) (ConsumerMoves geometry True) (fun _ _ => True) post now) :
    (storeSlot geometry ring.pcm.queue.written slot >>= next).Safe (exec geometry)
      (ConsumerMoves geometry True) (fun _ _ => True) post ring := by
  unfold storeSlot
  simp only [bind_assoc]
  refine safe_access.mpr fun first firstMoves => ⟨trivial, ?_⟩
  have firstRoomy := roomy.stable firstMoves
  have firstReads := (firstMoves.pcm roomy.pcm).2
  have firstSpace := firstReads.distance_le
  rw [← firstReads.written_eq]
  have cellPermitted : first.pcm.WriterPermits geometry.capacity
      (.storeCell (first.pcm.queue.written % geometry.capacity) slot) :=
    ⟨0, by rw [Nat.add_zero], by omega⟩
  have staged : Roomy geometry count records (effect geometry
      (.pcm (.storeCell (first.pcm.queue.written % geometry.capacity) slot)) first) :=
    { firstRoomy with pcm := Channel.sound_writer firstRoomy.pcm cellPermitted }
  refine safe_access.mpr fun second secondMoves => ⟨trivial, ?_⟩
  have secondRoomy := staged.stable secondMoves
  have secondReads := (secondMoves.pcm staged.pcm).2
  have secondSpace : distance geometry.capacity second.pcm.queue.written second.pcm.queue.read ≤
      distance geometry.capacity first.pcm.queue.written first.pcm.queue.read :=
    secondReads.distance_le
  have writtenEq : second.pcm.queue.written = first.pcm.queue.written := secondReads.written_eq
  have permitted : second.pcm.WriterPermits geometry.capacity
      (.storeWritten ((second.pcm.queue.written + 1) % (geometry.capacity * 2))) :=
    ⟨1, rfl, by omega⟩
  rw [← writtenEq]
  have after := Channel.sound_writer secondRoomy.pcm permitted
  refine safe _ { secondRoomy with pcm := after, room := ?_ }
  -- The cursor moved by the one published slot.
  have before := secondRoomy.pcm.published_length
  have behind := after.published_length
  rw [exec_storeWritten_one secondRoomy.pcm, List.length_append, List.length_singleton] at behind
  change _ = second.pcm.passed.length + _ at behind
  change distance geometry.capacity ((second.pcm.exec geometry.capacity (.storeWritten
    ((second.pcm.queue.written + 1) % (geometry.capacity * 2)))).2.queue.written)
    second.pcm.queue.read + count ≤ geometry.capacity
  change second.pcm.published.length + 1 = second.pcm.passed.length + distance geometry.capacity
    ((second.pcm.exec geometry.capacity (.storeWritten
      ((second.pcm.queue.written + 1) % (geometry.capacity * 2)))).2.queue.written)
    second.pcm.queue.read at behind
  omega

theorem safe_publishRoomy {slot : SourceSample F}
    (roomy : Roomy geometry (count + 1) records ring) {next : Bool → RingProgram F S W β}
    (safe : ∀ now, Roomy geometry count records now →
      (next true).Safe (exec geometry) (ConsumerMoves geometry True) (fun _ _ => True) post now) :
    (producerPublish geometry slot >>= next).Safe (exec geometry) (ConsumerMoves geometry True)
      (fun _ _ => True) post ring := by
  unfold producerPublish
  simp only [bind_assoc]
  refine safe_syncKeeping (Roomy geometry (count + 1) records) (fun moves now => now.stable moves)
    (fun _ now => { now with within := fun _ member => by cases member })
    (fun _ _ now => { now with }) roomy fun first firstRoomy => ?_
  unfold finishPending
  simp only [bind_assoc]
  refine safe_access.mpr fun second secondMoves => ⟨trivial, ?_⟩
  have secondRoomy := firstRoomy.stable secondMoves
  have gateShut : decide (FinishPending second.finish) = false :=
    decide_eq_false secondRoomy.idle
  change Program.Safe _ _ _ _ ((if decide (FinishPending second.finish) = true then _ else _) >>=
    next) _
  rw [gateShut, if_neg (by simp)]
  simp only [bind_assoc]
  refine safe_answer (.pcm .loadWritten) trivial fun third thirdMoves => ⟨trivial, ?_⟩
  refine safe_answer (.pcm .loadRead) trivial fun fourth fourthMoves => ⟨trivial, ?_⟩
  have passedGate : Roomy geometry (count + 1) records
      (effect geometry (.loadFinish .publishGate) second) := { secondRoomy with }
  have thirdRoomy := passedGate.stable thirdMoves
  have fourthRoomy := thirdRoomy.stable fourthMoves
  have writtenEq : fourth.pcm.queue.written = third.pcm.queue.written :=
    (fourthMoves.pcm thirdRoomy.pcm).2.written_eq
  have fourthRoom := fourthRoomy.room
  change Program.Safe _ _ _ _ ((if geometry.capacity ≤ distance geometry.capacity
    third.pcm.queue.written fourth.pcm.queue.read then _ else _) >>= next) fourth
  rw [← writtenEq, if_neg (by omega), bind_assoc]
  refine safe_answer .loadStamp trivial fun fifth fifthMoves => ⟨trivial, ?_⟩
  have fifthRoomy := fourthRoomy.stable fifthMoves
  have cursorEq : answer geometry (.pcm .loadWritten) third = fifth.pcm.queue.written :=
    ((fifthMoves.pcm fourthRoomy.pcm).2.written_eq.trans writtenEq).symm
  have stampLoaded : answer geometry .loadStamp fifth = fifth.producerStamp := rfl
  rw [stampLoaded, cursorEq]
  have fifthRoom := fifthRoomy.room
  cases stampEq : fifth.producerStamp with
  | none =>
      have less : Roomy geometry count records fifth :=
        { fifthRoomy with
          room := by omega
          within := fun stamp member => by rw [stampEq] at member; cases member }
      exact safe_storeRoomy less fifthRoom safe
  | some current =>
      have within := fifthRoomy.within current stampEq
      dsimp only
      rw [if_neg (by omega), bind_assoc]
      refine safe_access.mpr fun sixth sixthMoves => ⟨trivial, ?_⟩
      have sixthRoomy := fifthRoomy.stable sixthMoves
      have sixthReads := (sixthMoves.pcm fifthRoomy.pcm).2
      have sixthRoom := sixthRoomy.room
      rw [← sixthReads.written_eq]
      have less : distance geometry.capacity sixth.pcm.queue.written sixth.pcm.queue.read + count ≤
          geometry.capacity := by omega
      have advanced : Roomy geometry count records (effect geometry
          (.advanceStamp { current with source := current.source + 1 }) sixth) :=
        { sixthRoomy with
          room := less
          within := fun stamp member => by
            obtain rfl := Option.mem_some.mp member
            dsimp only
            omega }
      exact safe_storeRoomy advanced sixthRoom safe

variable [Binary32 F]

theorem safe_pushFromRoomy (input : List F) (accepted : Nat)
    (roomy : Roomy geometry input.length records ring) {next : Nat → RingProgram F S W β}
    (safe : ∀ now, Roomy geometry 0 records now →
      (next (accepted + input.length)).Safe (exec geometry) (ConsumerMoves geometry True)
        (fun _ _ => True) post now) :
    (producerPushFrom geometry input accepted >>= next).Safe (exec geometry)
      (ConsumerMoves geometry True) (fun _ _ => True) post ring := by
  induction input generalizing accepted ring with
  | nil => exact safe ring roomy
  | cons sample rest ih =>
      unfold producerPushFrom producerPushSample
      rw [bind_assoc]
      refine safe_publishRoomy roomy fun now nowRoomy => ?_
      rw [if_pos rfl]
      refine ih (accepted + 1) nowRoomy fun last lastRoomy => ?_
      rw [Nat.add_right_comm, Nat.add_assoc]
      exact safe last lastRoomy

theorem safe_pushRoomy (input : List F) (roomy : Roomy geometry input.length records ring)
    {next : Nat → RingProgram F S W β}
    (safe : ∀ now, Roomy geometry 0 records now →
      (next input.length).Safe (exec geometry) (ConsumerMoves geometry True) (fun _ _ => True)
        post now) :
    (producerPush geometry input >>= next).Safe (exec geometry) (ConsumerMoves geometry True)
      (fun _ _ => True) post ring := by
  unfold producerPush finishPending
  simp only [bind_assoc]
  refine safe_answer (.loadFinish .gate) (by simp [Access.IsLoad]) fun first firstMoves =>
    ⟨trivial, ?_⟩
  have firstRoomy := roomy.stable firstMoves
  have shut : decide (FinishPending first.finish) = false := decide_eq_false firstRoomy.idle
  change Program.Safe _ _ _ _ ((if decide (FinishPending first.finish) = true then _ else _) >>=
    next) _
  rw [shut, if_neg (by simp)]
  refine safe_pushFromRoomy input 0 firstRoomy fun last lastRoomy => ?_
  rw [Nat.zero_add]
  exact safe last lastRoomy

omit [Binary32 F] in
theorem creditFiller : (mutePort (F := F) (S := S) (W := W)).FillerSide mailboxQueue Ring.mutes
    (ConsumerMoves geometry True) (fun _ _ => True : Access F S W → Ring F S W → Prop) where
  order := preordered_consumerMoves
  reads moves := moves.mutes
  permits _ _ _ _ := trivial

omit [Binary32 F] in
theorem safe_publishBatch {generation stop : Nat} {spans : List Span}
    (spacious : Spacious geometry count records ring)
    (space : (ring.mutes.unread mailboxQueue).length + spans.length ≤ mailboxQueue)
    {next : Unit → RingProgram F S W β}
    (safe : ∀ now, Spacious geometry count (records ++ clippedIntervals generation spans stop) now →
      (next ()).Safe (exec geometry) (ConsumerMoves geometry True) (fun _ _ => True) post now) :
    (mailboxPublish mutePort generation spans stop >>= next).Safe (exec geometry)
      (ConsumerMoves geometry True) (fun _ _ => True) post ring := by
  unfold mailboxPublish
  have clippedLe : (clippedIntervals generation spans stop).length ≤ spans.length :=
    List.length_filterMap_le _ _
  generalize clippedIntervals generation spans stop = intervals at clippedLe safe ⊢
  rw [Channel.unread_length] at space
  refine Port.safe_append_promised (mute_lawful geometry) creditFiller
    (Spacious geometry count records) (fun moves now => now.stable moves) ?_
    (fun _ now => now.mutes) intervals spacious (by omega) ?_
  · exact fun now index value nowSpacious permitted =>
      { nowSpacious with mutes := Channel.sound_writer nowSpacious.mutes permitted }
  · intro now nowSpacious _ nowSpace segmentEq
    have positive : intervals.length < mailboxQueue * 2 := by
      have : 0 < mailboxQueue := by decide
      omega
    have countEq : distance mailboxQueue ((now.mutes.queue.written + intervals.length) %
        (mailboxQueue * 2)) now.mutes.queue.written = intervals.length :=
      distance_advance nowSpacious.mutes.valid.written_lt positive
    refine ⟨trivial, safe _ { nowSpacious with
      mutes := Channel.sound_writer nowSpacious.mutes ⟨intervals.length, rfl, nowSpace⟩
      records_eq := ?_ }⟩
    change (now.mutes.exec mailboxQueue _).2.published = _
    simp only [Channel.exec, countEq, segmentEq, nowSpacious.records_eq]

/-- Slots are credited exactly when the records of the block were published. -/
def CreditPost (generation sourceStart : Nat) (spans : List Span) (records : List Interval)
    (credit : Option Nat) (exit : Ring F S W) : Prop :=
  exit.mutes.published = records ++ if credit.getD 0 = 0 then []
    else clippedIntervals generation spans (sourceStart + credit.getD 0)

/-- Whatever the consumer does meanwhile, a tagged block is credited what it found
room for, and its records are clipped there. -/
theorem safe_taggedCredit (input : List F) (generation sourceStart : Nat) (spans : List Span)
    (pcm : ring.pcm.Sound geometry.capacity) (mutes : ring.mutes.Sound mailboxQueue) :
    (producerPushTagged geometry input generation sourceStart spans).Safe (exec geometry)
      (ConsumerMoves geometry True) (fun _ _ => True)
      (CreditPost generation sourceStart spans ring.mutes.published) ring := by
  -- Nothing was published before the credit was refused.
  have refused {now : Ring F S W} (recordsEq : now.mutes.published = ring.mutes.published)
      {credit : Option Nat} (nothing : credit.getD 0 = 0) :
      (pure credit : RingProgram F S W (Option Nat)).Safe (exec geometry)
        (ConsumerMoves geometry True) (fun _ _ => True)
        (CreditPost generation sourceStart spans ring.mutes.published) now := by
    intro exit moves
    unfold CreditPost
    rw [if_pos nothing, List.append_nil, moves.records_published_eq, recordsEq]
  unfold producerPushTagged
  refine safe_syncKeeping (Posted geometry ring.mutes.published) (fun moves now => now.stable moves)
    (fun _ now => { now with }) (fun _ _ now => { now with }) ⟨pcm, mutes, rfl⟩
    fun first firstPosted => ?_
  unfold finishPending
  simp only [bind_assoc]
  refine safe_access.mpr fun second secondMoves => ⟨trivial, ?_⟩
  have secondPosted : Posted geometry ring.mutes.published
      (effect geometry (.loadFinish .publishGate) second) :=
    { firstPosted.stable secondMoves with }
  change Program.Safe _ _ _ _ (if decide (FinishPending second.finish) = true then _ else _) _
  split
  · exact refused secondPosted.records_eq rfl
  rename_i opened
  have secondIdle : ¬FinishPending second.finish := fun pending => opened (decide_eq_true pending)
  split
  · exact refused secondPosted.records_eq rfl
  rename_i valid
  refine safe_answer .loadStamp trivial fun third thirdMoves => ⟨trivial, ?_⟩
  have thirdPosted := secondPosted.stable thirdMoves
  have thirdIdle : ¬FinishPending third.finish := thirdMoves.idle secondIdle ▸ secondIdle
  split
  · exact refused thirdPosted.records_eq rfl
  unfold mailboxFree
  rw [bind_assoc]
  refine Port.safe_occupied_writer (mute_lawful geometry) creditFiller thirdPosted.mutes
    fun fourth fourthMoves => ?_
  have fourthPosted := thirdPosted.stable fourthMoves
  have fourthIdle : ¬FinishPending fourth.finish := fourthMoves.idle thirdIdle ▸ thirdIdle
  rw [pure_bind]
  split
  · exact refused fourthPosted.records_eq rfl
  rename_i fits
  unfold available Port.occupied
  simp only [bind_assoc]
  refine safe_answer (.pcm .loadWritten) trivial fun fifth fifthMoves => ⟨trivial, ?_⟩
  refine safe_answer (.pcm .loadRead) trivial fun sixth sixthMoves => ⟨trivial, ?_⟩
  have fifthPosted := fourthPosted.stable fifthMoves
  have sixthPosted := fifthPosted.stable sixthMoves
  have sixthIdle : ¬FinishPending sixth.finish := by
    rw [sixthMoves.idle (fifthMoves.idle fourthIdle ▸ fourthIdle), fifthMoves.idle fourthIdle]
    exact fourthIdle
  have writtenEq : answer geometry (.pcm .loadWritten) fifth = sixth.pcm.queue.written :=
    (sixthMoves.pcm fifthPosted.pcm).2.written_eq.symm
  have readEq : answer geometry (.pcm .loadRead) sixth = sixth.pcm.queue.read := rfl
  simp only [pure_bind, writtenEq, readEq]
  have occupied := sixthPosted.pcm.valid.distance_le
  generalize countEq : min input.length (geometry.capacity - min (distance geometry.capacity
    sixth.pcm.queue.written sixth.pcm.queue.read) geometry.capacity) = count
  have countLe : count ≤ input.length := countEq ▸ Nat.min_le_left _ _
  have spacious : Spacious geometry count ring.mutes.published sixth :=
    { sixthPosted with
      idle := sixthIdle
      room := by omega }
  split
  · exact safe_countPosted _ sixthPosted fun _ last lastPosted => refused lastPosted.records_eq rfl
  rename_i nonzero
  have mailboxRoom : (sixth.mutes.unread mailboxQueue).length + spans.length ≤ mailboxQueue := by
    have free := fourthPosted.mutes.valid.distance_le
    have fifthLe := (fifthMoves.mutes fourthPosted.mutes).2.distance_le
    have sixthLe := (sixthMoves.mutes fifthPosted.mutes).2.distance_le
    rw [Channel.unread_length] at fits ⊢
    omega
  refine safe_publishBatch spacious mailboxRoom fun seventh seventhSpacious => ?_
  refine safe_access.mpr fun eighth eighthMoves => ⟨trivial, ?_⟩
  have takeLength : (input.take count).length = count := by
    rw [List.length_take, Nat.min_eq_left countLe]
  have representable : sourceStart + count < 2 ^ 64 := by
    have := Nat.not_le.mp fun le => valid (.inl le)
    omega
  have eighthSpacious := seventhSpacious.stable eighthMoves
  have tagged : Roomy geometry (input.take count).length
      (ring.mutes.published ++ clippedIntervals generation spans (sourceStart + count))
      (effect geometry (.setStamp (some ⟨generation, sourceStart⟩)) eighth) :=
    { eighthSpacious with
      room := takeLength.symm ▸ eighthSpacious.room
      within := fun stamp member => by
        obtain rfl := Option.mem_some.mp member
        rw [takeLength]
        exact representable }
  refine safe_pushRoomy (input.take count) tagged fun ninth ninthRoomy => ?_
  refine safe_countPosted _ ninthRoomy.toPosted fun _ tenth tenthPosted exit moves => ?_
  unfold CreditPost
  rw [takeLength, Option.getD_some, if_neg nonzero, moves.records_published_eq,
    tenthPosted.records_eq]

end Rules

end PcmRing
