import PcmRing.ProducerRules

/-!
# What the producer's calls accept

Every publishing call accepts a prefix of its block, slot by slot.  A tagged
block publishes its mute records first and then carries consecutive stamps.
-/

namespace PcmRing

open AtomicProgram TwoLapQueue

variable {F S W β : Type} {geometry : Geometry} {resets : Prop} {single : Option Nat}

section Store

variable {post : β → Ring F S W → Prop} {ring : Ring F S W}

theorem exec_storeWritten_one {capacity : Nat} {channel : Channel (SourceSample F)}
    (sound : channel.Sound capacity) :
    (channel.exec capacity
      (.storeWritten ((channel.queue.written + 1) % (capacity * 2)))).2.published =
        channel.published ++ [channel.queue.cells (channel.queue.written % capacity)] := by
  have positive := sound.valid.positive
  simp only [Channel.exec, distance_advance sound.valid.written_lt (by omega : 1 < capacity * 2)]
  simp [Queue.segment]

/-- Writing a slot under the write cursor and publishing it. -/
theorem safe_storeSlot {slot : SourceSample F} (pcm : ring.pcm.Sound geometry.capacity)
    (mutes : ring.mutes.Sound mailboxQueue) (idle : ¬FinishPending ring.finish)
    (room : distance geometry.capacity ring.pcm.queue.written ring.pcm.queue.read <
      geometry.capacity)
    (traced : ∀ serial, ring.resetSerial ≤ serial → (¬resets → serial = ring.resetSerial) →
      ∃ stamp, ({ ring.producerView with
        published := ring.producerView.published ++ [slot]
        slots := ring.producerView.slots ++ [SlotNote.mk serial ring.ledger.stampBorn
          ring.producerView.records.length]
        stamp := stamp }).Traced resets single)
    {next : Bool → RingProgram F S W β}
    (safe : ∀ now : Ring F S W, now.pcm.Sound geometry.capacity →
      now.mutes.Sound mailboxQueue → now.finish = ring.finish →
      ring.resetSerial ≤ now.resetSerial → (¬resets → now.resetSerial = ring.resetSerial) →
      now.producerView = { ring.producerView with
        published := ring.producerView.published ++ [slot]
        slots := ring.producerView.slots ++ [⟨now.resetSerial, ring.ledger.stampBorn,
          ring.producerView.records.length⟩] } →
      (next true).Safe (exec geometry) (ConsumerMoves geometry resets)
        (ProducerGuar geometry resets single) post now) :
    (storeSlot geometry ring.pcm.queue.written slot >>= next).Safe (exec geometry)
      (ConsumerMoves geometry resets) (ProducerGuar geometry resets single) post ring := by
  unfold storeSlot
  simp only [bind_assoc]
  refine safe_access.mpr fun first firstMoves => ?_
  obtain ⟨firstSound, firstReads⟩ := firstMoves.pcm pcm
  have firstIdle : ¬FinishPending first.finish := firstMoves.idle idle ▸ idle
  have firstRoom := firstReads.distance_le
  rw [← firstReads.written_eq]
  have cellPermitted : first.pcm.WriterPermits geometry.capacity
      (.storeCell (first.pcm.queue.written % geometry.capacity) slot) :=
    ⟨0, by rw [Nat.add_zero], by rw [firstReads.written_eq] at firstRoom ⊢; omega⟩
  refine ⟨producerGuar_quiet ⟨cellPermitted, .inr firstIdle⟩ rfl rfl, ?_⟩
  refine safe_access.mpr fun second secondMoves => ?_
  obtain ⟨secondSound, secondReads⟩ := secondMoves.pcm
    (Channel.sound_writer firstSound cellPermitted)
  have secondIdle : ¬FinishPending second.finish :=
    secondMoves.idle firstIdle ▸ firstIdle
  have secondRoom := secondReads.distance_le
  have writtenEq : second.pcm.queue.written = first.pcm.queue.written := secondReads.written_eq
  have cellEq : second.pcm.queue.cells (second.pcm.queue.written % geometry.capacity) = slot := by
    rw [secondReads.cells_eq, writtenEq]
    exact Function.update_self _ _ _
  have positive := secondSound.valid.positive
  have bounded : distance geometry.capacity second.pcm.queue.written second.pcm.queue.read <
      geometry.capacity := by
    change distance _ second.pcm.queue.written second.pcm.queue.read ≤
      distance _ first.pcm.queue.written first.pcm.queue.read at secondRoom
    rw [firstReads.written_eq] at firstRoom secondRoom
    omega
  have permitted : second.pcm.WriterPermits geometry.capacity
      (.storeWritten ((second.pcm.queue.written + 1) % (geometry.capacity * 2))) :=
    ⟨1, rfl, bounded⟩
  have secondView : second.producerView = ring.producerView :=
    secondMoves.producerView_eq.trans firstMoves.producerView_eq
  have serialLe : ring.resetSerial ≤ second.resetSerial :=
    Nat.le_trans firstMoves.serial_le secondMoves.serial_le
  have serialEq (still : ¬resets) : second.resetSerial = ring.resetSerial :=
    (secondMoves.serial_eq still firstIdle).trans (firstMoves.serial_eq still idle)
  have viewEq : (effect geometry (.pcm (.storeWritten
      ((second.pcm.queue.written + 1) % (geometry.capacity * 2)))) second).producerView =
      { ring.producerView with
        published := ring.producerView.published ++ [slot]
        slots := ring.producerView.slots ++ [⟨second.resetSerial, ring.ledger.stampBorn,
          ring.producerView.records.length⟩] } := by
    rw [← secondView]
    have bornEq : ring.ledger.stampBorn = second.ledger.stampBorn :=
      congrArg ProducerView.stampBorn secondView.symm
    have publishedEq := exec_storeWritten_one secondSound
    rw [cellEq] at publishedEq
    simp only [Ring.producerView, effect, Ledger.note, publishedEq, bornEq,
      distance_advance secondSound.valid.written_lt (by omega : 1 < geometry.capacity * 2),
      List.replicate_one]
  rw [← writtenEq]
  obtain ⟨stamp, after⟩ := traced second.resetSerial serialLe serialEq
  refine ⟨⟨⟨permitted, .inr secondIdle⟩, fun _ => ?_, fun still _ => ?_⟩, ?_⟩
  · have publishedEq := congrArg ProducerView.published viewEq
    have slotsEq := congrArg ProducerView.slots viewEq
    dsimp only [Ring.producerView] at publishedEq slotsEq
    rw [publishedEq, slotsEq]
    exact after.singleLine
  · rw [viewEq]
    exact after.born_eq still
  · refine safe _ (Channel.sound_writer secondSound permitted)
      (secondMoves.mutes (firstMoves.mutes mutes).1).1 ?_ serialLe serialEq viewEq
    exact (secondMoves.idle firstIdle).trans (firstMoves.idle idle)

/-- A slot with the producer's stamp, published behind an open gate. -/
private theorem traced_accept {slot : SourceSample F} (stampEq : slot.stamp = ring.producerStamp)
    (holds : ProducerHolds geometry resets single ring) (open' : Gated resets ring)
    {serial : Nat} (reached : ring.resetSerial ≤ serial) (same : ¬resets → serial = ring.resetSerial) :
    ({ ring.producerView with
      published := ring.producerView.published ++ [slot]
      slots := ring.producerView.slots ++ [SlotNote.mk serial ring.ledger.stampBorn
        ring.producerView.records.length]
      stamp := ring.producerView.stamp.map (Stamp.advance 1) }).Traced resets single :=
  holds.traced.accept stampEq rfl
    (fun still passed => (same still).trans (open'.current still passed).symm)
    (Nat.le_trans holds.epoch_le reached)

private theorem accepts_one {slot : SourceSample F} (stampEq : slot.stamp = ring.producerStamp)
    (holds : ProducerHolds geometry resets single ring) (open' : Gated resets ring)
    {now : Ring F S W} (pcm : now.pcm.Sound geometry.capacity)
    (mutes : now.mutes.Sound mailboxQueue) (finishEq : now.finish = ring.finish)
    (reached : ring.resetSerial ≤ now.resetSerial)
    (same : ¬resets → now.resetSerial = ring.resetSerial)
    (viewEq : now.producerView = { ring.producerView with
      published := ring.producerView.published ++ [slot]
      slots := ring.producerView.slots ++ [⟨now.resetSerial, ring.ledger.stampBorn,
        ring.producerView.records.length⟩]
      stamp := ring.producerView.stamp.map (Stamp.advance 1) }) :
    ProducerHolds geometry resets single now ∧ Accepts resets ring [slot] now := by
  have epochEq : now.producerEpoch = ring.producerEpoch := congrArg ProducerView.epoch viewEq
  refine ⟨⟨pcm, mutes, ?_, viewEq ▸ traced_accept stampEq holds open' reached same⟩, ?_⟩
  · rw [epochEq]
    exact Nat.le_trans holds.epoch_le reached
  · refine ⟨by rw [viewEq], by rw [viewEq], ⟨[⟨now.resetSerial, ring.ledger.stampBorn,
      ring.producerView.records.length⟩], by rw [viewEq], by simp⟩, by rw [viewEq]; exact id,
      fun start => ⟨finishEq ▸ start.idle, fun still passed => ?_⟩, fun _ _ _ => ⟨?_, ?_⟩⟩
    · rw [epochEq, same still]
      exact start.current still ((congrArg ProducerView.gatesCurrent viewEq).symm.trans passed)
    · rw [viewEq]
      rfl
    · intro index slot' slotAt
      obtain ⟨rfl, rfl⟩ : index = 0 ∧ slot' = slot := by
        cases index with
        | zero => exact ⟨rfl, (Option.some.inj slotAt).symm⟩
        | succ index => cases slotAt
      rw [stampEq]
      cases stampEq' : ring.producerView.stamp with
      | none => exact stampEq'
      | some stamp => exact stampEq'

theorem safe_producerPublish {sample : SourceSample F} (unstamped : sample.stamp = none)
    (holds : ProducerHolds geometry resets single ring)
    {next : Bool → RingProgram F S W β}
    (rejected : ∀ now, ProducerHolds geometry resets single now → Accepts resets ring [] now →
      (next false).Safe (exec geometry) (ConsumerMoves geometry resets)
        (ProducerGuar geometry resets single) post now)
    (accepted : ∀ slot now, ProducerHolds geometry resets single now →
      Accepts resets ring [slot] now → slot.pcm = sample.pcm → slot.missing = sample.missing →
      (next true).Safe (exec geometry) (ConsumerMoves geometry resets)
        (ProducerGuar geometry resets single) post now) :
    (producerPublish geometry sample >>= next).Safe (exec geometry)
      (ConsumerMoves geometry resets) (ProducerGuar geometry resets single) post ring := by
  unfold producerPublish
  simp only [bind_assoc]
  refine safe_syncProducerEpoch holds fun first firstHolds firstAccepts => ?_
  refine safe_publishGate firstHolds fun pending second secondHolds secondAccepts opened => ?_
  have secondIdle := firstAccepts.trans secondAccepts
  cases pending with
  | true => exact rejected second secondHolds secondIdle
  | false =>
      have secondGated := opened rfl
      rw [if_neg (by simp)]
      simp only [bind_assoc]
      refine safe_answer (.pcm .loadWritten) trivial fun third thirdMoves =>
        ⟨producerGuar_quiet ⟨trivial, .inl trivial⟩ rfl rfl, ?_⟩
      refine safe_answer (.pcm .loadRead) trivial fun fourth fourthMoves =>
        ⟨producerGuar_quiet ⟨trivial, .inl trivial⟩ rfl rfl, ?_⟩
      have thirdHolds := secondHolds.stable thirdMoves
      have fourthHolds := thirdHolds.stable fourthMoves
      have fourthIdle := (secondIdle.stable thirdMoves).stable fourthMoves
      have fourthGated := (secondGated.stable thirdMoves).stable fourthMoves
      have writtenEq : fourth.pcm.queue.written = third.pcm.queue.written :=
        (fourthMoves.pcm thirdHolds.pcm).2.written_eq
      change Program.Safe (exec geometry) (ConsumerMoves geometry resets)
        (ProducerGuar geometry resets single) post
        ((if geometry.capacity ≤ distance geometry.capacity third.pcm.queue.written
          fourth.pcm.queue.read then _ else _) >>= next) fourth
      rw [← writtenEq]
      split
      · rw [bind_assoc]
        refine safe_countDiscarded 1 fourthHolds fun _ last lastHolds lastAccepts => ?_
        exact rejected last lastHolds (fourthIdle.trans lastAccepts)
      · rename_i room
        rw [bind_assoc]
        refine safe_answer .loadStamp trivial fun fifth fifthMoves =>
          ⟨producerGuar_quiet trivial rfl rfl, ?_⟩
        have fifthHolds := fourthHolds.stable fifthMoves
        have fifthIdle := fourthIdle.stable fifthMoves
        have fifthGated := fourthGated.stable fifthMoves
        obtain ⟨fifthSound, fifthReads⟩ := fifthMoves.pcm fourthHolds.pcm
        have fifthRoom : distance geometry.capacity fifth.pcm.queue.written
            fifth.pcm.queue.read < geometry.capacity :=
          Nat.lt_of_le_of_lt fifthReads.distance_le (Nat.not_le.mp room)
        have stampLoaded : answer geometry .loadStamp fifth = fifth.producerStamp := rfl
        have cursorLoaded : answer geometry (.pcm .loadWritten) third =
            fifth.pcm.queue.written := (fifthReads.written_eq.trans writtenEq).symm
        rw [stampLoaded, cursorLoaded]
        cases stampEq : fifth.producerStamp with
        | none =>
            have carries : sample.stamp = fifth.producerStamp := unstamped.trans stampEq.symm
            have unmoved : fifth.producerView.stamp.map (Stamp.advance 1) =
                fifth.producerView.stamp := by
              rw [show fifth.producerView.stamp = none from stampEq]
              rfl
            refine safe_storeSlot fifthHolds.pcm fifthHolds.mutes fifthGated.idle fifthRoom ?_ ?_
            · intro serial reached same
              exact ⟨_, traced_accept carries fifthHolds fifthGated reached same⟩
            · intro now pcm mutes finishEq reached same viewEq
              obtain ⟨nowHolds, nowAccepts⟩ := accepts_one carries fifthHolds fifthGated pcm
                mutes finishEq reached same (unmoved.symm ▸ viewEq)
              exact accepted sample now nowHolds (fifthIdle.trans nowAccepts) rfl rfl
        | some current =>
            dsimp only
            split
            · exact rejected fifth fifthHolds fifthIdle
            · rw [bind_assoc]
              refine safe_access.mpr fun sixth sixthMoves =>
                ⟨producerGuar_quiet trivial rfl rfl, ?_⟩
              have sixthHolds := fifthHolds.stable sixthMoves
              have sixthIdle := fifthIdle.stable sixthMoves
              have sixthGated := fifthGated.stable sixthMoves
              obtain ⟨sixthSound, sixthReads⟩ := sixthMoves.pcm fifthHolds.pcm
              have carries : ({ sample with stamp := some current } : SourceSample F).stamp =
                  sixth.producerStamp := (sixthMoves.stamp_eq.trans stampEq).symm
              rw [← sixthReads.written_eq]
              refine safe_storeSlot ?_ ?_ ?_ ?_ ?_ ?_
              · exact sixthHolds.pcm
              · exact sixthHolds.mutes
              · exact sixthGated.idle
              · exact Nat.lt_of_le_of_lt sixthReads.distance_le fifthRoom
              · intro serial reached same
                exact ⟨_, traced_accept carries sixthHolds sixthGated reached same⟩
              · intro now pcm mutes finishEq reached same viewEq
                have advanced : sixth.producerView.stamp.map (Stamp.advance 1) =
                    some { current with source := current.source + 1 } := by
                  rw [show sixth.producerView.stamp = some current from carries.symm]
                  rfl
                obtain ⟨nowHolds, nowAccepts⟩ := accepts_one carries sixthHolds sixthGated
                  pcm mutes finishEq reached same (by rw [advanced]; exact viewEq)
                exact accepted _ now nowHolds (sixthIdle.trans nowAccepts) rfl rfl

end Store

/-- What a slot carries besides its stamp. -/
def SourceSample.content (slot : SourceSample F) : F × Bool :=
  (slot.pcm, slot.missing)

/-- Publish a block until one slot is rejected. -/
def publishFrom (geometry : Geometry) : List (SourceSample F) → (accepted : Nat) →
    RingProgram F S W Nat
  | [], accepted => return accepted
  | sample :: rest, accepted => do
      let published ← producerPublish geometry sample
      if published then publishFrom geometry rest (accepted + 1)
      else
        let _ ← saturatingAddCounter .discarded rest.length
        return accepted

theorem producerGapFrom_eq [Zero F] (remaining accepted : Nat) :
    (producerGapFrom geometry remaining accepted : RingProgram F S W Nat) =
      publishFrom geometry (List.replicate remaining gapSlot) accepted := by
  induction remaining generalizing accepted with
  | zero => rfl
  | succ remaining ih =>
      simp only [producerGapFrom, publishFrom, List.replicate_succ, List.length_replicate, ih]

theorem producerPushFrom_eq [Binary32 F] (input : List F) (accepted : Nat) :
    (producerPushFrom geometry input accepted : RingProgram F S W Nat) =
      publishFrom geometry (input.map fun sample => ⟨canonicalize sample, false, none⟩)
        accepted := by
  induction input generalizing accepted with
  | nil => rfl
  | cons sample rest ih =>
      simp only [producerPushFrom, publishFrom, List.map_cons, List.length_map, ih,
        producerPushSample]

section Blocks

variable {post : β → Ring F S W → Prop} {ring : Ring F S W}

theorem safe_publishFrom (samples : List (SourceSample F)) (accepted : Nat)
    (unstamped : ∀ sample ∈ samples, sample.stamp = none)
    (holds : ProducerHolds geometry resets single ring) {next : Nat → RingProgram F S W β}
    (safe : ∀ slots now, ProducerHolds geometry resets single now →
      Accepts resets ring slots now →
      slots.map SourceSample.content <+: samples.map SourceSample.content →
      (next (accepted + slots.length)).Safe (exec geometry) (ConsumerMoves geometry resets)
        (ProducerGuar geometry resets single) post now) :
    (publishFrom geometry samples accepted >>= next).Safe (exec geometry)
      (ConsumerMoves geometry resets) (ProducerGuar geometry resets single) post ring := by
  induction samples generalizing accepted ring with
  | nil => exact safe [] ring holds (.refl ring) (List.prefix_refl _)
  | cons sample rest ih =>
      unfold publishFrom
      rw [bind_assoc]
      refine safe_producerPublish (unstamped sample (by simp)) holds ?_ ?_
      · intro now nowHolds nowAccepts
        rw [if_neg (by simp), bind_assoc]
        refine safe_countDiscarded _ nowHolds fun _ last lastHolds lastAccepts => ?_
        exact safe [] last lastHolds (nowAccepts.trans lastAccepts) (List.nil_prefix)
      · intro slot now nowHolds nowAccepts pcmEq missingEq
        rw [if_pos rfl]
        refine ih (accepted + 1) (fun other member => unstamped other (by simp [member]))
          nowHolds ?_
        intro slots last lastHolds lastAccepts carried
        have total : accepted + 1 + slots.length = accepted + (slot :: slots).length := by
          rw [List.length_cons]
          omega
        rw [total]
        refine safe (slot :: slots) last lastHolds (nowAccepts.trans lastAccepts) ?_
        rw [List.map_cons, List.map_cons,
          show slot.content = sample.content from Prod.ext pcmEq missingEq]
        exact List.cons_prefix_cons.mpr ⟨rfl, carried⟩

theorem safe_producerGap [Zero F] (samples : Nat)
    (holds : ProducerHolds geometry resets single ring) {next : Nat → RingProgram F S W β}
    (safe : ∀ slots now, ProducerHolds geometry resets single now →
      Accepts resets ring slots now →
      slots.map SourceSample.content <+: List.replicate samples (0, true) →
      (next slots.length).Safe (exec geometry) (ConsumerMoves geometry resets)
        (ProducerGuar geometry resets single) post now) :
    (producerGap geometry samples >>= next).Safe (exec geometry)
      (ConsumerMoves geometry resets) (ProducerGuar geometry resets single) post ring := by
  unfold producerGap
  rw [bind_assoc]
  refine safe_gate holds fun pending now nowHolds nowAccepts => ?_
  split
  · exact safe [] now nowHolds nowAccepts (List.nil_prefix)
  · rw [producerGapFrom_eq]
    refine safe_publishFrom _ 0 (fun sample member => ?_) nowHolds
      fun slots last lastHolds lastAccepts carried => ?_
    · rw [List.eq_of_mem_replicate member]
      rfl
    · rw [List.map_replicate] at carried
      rw [Nat.zero_add]
      exact safe slots last lastHolds (nowAccepts.trans lastAccepts) carried

variable [Binary32 F]

theorem safe_producerPushSample (sample : F)
    (holds : ProducerHolds geometry resets single ring) {next : Bool → RingProgram F S W β}
    (safe : ∀ slots now, ProducerHolds geometry resets single now →
      Accepts resets ring slots now →
      slots.map SourceSample.content <+: [(canonicalize sample, false)] →
      (next (decide (slots ≠ []))).Safe (exec geometry) (ConsumerMoves geometry resets)
        (ProducerGuar geometry resets single) post now) :
    (producerPushSample geometry sample >>= next).Safe (exec geometry)
      (ConsumerMoves geometry resets) (ProducerGuar geometry resets single) post ring := by
  unfold producerPushSample
  refine safe_producerPublish rfl holds ?_ ?_
  · intro now nowHolds nowAccepts
    exact safe [] now nowHolds nowAccepts List.nil_prefix
  · intro slot now nowHolds nowAccepts pcmEq missingEq
    have contentEq : slot.content = (canonicalize sample, false) := Prod.ext pcmEq missingEq
    refine safe [slot] now nowHolds nowAccepts ?_
    exact contentEq ▸ List.prefix_refl _

theorem safe_producerPush (input : List F)
    (holds : ProducerHolds geometry resets single ring) {next : Nat → RingProgram F S W β}
    (safe : ∀ slots now, ProducerHolds geometry resets single now →
      Accepts resets ring slots now →
      slots.map SourceSample.content <+: input.map (fun sample => (canonicalize sample, false)) →
      (next slots.length).Safe (exec geometry) (ConsumerMoves geometry resets)
        (ProducerGuar geometry resets single) post now) :
    (producerPush geometry input >>= next).Safe (exec geometry)
      (ConsumerMoves geometry resets) (ProducerGuar geometry resets single) post ring := by
  unfold producerPush
  rw [bind_assoc]
  refine safe_gate holds fun pending now nowHolds nowAccepts => ?_
  split
  · exact safe [] now nowHolds nowAccepts List.nil_prefix
  · rw [producerPushFrom_eq]
    refine safe_publishFrom _ 0 (fun sample member => ?_) nowHolds
      fun slots last lastHolds lastAccepts carried => ?_
    · obtain ⟨original, -, rfl⟩ := List.mem_map.mp member
      rfl
    · rw [List.map_map] at carried
      rw [Nat.zero_add]
      exact safe slots last lastHolds (nowAccepts.trans lastAccepts) carried

end Blocks

end PcmRing
