import PcmRing.ProducerView

/-!
# Rules for producer programs

Rely/guarantee rules for the producer's calls, against everything a consumer
may do.  A call is described by the slots it accepted: they are appended to the
published ones, and while no boundary is pending a block carries its own stamp.
-/

namespace PcmRing

open AtomicProgram TwoLapQueue

variable {F S W β : Type}

/-- What the producer promises about each access. -/
structure ProducerGuar (geometry : Geometry) (resets : Prop) (single : Option Nat)
    (op : Access F S W) (ring : Ring F S W) : Prop where
  permitted : ProducerPermits geometry op ring
  line : SingleLine single ring.pcm.published ring.ledger.slots →
    SingleLine single (effect geometry op ring).pcm.published
      (effect geometry op ring).ledger.slots
  fresh : ¬resets → ring.producerView.FreshStamps →
    (effect geometry op ring).producerView.FreshStamps

/-- What holds between two accesses of the producer. -/
structure ProducerHolds (geometry : Geometry) (resets : Prop) (single : Option Nat)
    (ring : Ring F S W) : Prop where
  pcm : ring.pcm.Sound geometry.capacity
  mutes : ring.mutes.Sound mailboxQueue
  epoch_le : ring.producerEpoch ≤ ring.resetSerial
  traced : ring.producerView.Traced resets single

/-- A gate was passed: no boundary is pending, and unless a gate was passed
with a stale epoch this one is current. -/
structure Gated (resets : Prop) (ring : Ring F S W) : Prop where
  idle : ¬FinishPending ring.finish
  current : ¬resets → ring.ledger.gatesCurrent = true → ring.producerEpoch = ring.resetSerial

/-- Between `entry` and `now` the producer accepted exactly `slots`. -/
structure Accepts (resets : Prop) (entry : Ring F S W) (slots : List (SourceSample F))
    (now : Ring F S W) : Prop where
  published_eq : now.producerView.published = entry.producerView.published ++ slots
  records_eq : now.producerView.records = entry.producerView.records
  notes : ∃ fresh, now.producerView.slots = entry.producerView.slots ++ fresh ∧
    ∀ note ∈ fresh, note.lead = entry.producerView.records.length
  gates : now.producerView.gatesCurrent = true → entry.producerView.gatesCurrent = true
  gated : Gated resets entry → Gated resets now
  stamped : ¬resets → Gated resets entry → now.producerView.gatesCurrent = true →
    now.producerView.stamp = entry.producerView.stamp.map (Stamp.advance slots.length) ∧
    ∀ (index : Nat) slot, slots[index]? = some slot →
      slot.stamp = entry.producerView.stamp.map (Stamp.advance index)

variable {geometry : Geometry} {resets : Prop} {single : Option Nat}

/-- A gate that was passed with a stale epoch is never forgotten. -/
theorem gatesCurrent_of_effect {op : Access F S W} {ring : Ring F S W}
    (current : (effect geometry op ring).ledger.gatesCurrent = true) :
    ring.ledger.gatesCurrent = true := by
  cases op with
  | loadFinish site =>
      cases site with
      | publishGate => exact (Bool.and_eq_true_iff.mp current).1
      | _ => exact current
  | pcm access => cases access <;> exact current
  | mutes access => cases access <;> exact current
  | _ => exact current

theorem producerGuar_quiet {op : Access F S W} {ring : Ring F S W}
    (permitted : ProducerPermits geometry op ring)
    (publishedEq : (effect geometry op ring).pcm.published = ring.pcm.published)
    (slotsEq : (effect geometry op ring).ledger.slots = ring.ledger.slots) :
    ProducerGuar geometry resets single op ring where
  permitted := permitted
  line holds := by
    rw [publishedEq, slotsEq]
    exact holds
  fresh _ holds current := by
    dsimp only [Ring.producerView]
    rw [publishedEq, slotsEq]
    exact holds (gatesCurrent_of_effect current)

theorem ProducerHolds.stable {before after : Ring F S W}
    (holds : ProducerHolds geometry resets single before)
    (moves : ConsumerMoves geometry resets before after) :
    ProducerHolds geometry resets single after where
  pcm := (moves.pcm holds.pcm).1
  mutes := (moves.mutes holds.mutes).1
  epoch_le := by
    rw [moves.epoch_eq]
    exact Nat.le_trans holds.epoch_le moves.serial_le
  traced := moves.producerView_eq ▸ holds.traced

theorem Gated.stable {before after : Ring F S W} (gated : Gated resets before)
    (moves : ConsumerMoves geometry resets before after) : Gated resets after where
  idle := by
    rw [moves.idle gated.idle]
    exact gated.idle
  current still passed := by
    rw [moves.epoch_eq, moves.serial_eq still gated.idle]
    exact gated.current still (moves.gatesCurrent_eq ▸ passed)

theorem Accepts.refl (ring : Ring F S W) : Accepts resets ring [] ring where
  published_eq := (List.append_nil _).symm
  records_eq := rfl
  notes := ⟨[], (List.append_nil _).symm, by simp⟩
  gates := id
  gated := id
  stamped _ _ _ := by
    refine ⟨?_, by simp⟩
    cases ring.producerView.stamp <;> rfl

theorem Accepts.stable {entry before after : Ring F S W} {slots : List (SourceSample F)}
    (accepts : Accepts resets entry slots before)
    (moves : ConsumerMoves geometry resets before after) :
    Accepts resets entry slots after where
  published_eq := moves.producerView_eq ▸ accepts.published_eq
  records_eq := moves.producerView_eq ▸ accepts.records_eq
  notes := moves.producerView_eq ▸ accepts.notes
  gates := moves.producerView_eq ▸ accepts.gates
  gated start := (accepts.gated start).stable moves
  stamped still start passed := by
    rw [moves.producerView_eq] at passed ⊢
    exact accepts.stamped still start passed

theorem Accepts.trans {first middle last : Ring F S W} {early late : List (SourceSample F)}
    (before : Accepts resets first early middle) (after : Accepts resets middle late last) :
    Accepts resets first (early ++ late) last where
  published_eq := by
    rw [after.published_eq, before.published_eq, List.append_assoc]
  records_eq := after.records_eq.trans before.records_eq
  notes := by
    obtain ⟨fresh, freshEq, lead⟩ := before.notes
    obtain ⟨fresher, fresherEq, lead'⟩ := after.notes
    refine ⟨fresh ++ fresher, by rw [fresherEq, freshEq, List.append_assoc], ?_⟩
    intro note member
    rcases List.mem_append.mp member with earlier | later
    · exact lead note earlier
    · exact (lead' note later).trans (congrArg List.length before.records_eq)
  gates passed := before.gates (after.gates passed)
  gated start := after.gated (before.gated start)
  stamped still start passed := by
    obtain ⟨stampEq, marks⟩ := before.stamped still start (after.gates passed)
    obtain ⟨stampEq', marks'⟩ := after.stamped still (before.gated start) passed
    have shift (count : Nat) : (first.producerView.stamp.map
        (Stamp.advance early.length)).map (Stamp.advance count) =
          first.producerView.stamp.map (Stamp.advance (early.length + count)) := by
      rw [Option.map_map]
      congr 1
      funext stamp
      simp [Stamp.advance, Nat.add_assoc]
    refine ⟨?_, fun index slot slotAt => ?_⟩
    · rw [stampEq', stampEq, shift, List.length_append]
    · by_cases earlier : index < early.length
      · rw [List.getElem?_append_left earlier] at slotAt
        exact marks index slot slotAt
      · rw [List.getElem?_append_right (Nat.not_lt.mp earlier)] at slotAt
        rw [marks' _ slot slotAt, stampEq, shift, Nat.add_sub_cancel' (Nat.not_lt.mp earlier)]

section Rules

variable {post : β → Ring F S W → Prop} {ring : Ring F S W}

theorem safe_countDiscarded (value : Nat) (holds : ProducerHolds geometry resets single ring)
    {next : Nat → RingProgram F S W β}
    (safe : ∀ total now, ProducerHolds geometry resets single now → Accepts resets ring [] now →
      (next total).Safe (exec geometry) (ConsumerMoves geometry resets)
        (ProducerGuar geometry resets single) post now) :
    (saturatingAddCounter .discarded value >>= next).Safe (exec geometry)
      (ConsumerMoves geometry resets) (ProducerGuar geometry resets single) post ring := by
  unfold saturatingAddCounter
  simp only [bind_assoc]
  refine safe_answer (.loadCounter .discarded) trivial fun first firstMoves =>
    ⟨producerGuar_quiet trivial rfl rfl, ?_⟩
  refine safe_access.mpr fun second secondMoves =>
    ⟨producerGuar_quiet rfl rfl rfl, ?_⟩
  have kept := (holds.stable firstMoves).stable secondMoves
  have idle := ((Accepts.refl ring).stable firstMoves).stable secondMoves
  exact safe _ _ { kept with } { idle with gated := fun start => { idle.gated start with } }

theorem safe_syncProducerEpoch (holds : ProducerHolds geometry resets single ring)
    {next : Unit → RingProgram F S W β}
    (safe : ∀ now, ProducerHolds geometry resets single now → Accepts resets ring [] now →
      (next ()).Safe (exec geometry) (ConsumerMoves geometry resets)
        (ProducerGuar geometry resets single) post now) :
    (syncProducerEpoch >>= next).Safe (exec geometry) (ConsumerMoves geometry resets)
      (ProducerGuar geometry resets single) post ring := by
  unfold syncProducerEpoch
  simp only [bind_assoc]
  refine safe_answer .loadResetSerial trivial fun first firstMoves =>
    ⟨producerGuar_quiet trivial rfl rfl, ?_⟩
  refine safe_answer .loadEpoch trivial fun second secondMoves =>
    ⟨producerGuar_quiet trivial rfl rfl, ?_⟩
  have firstHolds := holds.stable firstMoves
  have secondHolds := firstHolds.stable secondMoves
  have accepts := ((Accepts.refl ring).stable firstMoves).stable secondMoves
  change Program.Safe (exec geometry) (ConsumerMoves geometry resets)
    (ProducerGuar geometry resets single) post
    ((if second.producerEpoch ≠ first.resetSerial then _ else _) >>= next) second
  split
  · rename_i stale
    rw [bind_assoc]
    refine safe_access.mpr fun third thirdMoves =>
      ⟨producerGuar_quiet trivial rfl rfl, ?_⟩
    refine safe_access.mpr fun fourth fourthMoves =>
      ⟨producerGuar_quiet trivial rfl rfl, ?_⟩
    have thirdHolds := secondHolds.stable thirdMoves
    have behind : third.producerEpoch < first.resetSerial := by
      have reached := firstHolds.epoch_le
      rw [thirdMoves.epoch_eq]
      rw [← secondMoves.epoch_eq] at reached
      exact Nat.lt_of_le_of_ne reached stale
    have viewEq : (effect geometry (.storeEpoch first.resetSerial) fourth).producerView =
        { third.producerView with
          stamp := none, epoch := first.resetSerial, stampBorn := third.resetSerial } := by
      change { fourth.producerView with epoch := first.resetSerial } = _
      rw [fourthMoves.producerView_eq]
      rfl
    -- A gate that found the epoch current keeps it current.
    have current (still : ¬resets) (start : Gated resets ring)
        (passed : fourth.ledger.gatesCurrent = true) : False := by
      have startEq := start.current still (accepts.gates (thirdMoves.producerView_eq ▸
        (congrArg ProducerView.gatesCurrent fourthMoves.producerView_eq).symm.trans passed))
      rw [thirdMoves.epoch_eq, secondMoves.epoch_eq, firstMoves.epoch_eq, startEq,
        ← firstMoves.serial_eq still start.idle] at behind
      exact Nat.lt_irrefl _ behind
    refine safe (effect geometry (.storeEpoch first.resetSerial) fourth) ?_ ?_
    · refine ⟨(fourthMoves.pcm thirdHolds.pcm).1, (fourthMoves.mutes thirdHolds.mutes).1, ?_, ?_⟩
      · exact Nat.le_trans secondMoves.serial_le
          (Nat.le_trans thirdMoves.serial_le fourthMoves.serial_le)
      · rw [viewEq]
        exact thirdHolds.traced.forget behind
    · have thirdAccepts := accepts.stable thirdMoves
      refine ⟨viewEq ▸ thirdAccepts.published_eq, viewEq ▸ thirdAccepts.records_eq,
        viewEq ▸ thirdAccepts.notes, viewEq ▸ thirdAccepts.gates, fun start => ?_, ?_⟩
      · have thirdGated := thirdAccepts.gated start
        refine ⟨?_, fun still passed => (current still start passed).elim⟩
        change ¬FinishPending fourth.finish
        rw [fourthMoves.idle thirdGated.idle]
        exact thirdGated.idle
      · exact fun still start passed => (current still start passed).elim
  · exact safe second secondHolds accepts

/-- A gate either stops the call or finds no pending boundary. -/
theorem safe_publishGate (holds : ProducerHolds geometry resets single ring)
    {next : Bool → RingProgram F S W β}
    (safe : ∀ pending now, ProducerHolds geometry resets single now →
      Accepts resets ring [] now → (pending = false → Gated resets now) →
      (next pending).Safe (exec geometry) (ConsumerMoves geometry resets)
        (ProducerGuar geometry resets single) post now) :
    (finishPending .publishGate >>= next).Safe (exec geometry) (ConsumerMoves geometry resets)
      (ProducerGuar geometry resets single) post ring := by
  unfold finishPending
  simp only [bind_assoc]
  refine safe_access.mpr fun first firstMoves =>
    ⟨producerGuar_quiet trivial rfl rfl, ?_⟩
  have firstHolds := holds.stable firstMoves
  have accepts := (Accepts.refl ring).stable firstMoves
  have kept : (effect geometry (.loadFinish .publishGate) first).ledger.gatesCurrent = true →
      first.ledger.gatesCurrent = true := fun passed => (Bool.and_eq_true_iff.mp passed).1
  refine safe _ _ { firstHolds with traced := firstHolds.traced.gate kept } ?_ ?_
  · exact { accepts with
      gates := fun passed => accepts.gates (kept passed)
      gated := fun start =>
        ⟨(accepts.gated start).idle, fun still passed =>
          (accepts.gated start).current still (kept passed)⟩
      stamped := fun still start passed => accepts.stamped still start (kept passed) }
  · intro open'
    have idle : ¬FinishPending first.finish := of_decide_eq_false open'
    refine ⟨idle, fun _ passed => ?_⟩
    exact (of_decide_eq_true (Bool.and_eq_true_iff.mp passed).2).resolve_left idle

theorem safe_gate (holds : ProducerHolds geometry resets single ring)
    {next : Bool → RingProgram F S W β}
    (safe : ∀ pending now, ProducerHolds geometry resets single now →
      Accepts resets ring [] now →
      (next pending).Safe (exec geometry) (ConsumerMoves geometry resets)
        (ProducerGuar geometry resets single) post now) :
    (finishPending .gate >>= next).Safe (exec geometry) (ConsumerMoves geometry resets)
      (ProducerGuar geometry resets single) post ring := by
  unfold finishPending
  simp only [bind_assoc]
  refine safe_answer (.loadFinish .gate) (by simp [Access.IsLoad])
    fun first firstMoves => ⟨producerGuar_quiet trivial rfl rfl, ?_⟩
  exact safe _ first (holds.stable firstMoves) ((Accepts.refl ring).stable firstMoves)

end Rules

end PcmRing
