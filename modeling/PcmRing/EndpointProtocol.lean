import PcmRing.RingSystem

/-!
# What the two endpoints may do to each other

Each endpoint permits itself some accesses, and so shows the other only some
moves of the memory.  The producer appends slots and records while no boundary
is pending and requests boundaries; the consumer consumes them, completes
pending boundaries and advances the reset serial.
-/

namespace PcmRing

open AtomicProgram TwoLapQueue

variable {F S W : Type} (geometry : Geometry)

/-- The accesses that only answer. -/
def Access.IsLoad : Access F S W → Prop
  | .pcm access => access.IsLoad
  | .mutes access => access.IsLoad
  | .loadFinish site => site ≠ .publishGate
  | .loadResetSerial | .loadCounter _ | .loadStamp | .loadEpoch | .enter | .lookup .. => True
  | _ => False

theorem effect_load (op : Access F S W) (load : op.IsLoad) (ring : Ring F S W) :
    effect geometry op ring = ring := by
  cases op with
  | pcm access =>
      have noted : Ledger.note geometry (.pcm access) ring = ring.ledger := by
        cases access <;> first | rfl | exact load.elim
      simp only [effect, noted, Channel.exec_load _ load]
  | mutes access =>
      have noted : Ledger.note geometry (.mutes access) ring = ring.ledger := by
        cases access <;> first | rfl | exact load.elim
      simp only [effect, noted, Channel.exec_load _ load]
  | loadFinish site => cases site <;> first | rfl | exact (load rfl).elim
  | loadResetSerial | loadCounter | loadStamp | loadEpoch | enter | lookup => rfl
  | _ => exact load.elim

theorem pcm_lawful :
    (pcmPort (F := F) (S := S) (W := W)).Lawful geometry.capacity (exec geometry) Ring.pcm where
  answer_eq _ _ := rfl
  channel_eq _ _ := rfl
  load_eq _ ring load := effect_load geometry (.pcm _) load ring

theorem mute_lawful :
    (mutePort (F := F) (S := S) (W := W)).Lawful mailboxQueue (exec geometry) Ring.mutes where
  answer_eq _ _ := rfl
  channel_eq _ _ := rfl
  load_eq _ ring load := effect_load geometry (.mutes _) load ring

/-- Every slot and record has its note. -/
def Ring.Noted (ring : Ring F S W) : Prop :=
  ring.ledger.slots.length = ring.pcm.published.length ∧
    ring.ledger.records.length = ring.mutes.published.length

def ProducerPermits (op : Access F S W) (ring : Ring F S W) : Prop :=
  match op with
  | .pcm access => ring.pcm.WriterPermits geometry.capacity access ∧
      (access.IsLoad ∨ ¬FinishPending ring.finish)
  | .mutes access => ring.mutes.WriterPermits mailboxQueue access
  | .storeFinish word => ¬FinishPending ring.finish ∧ word = (ring.finish / 4 + 1) * 4
  | .storeCounter counter _ => counter = .discarded
  | .loadResetSerial | .loadFinish _ | .loadCounter _ | .loadStamp | .setStamp _
  | .advanceStamp _ | .loadEpoch | .storeEpoch _ => True
  | _ => False

/-- Accesses other than the store of a finish word. -/
def Access.KeepsFinish : Access F S W → Prop
  | .storeFinish _ => False
  | _ => True

/-- Without stream resets the serial moves only at the end of a boundary. -/
def ConsumerPermits (resets : Prop) (op : Access F S W) (ring : Ring F S W) : Prop :=
  match op with
  | .pcm access => ring.pcm.ReaderPermits geometry.capacity access
  | .mutes access => ring.mutes.ReaderPermits mailboxQueue access
  | .fetchAddResetSerial => resets ∨ FinishPending ring.finish
  | .storeFinish word => FinishPending ring.finish ∧ word / 4 = ring.finish / 4 ∧ word % 4 ≠ 0
  | .loadFinish site => site ≠ .publishGate
  | .storeCounter counter _ => counter ≠ .discarded
  | .loadCounter _ | .storeRatioCorrection _ | .enter | .leave .. | .lookup .. | .feed _
  | .release | .retire _ => True
  | _ => False

/-- What the consumer may make of the memory. -/
structure ConsumerMoves (resets : Prop) (before after : Ring F S W) : Prop where
  pcm : before.pcm.Sound geometry.capacity → after.pcm.Sound geometry.capacity ∧
    Channel.Reads geometry.capacity before.pcm after.pcm
  mutes : before.mutes.Sound mailboxQueue → after.mutes.Sound mailboxQueue ∧
    Channel.Reads mailboxQueue before.mutes after.mutes
  published_eq : after.pcm.published = before.pcm.published
  records_published_eq : after.mutes.published = before.mutes.published
  stamp_eq : after.producerStamp = before.producerStamp
  epoch_eq : after.producerEpoch = before.producerEpoch
  discarded_eq : after.counters .discarded = before.counters .discarded
  slots_eq : after.ledger.slots = before.ledger.slots
  records_eq : after.ledger.records = before.ledger.records
  stampBorn_eq : after.ledger.stampBorn = before.ledger.stampBorn
  gatesCurrent_eq : after.ledger.gatesCurrent = before.ledger.gatesCurrent
  finish : after.finish = before.finish ∨ FinishPending before.finish ∧
    ¬FinishPending after.finish ∧ after.finish / 4 = before.finish / 4
  serial_le : before.resetSerial ≤ after.resetSerial
  serial_eq : ¬resets → ¬FinishPending before.finish → after.resetSerial = before.resetSerial

/-- What the producer may make of the memory, while the published slots and
their notes keep `shape`. -/
structure ProducerMoves (shape : List (SourceSample F) → List SlotNote → Prop)
    (before after : Ring F S W) : Prop where
  pcm : before.pcm.Sound geometry.capacity → after.pcm.Sound geometry.capacity ∧
    Channel.Writes geometry.capacity before.pcm after.pcm
  mutes : before.mutes.Sound mailboxQueue → after.mutes.Sound mailboxQueue ∧
    Channel.Writes mailboxQueue before.mutes after.mutes
  noted : before.Noted → after.Noted
  published_prefix : before.pcm.published <+: after.pcm.published
  published_fixed : FinishPending before.finish → after.pcm.published = before.pcm.published
  records_published_prefix : before.mutes.published <+: after.mutes.published
  consumer_eq : after.consumer = before.consumer
  counters_eq : ∀ counter, counter ≠ .discarded → after.counters counter = before.counters counter
  serial_eq : after.resetSerial = before.resetSerial
  finish : FinishPending before.finish → after.finish = before.finish
  ledger_eq : after.ledger = { before.ledger with
    slots := after.ledger.slots
    records := after.ledger.records
    stampBorn := after.ledger.stampBorn
    gatesCurrent := after.ledger.gatesCurrent
    mutesCurrent := after.ledger.mutesCurrent }
  slots_prefix : before.ledger.slots <+: after.ledger.slots
  records_prefix : before.ledger.records <+: after.ledger.records
  current : after.ledger.mutesCurrent = true → before.ledger.mutesCurrent = true ∧
    ∀ burst ∈ after.ledger.records.drop before.ledger.records.length,
      burst = before.resetSerial
  shape : shape before.pcm.published before.ledger.slots →
    shape after.pcm.published after.ledger.slots

variable {geometry}

theorem ConsumerMoves.refl {resets : Prop} (ring : Ring F S W) :
    ConsumerMoves geometry resets ring ring where
  pcm sound := ⟨sound, .refl _⟩
  mutes sound := ⟨sound, .refl _⟩
  published_eq := rfl
  records_published_eq := rfl
  stamp_eq := rfl
  epoch_eq := rfl
  discarded_eq := rfl
  slots_eq := rfl
  records_eq := rfl
  stampBorn_eq := rfl
  gatesCurrent_eq := rfl
  finish := .inl rfl
  serial_le := Nat.le_refl _
  serial_eq _ _ := rfl

theorem ConsumerMoves.trans {resets : Prop} {first middle last : Ring F S W}
    (before : ConsumerMoves geometry resets first middle)
    (after : ConsumerMoves geometry resets middle last) :
    ConsumerMoves geometry resets first last where
  pcm sound := ⟨(after.pcm (before.pcm sound).1).1,
    (before.pcm sound).2.trans (after.pcm (before.pcm sound).1).2⟩
  mutes sound := ⟨(after.mutes (before.mutes sound).1).1,
    (before.mutes sound).2.trans (after.mutes (before.mutes sound).1).2⟩
  published_eq := after.published_eq.trans before.published_eq
  records_published_eq := after.records_published_eq.trans before.records_published_eq
  stamp_eq := after.stamp_eq.trans before.stamp_eq
  epoch_eq := after.epoch_eq.trans before.epoch_eq
  discarded_eq := after.discarded_eq.trans before.discarded_eq
  slots_eq := after.slots_eq.trans before.slots_eq
  records_eq := after.records_eq.trans before.records_eq
  stampBorn_eq := after.stampBorn_eq.trans before.stampBorn_eq
  gatesCurrent_eq := after.gatesCurrent_eq.trans before.gatesCurrent_eq
  finish := by
    rcases before.finish with same | ⟨pending, done, token⟩
    · rw [← same]
      exact after.finish
    · rcases after.finish with same | ⟨again, -, -⟩
      · rw [same]
        exact .inr ⟨pending, done, token⟩
      · exact (done again).elim
  serial_le := Nat.le_trans before.serial_le after.serial_le
  serial_eq noResets idle := by
    have same : middle.finish = first.finish := by
      rcases before.finish with same | ⟨pending, -, -⟩
      · exact same
      · exact (idle pending).elim
    rw [after.serial_eq noResets (same ▸ idle), before.serial_eq noResets idle]

theorem ConsumerMoves.idle {resets : Prop} {before after : Ring F S W}
    (moves : ConsumerMoves geometry resets before after)
    (idle : ¬FinishPending before.finish) : after.finish = before.finish := by
  rcases moves.finish with same | ⟨pending, -, -⟩
  · exact same
  · exact (idle pending).elim

section ProducerMoves

variable {shape : List (SourceSample F) → List SlotNote → Prop}

theorem ProducerMoves.refl (ring : Ring F S W) : ProducerMoves geometry shape ring ring where
  pcm sound := ⟨sound, .refl _⟩
  mutes sound := ⟨sound, .refl _⟩
  noted noted := noted
  published_prefix := List.prefix_refl _
  published_fixed _ := rfl
  records_published_prefix := List.prefix_refl _
  consumer_eq := rfl
  counters_eq _ _ := rfl
  serial_eq := rfl
  finish _ := rfl
  ledger_eq := rfl
  slots_prefix := List.prefix_refl _
  records_prefix := List.prefix_refl _
  current current := ⟨current, by simp⟩
  shape holds := holds

theorem ProducerMoves.trans {first middle last : Ring F S W}
    (before : ProducerMoves geometry shape first middle)
    (after : ProducerMoves geometry shape middle last) :
    ProducerMoves geometry shape first last where
  pcm sound := ⟨(after.pcm (before.pcm sound).1).1,
    (before.pcm sound).2.trans (after.pcm (before.pcm sound).1).2⟩
  mutes sound := ⟨(after.mutes (before.mutes sound).1).1,
    (before.mutes sound).2.trans (after.mutes (before.mutes sound).1).2⟩
  noted noted := after.noted (before.noted noted)
  published_prefix := before.published_prefix.trans after.published_prefix
  published_fixed pending := by
    rw [after.published_fixed (by rwa [before.finish pending]), before.published_fixed pending]
  records_published_prefix := before.records_published_prefix.trans
    after.records_published_prefix
  consumer_eq := after.consumer_eq.trans before.consumer_eq
  counters_eq counter other := (after.counters_eq counter other).trans
    (before.counters_eq counter other)
  serial_eq := after.serial_eq.trans before.serial_eq
  finish pending := by
    rw [after.finish (by rwa [before.finish pending]), before.finish pending]
  ledger_eq := by
    rw [after.ledger_eq, before.ledger_eq]
  slots_prefix := before.slots_prefix.trans after.slots_prefix
  records_prefix := before.records_prefix.trans after.records_prefix
  current current := by
    obtain ⟨middleCurrent, late⟩ := after.current current
    obtain ⟨firstCurrent, early⟩ := before.current middleCurrent
    refine ⟨firstCurrent, ?_⟩
    obtain ⟨fresh, freshEq⟩ := before.records_prefix
    obtain ⟨fresher, fresherEq⟩ := after.records_prefix
    rw [← fresherEq, List.drop_left] at late
    rw [← freshEq, List.drop_left] at early
    rw [← fresherEq, ← freshEq, List.append_assoc, List.drop_left]
    intro burst member
    rcases List.mem_append.mp member with earlier | later
    · exact early burst earlier
    · exact (late burst later).trans before.serial_eq
  shape holds := after.shape (before.shape holds)

/-- While a boundary is pending nothing becomes readable. -/
theorem ProducerMoves.unread_fixed {before after : Ring F S W}
    (moves : ProducerMoves geometry shape before after)
    (sound : before.pcm.Sound geometry.capacity) (pending : FinishPending before.finish) :
    after.pcm.unread geometry.capacity = before.pcm.unread geometry.capacity := by
  obtain ⟨values, publishedEq, unreadEq⟩ := (moves.pcm sound).2.appended
  rw [moves.published_fixed pending] at publishedEq
  rw [unreadEq, List.self_eq_append_right.mp publishedEq, List.append_nil]

theorem ProducerMoves.passed_eq {before after : Ring F S W}
    (moves : ProducerMoves geometry shape before after)
    (sound : before.pcm.Sound geometry.capacity) : after.pcm.passed = before.pcm.passed :=
  (moves.pcm sound).2.passed_eq

theorem ProducerMoves.streamStart_eq {before after : Ring F S W}
    (moves : ProducerMoves geometry shape before after) :
    after.ledger.streamStart = before.ledger.streamStart := by
  rw [moves.ledger_eq]

theorem ProducerMoves.recordsStart_eq {before after : Ring F S W}
    (moves : ProducerMoves geometry shape before after) :
    after.ledger.recordsStart = before.ledger.recordsStart := by
  rw [moves.ledger_eq]

theorem ProducerMoves.errors_eq {before after : Ring F S W}
    (moves : ProducerMoves geometry shape before after) :
    after.ledger.errors = before.ledger.errors := by
  rw [moves.ledger_eq]

theorem ProducerMoves.released_eq {before after : Ring F S W}
    (moves : ProducerMoves geometry shape before after) :
    after.ledger.released = before.ledger.released := by
  rw [moves.ledger_eq]

theorem ProducerMoves.retired_eq {before after : Ring F S W}
    (moves : ProducerMoves geometry shape before after) :
    after.ledger.retired = before.ledger.retired := by
  rw [moves.ledger_eq]

theorem ProducerMoves.drainedClear_eq {before after : Ring F S W}
    (moves : ProducerMoves geometry shape before after) :
    after.ledger.drainedClear = before.ledger.drainedClear := by
  rw [moves.ledger_eq]

end ProducerMoves

section OfPermits

variable {shape : List (SourceSample F) → List SlotNote → Prop}

theorem ProducerMoves.of_load (op : Access F S W) (load : op.IsLoad) (ring : Ring F S W) :
    ProducerMoves geometry shape ring (effect geometry op ring) := by
  rw [effect_load geometry op load]
  exact .refl ring

private theorem producerMoves_pcm {queueAccess : QueueAccess (SourceSample F)}
    {ring : Ring F S W} (permitted : ProducerPermits geometry (.pcm queueAccess) ring)
    (keeps : shape ring.pcm.published ring.ledger.slots →
      shape (effect geometry (.pcm queueAccess) ring).pcm.published
        (effect geometry (.pcm queueAccess) ring).ledger.slots) :
    ProducerMoves geometry shape ring (effect geometry (.pcm queueAccess) ring) := by
  have pcm : ring.pcm.Sound geometry.capacity →
      (ring.pcm.exec geometry.capacity queueAccess).2.Sound geometry.capacity ∧
        Channel.Writes geometry.capacity ring.pcm
          (ring.pcm.exec geometry.capacity queueAccess).2 := fun sound =>
    ⟨Channel.sound_writer sound permitted.1, Channel.writes_of_permits sound permitted.1⟩
  have still : ProducerMoves geometry shape ring ring := .refl ring
  cases queueAccess with
  | loadWritten => exact .of_load (.pcm .loadWritten) trivial ring
  | loadRead => exact .of_load (.pcm .loadRead) trivial ring
  | loadCell index => exact .of_load (.pcm (.loadCell index)) trivial ring
  | storeCell index value =>
      exact { still with
        pcm := pcm
        shape := keeps }
  | storeWritten cursor =>
      refine { still with
        pcm := pcm
        shape := keeps
        noted := fun noted => ⟨?_, noted.2⟩
        published_prefix := List.prefix_append _ _
        slots_prefix := List.prefix_append _ _
        ledger_eq := rfl
        published_fixed := fun pending => ?_ }
      · simp [effect, Ledger.note, Channel.exec, noted.1]
      · exact (permitted.2.resolve_left id pending).elim
  | snapshotWritten | advanceRead | discardTo => exact permitted.1.elim

private theorem producerMoves_mutes {queueAccess : QueueAccess Interval} {ring : Ring F S W}
    (permitted : ProducerPermits geometry (.mutes queueAccess) ring) :
    ProducerMoves geometry shape ring (effect geometry (.mutes queueAccess) ring) := by
  have mutes : ring.mutes.Sound mailboxQueue →
      (ring.mutes.exec mailboxQueue queueAccess).2.Sound mailboxQueue ∧
        Channel.Writes mailboxQueue ring.mutes
          (ring.mutes.exec mailboxQueue queueAccess).2 := fun sound =>
    ⟨Channel.sound_writer sound permitted, Channel.writes_of_permits sound permitted⟩
  have still : ProducerMoves geometry shape ring ring := .refl ring
  cases queueAccess with
  | loadWritten => exact .of_load (.mutes .loadWritten) trivial ring
  | loadRead => exact .of_load (.mutes .loadRead) trivial ring
  | loadCell index => exact .of_load (.mutes (.loadCell index)) trivial ring
  | storeCell index value =>
      exact { still with
        mutes := mutes }
  | storeWritten cursor =>
      refine { still with
        mutes := mutes
        noted := fun noted => ⟨noted.1, ?_⟩
        records_published_prefix := List.prefix_append _ _
        records_prefix := List.prefix_append _ _
        ledger_eq := rfl
        current := fun current => ?_ }
      · simp [effect, Ledger.note, Channel.exec, noted.2]
      · simp only [effect, Ledger.note, Bool.and_eq_true, decide_eq_true_eq] at current ⊢
        refine ⟨current.1, fun burst member => ?_⟩
        rw [List.drop_left, List.mem_replicate] at member
        rcases current.2 with same | epochEq
        · simp [same, distance] at member
        · exact member.2.trans epochEq
  | snapshotWritten | advanceRead | discardTo => exact permitted.elim

theorem ProducerMoves.of_permits {op : Access F S W} {ring : Ring F S W}
    (permitted : ProducerPermits geometry op ring)
    (keeps : shape ring.pcm.published ring.ledger.slots →
      shape (effect geometry op ring).pcm.published (effect geometry op ring).ledger.slots) :
    ProducerMoves geometry shape ring (effect geometry op ring) := by
  have still : ProducerMoves geometry shape ring ring := .refl ring
  cases op with
  | pcm access => exact producerMoves_pcm permitted keeps
  | mutes access => exact producerMoves_mutes permitted
  | loadResetSerial | loadCounter | loadStamp | loadEpoch => exact .refl ring
  | loadFinish site =>
      cases site with
      | publishGate => exact { still with ledger_eq := rfl }
      | gate | request | status | render | reset => exact .refl ring
  | storeFinish word =>
      exact { still with
        finish := fun pending => (permitted.1 pending).elim
        ledger_eq := by
          obtain ⟨idle, rfl⟩ := permitted
          simp [effect, Ledger.note]
        published_fixed := fun pending => (permitted.1 pending).elim }
  | storeCounter counter value =>
      obtain rfl : counter = .discarded := permitted
      exact { still with
        counters_eq := fun counter other => Function.update_of_ne other _ _ }
  | setStamp | advanceStamp | storeEpoch => exact { still with ledger_eq := rfl }
  | _ => exact permitted.elim

theorem ConsumerMoves.of_permits {resets : Prop} {op : Access F S W} {ring : Ring F S W}
    (permitted : ConsumerPermits geometry resets op ring) :
    ConsumerMoves geometry resets ring (effect geometry op ring) := by
  have still : ConsumerMoves geometry resets ring ring := .refl ring
  cases op with
  | pcm access =>
      have pcm : ring.pcm.Sound geometry.capacity →
          (ring.pcm.exec geometry.capacity access).2.Sound geometry.capacity ∧
            Channel.Reads geometry.capacity ring.pcm
              (ring.pcm.exec geometry.capacity access).2 := fun sound =>
        ⟨Channel.sound_reader sound permitted, Channel.reads_of_permits sound permitted⟩
      cases access with
      | loadWritten | loadRead | loadCell | snapshotWritten | advanceRead | discardTo =>
          exact { still with pcm := pcm }
      | storeCell | storeWritten => exact permitted.elim
  | mutes access =>
      have mutes : ring.mutes.Sound mailboxQueue →
          (ring.mutes.exec mailboxQueue access).2.Sound mailboxQueue ∧
            Channel.Reads mailboxQueue ring.mutes
              (ring.mutes.exec mailboxQueue access).2 := fun sound =>
        ⟨Channel.sound_reader sound permitted, Channel.reads_of_permits sound permitted⟩
      cases access with
      | loadWritten | loadRead | loadCell | snapshotWritten | advanceRead | discardTo =>
          exact { still with mutes := mutes }
      | storeCell | storeWritten => exact permitted.elim
  | fetchAddResetSerial =>
      exact { still with
        serial_le := Nat.le_succ _
        serial_eq := fun noResets idle => (permitted.elim noResets idle).elim }
  | storeFinish word =>
      exact { still with
        finish := .inr ⟨permitted.1, fun pending => permitted.2.2 pending.2, permitted.2.1⟩ }
  | loadFinish site =>
      rw [effect_load geometry (.loadFinish site) permitted]
      exact .refl ring
  | storeCounter counter value =>
      exact { still with
        discarded_eq := Function.update_of_ne (Ne.symm permitted) _ _ }
  | loadCounter | enter | lookup => exact .refl ring
  | storeRatioCorrection | leave | feed | release | retire =>
      exact { still with slots_eq := rfl }
  | _ => exact permitted.elim

end OfPermits

section Access

variable {β : Type} {rely : Ring F S W → Ring F S W → Prop}
  {guar : Access F S W → Ring F S W → Prop} {post : β → Ring F S W → Prop}
  {ring : Ring F S W}

theorem safe_access {op : Access F S W} {next : op.Resp → RingProgram F S W β} :
    (access op >>= next).Safe (exec geometry) rely guar post ring ↔
      ∀ current, rely ring current → guar op current ∧
        (next (answer geometry op current)).Safe (exec geometry) rely guar post
          (effect geometry op current) :=
  Iff.rfl

theorem safe_answer (op : Access F S W) (load : op.IsLoad)
    {next : op.Resp → RingProgram F S W β}
    (safe : ∀ current, rely ring current → guar op current ∧
      (next (answer geometry op current)).Safe (exec geometry) rely guar post current) :
    (access op >>= next).Safe (exec geometry) rely guar post ring := by
  intro current moves
  refine ⟨(safe current moves).1, ?_⟩
  change Program.Safe (exec geometry) rely guar post (next (answer geometry op current))
    (effect geometry op current)
  rw [effect_load geometry op load]
  exact (safe current moves).2

end Access

end PcmRing
