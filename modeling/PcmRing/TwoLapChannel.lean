import PcmRing.TwoLapQueue

/-!
# The history of a two-lap queue

A channel is a queue together with a log of what its writer published and what
its reader consumed.  The log never influences the queue: it is a function of
the accesses performed.  When every access of the writer and of the reader is
one its side permits, the log and the unread cells together are always the
published values in order.
-/

namespace TwoLapQueue

open AtomicProgram

/-- One move of the read cursor: a take hands out one value, a reset drops
every cell up to its snapshot of the published count. -/
inductive Consumption (α : Type) : Type where
  | took (value : α)
  | dropped (snapshot : Nat) (values : List α)

/-- The cells one move of the read cursor passes. -/
def Consumption.cells {α : Type} : Consumption α → List α
  | took value => [value]
  | dropped _ values => values

/-- A queue with everything published to it, the number published at the last
reset snapshot, and every move of its read cursor. -/
structure Channel (α : Type) where
  queue : Queue α
  published : List α
  snapshot : Nat
  consumption : List (Consumption α)

namespace Channel

variable {α : Type}

/-- The channel before its first access. -/
def empty (value : α) : Channel α where
  queue := ⟨fun _ => value, 0, 0⟩
  published := []
  snapshot := 0
  consumption := []

/-- Every published value the read cursor has passed. -/
def passed (channel : Channel α) : List α :=
  channel.consumption.flatMap Consumption.cells

/-- The published values the read cursor has not passed. -/
def unread (capacity : Nat) (channel : Channel α) : List α :=
  channel.queue.unread capacity

/-- How the log records one access. -/
def exec (capacity : Nat) (access : QueueAccess α) (channel : Channel α) :
    access.Resp × Channel α :=
  ((access.exec channel.queue).1,
    { queue := (access.exec channel.queue).2
      published :=
        match access with
        | .storeWritten cursor => channel.published ++
            Queue.segment capacity channel.queue.cells channel.queue.written
              (distance capacity cursor channel.queue.written)
        | _ => channel.published
      snapshot :=
        match access with
        | .snapshotWritten => channel.published.length
        | _ => channel.snapshot
      consumption :=
        match access with
        | .advanceRead _ value => channel.consumption ++ [.took value]
        | .discardTo cursor => channel.consumption ++ [.dropped channel.snapshot
            (Queue.segment capacity channel.queue.cells channel.queue.read
              (distance capacity cursor channel.queue.read))]
        | _ => channel.consumption })

theorem exec_load (capacity : Nat) {access : QueueAccess α} (load : access.IsLoad)
    (channel : Channel α) : (exec capacity access channel).2 = channel := by
  cases access <;> first | rfl | exact load.elim

/-- The queue is valid, its log and unread cells are what was published, and
every reset dropped exactly what was published before its snapshot. -/
structure Sound (capacity : Nat) (channel : Channel α) : Prop where
  valid : channel.queue.Valid capacity
  published_eq : channel.published = channel.passed ++ channel.unread capacity
  dropped_eq : ∀ before snapshot values after,
    channel.consumption = before ++ .dropped snapshot values :: after →
      snapshot = (before.flatMap Consumption.cells ++ values).length

variable {capacity : Nat} {channel : Channel α}

theorem sound_empty {value : α} (positive : 0 < capacity) :
    (empty value).Sound capacity where
  valid := ⟨positive, by simp [empty]; omega, by simp [empty]; omega, by
    simp [empty, distance]⟩
  published_eq := by
    simp [empty, passed, unread, Queue.unread, distance, Queue.segment]
  dropped_eq before snapshot values after equal := by simp [empty] at equal

theorem Sound.published_length (sound : channel.Sound capacity) :
    channel.published.length = channel.passed.length +
      distance capacity channel.queue.written channel.queue.read := by
  conv_lhs => rw [sound.published_eq]
  rw [List.length_append, unread, Queue.unread_length]

theorem flatMap_took (values : List α) :
    (values.map Consumption.took).flatMap Consumption.cells = values := by
  induction values with
  | nil => rfl
  | cons value values ih => exact congrArg (value :: ·) ih

/-- Takes between two drops are a segment of what was published. -/
theorem Sound.taken_segment (sound : channel.Sound capacity) {before after : List (Consumption α)}
    {values : List α} (consumptionEq : channel.consumption = before ++ values.map .took ++ after) :
    ∃ rest, channel.published = before.flatMap Consumption.cells ++ values ++ rest := by
  refine ⟨after.flatMap Consumption.cells ++ channel.unread capacity, ?_⟩
  rw [sound.published_eq, passed, consumptionEq]
  simp only [List.flatMap_append, flatMap_took, List.append_assoc]

/-- A drop takes what was published before its snapshot and not passed. -/
theorem Sound.dropped_segment (sound : channel.Sound capacity)
    {before after : List (Consumption α)} {snapshot : Nat} {values : List α}
    (consumptionEq : channel.consumption = before ++ .dropped snapshot values :: after) :
    channel.published.take snapshot = before.flatMap Consumption.cells ++ values := by
  have snapshotEq := sound.dropped_eq before snapshot values after consumptionEq
  have publishedEq : channel.published = before.flatMap Consumption.cells ++ values ++
      (after.flatMap Consumption.cells ++ channel.unread capacity) := by
    rw [sound.published_eq, passed, consumptionEq]
    simp only [List.flatMap_append, List.flatMap_cons, Consumption.cells, List.append_assoc]
  rw [publishedEq, snapshotEq, List.take_left]

theorem Sound.unread_eq_drop (sound : channel.Sound capacity) :
    channel.unread capacity = channel.published.drop channel.passed.length := by
  conv_rhs => rw [sound.published_eq]
  rw [List.drop_left]

@[simp]
theorem unread_length : (channel.unread capacity).length =
    distance capacity channel.queue.written channel.queue.read :=
  Queue.unread_length

theorem Sound.unread_eq_nil (sound : channel.Sound capacity) :
    channel.unread capacity = [] ↔ channel.queue.read = channel.queue.written :=
  Queue.unread_eq_nil sound.valid

/-- The oldest unread value is in the cell under the read cursor. -/
theorem Sound.cell_eq (sound : channel.Sound capacity) {value : α} {rest : List α}
    (unreadEq : channel.unread capacity = value :: rest) :
    channel.queue.cells (channel.queue.read % capacity) = value := by
  have distinct : channel.queue.read ≠ channel.queue.written := fun equal => by
    simp [sound.unread_eq_nil.mpr equal] at unreadEq
  obtain ⟨tail, consEq⟩ := Queue.unread_cons sound.valid distinct
  exact List.head_eq_of_cons_eq (consEq.symm.trans unreadEq)

theorem nonempty_of_unread {value : α} {rest : List α}
    (unreadEq : channel.unread capacity = value :: rest) :
    0 < distance capacity channel.queue.written channel.queue.read := by
  rw [← unread_length, unreadEq]
  exact Nat.succ_pos _

/-- A writer only touches cells that hold nothing unread, and never moves its
cursor more than one lap ahead of the reader. -/
def WriterPermits (capacity : Nat) (channel : Channel α) : QueueAccess α → Prop
  | .loadWritten | .loadRead => True
  | .storeCell index _ => ∃ offset,
      index = (channel.queue.written + offset) % capacity ∧
        distance capacity channel.queue.written channel.queue.read + offset < capacity
  | .storeWritten cursor => ∃ count,
      cursor = (channel.queue.written + count) % (capacity * 2) ∧
        distance capacity channel.queue.written channel.queue.read + count ≤ capacity
  | .loadCell _ | .snapshotWritten | .advanceRead .. | .discardTo _ => False

/-- A reader takes the oldest unread cell, or drops what its snapshot covers. -/
def ReaderPermits (capacity : Nat) (channel : Channel α) : QueueAccess α → Prop
  | .loadWritten | .snapshotWritten | .loadRead => True
  | .loadCell index => ∃ offset,
      index = (channel.queue.read + offset) % capacity ∧
        offset < distance capacity channel.queue.written channel.queue.read
  | .advanceRead cursor value =>
      cursor = (channel.queue.read + 1) % (capacity * 2) ∧
        ∃ rest, channel.unread capacity = value :: rest
  | .discardTo cursor => ∃ count,
      cursor = (channel.queue.read + count) % (capacity * 2) ∧
        count ≤ distance capacity channel.queue.written channel.queue.read ∧
        channel.snapshot = channel.passed.length + count
  | .storeCell .. | .storeWritten _ => False

/-- What a writer may make of a channel: values are appended. -/
structure Writes (capacity : Nat) (before after : Channel α) : Prop where
  read_eq : after.queue.read = before.queue.read
  consumption_eq : after.consumption = before.consumption
  snapshot_eq : after.snapshot = before.snapshot
  appended : ∃ values, after.published = before.published ++ values ∧
    after.unread capacity = before.unread capacity ++ values

/-- What a reader may make of a channel: values are consumed. -/
structure Reads (capacity : Nat) (before after : Channel α) : Prop where
  written_eq : after.queue.written = before.queue.written
  cells_eq : after.queue.cells = before.queue.cells
  published_eq : after.published = before.published
  distance_le : distance capacity after.queue.written after.queue.read ≤
    distance capacity before.queue.written before.queue.read

theorem Writes.refl (channel : Channel α) : Writes capacity channel channel :=
  ⟨rfl, rfl, rfl, [], by simp⟩

theorem Writes.trans {first middle last : Channel α}
    (before : Writes capacity first middle) (after : Writes capacity middle last) :
    Writes capacity first last := by
  obtain ⟨early, earlyPublished, earlyUnread⟩ := before.appended
  obtain ⟨late, latePublished, lateUnread⟩ := after.appended
  refine ⟨after.read_eq.trans before.read_eq, after.consumption_eq.trans before.consumption_eq,
    after.snapshot_eq.trans before.snapshot_eq, early ++ late, ?_, ?_⟩
  · rw [latePublished, earlyPublished, List.append_assoc]
  · rw [lateUnread, earlyUnread, List.append_assoc]

theorem Reads.refl (channel : Channel α) : Reads capacity channel channel :=
  ⟨rfl, rfl, rfl, Nat.le_refl _⟩

theorem Reads.trans {first middle last : Channel α}
    (before : Reads capacity first middle) (after : Reads capacity middle last) :
    Reads capacity first last :=
  ⟨after.written_eq.trans before.written_eq, after.cells_eq.trans before.cells_eq,
    after.published_eq.trans before.published_eq,
    Nat.le_trans after.distance_le before.distance_le⟩

theorem Writes.passed_eq {before after : Channel α} (writes : Writes capacity before after) :
    after.passed = before.passed := by
  rw [passed, writes.consumption_eq, passed]

theorem Reads.passed_prefix {before after : Channel α} (reads : Reads capacity before after)
    (sound : before.Sound capacity) (soundAfter : after.Sound capacity) :
    before.passed <+: after.passed := by
  have lengths := sound.published_length
  have lengthsAfter := soundAfter.published_length
  have distanceLe := reads.distance_le
  have whole : after.passed <+: before.published := by
    rw [← reads.published_eq, soundAfter.published_eq]
    exact List.prefix_append _ _
  have part : before.passed <+: before.published := by
    rw [sound.published_eq]
    exact List.prefix_append _ _
  rw [reads.published_eq] at lengthsAfter
  exact List.prefix_of_prefix_length_le part whole (by omega)

theorem Writes.distance_le {before after : Channel α} (writes : Writes capacity before after) :
    distance capacity before.queue.written before.queue.read ≤
      distance capacity after.queue.written after.queue.read := by
  obtain ⟨values, -, unreadEq⟩ := writes.appended
  have lengths := congrArg List.length unreadEq
  rw [List.length_append, unread, unread, Queue.unread_length, Queue.unread_length] at lengths
  omega

theorem Writes.unread_cons {before after : Channel α} (writes : Writes capacity before after)
    {value : α} {rest : List α} (unreadEq : before.unread capacity = value :: rest) :
    ∃ more, after.unread capacity = value :: more := by
  obtain ⟨values, -, appendedEq⟩ := writes.appended
  exact ⟨rest ++ values, by rw [appendedEq, unreadEq, List.cons_append]⟩

theorem sound_loads {access : QueueAccess α} (sound : channel.Sound capacity)
    (load : access.IsLoad) : (channel.exec capacity access).2.Sound capacity := by
  rw [exec_load capacity load]
  exact sound

private theorem exec_storeWritten {count : Nat} (sound : channel.Sound capacity)
    (room : distance capacity channel.queue.written channel.queue.read + count ≤ capacity) :
    (channel.exec capacity
        (.storeWritten ((channel.queue.written + count) % (capacity * 2)))).2 =
      { channel with
        queue := channel.queue.publish capacity count
        published := channel.published ++
          Queue.segment capacity channel.queue.cells channel.queue.written count } := by
  have positive := sound.valid.positive
  simp only [exec, QueueAccess.exec, Queue.publish,
    distance_advance sound.valid.written_lt (by omega : count < capacity * 2)]

private theorem exec_discardTo {count : Nat} (sound : channel.Sound capacity)
    (countLe : count ≤ distance capacity channel.queue.written channel.queue.read) :
    (channel.exec capacity
        (.discardTo ((channel.queue.read + count) % (capacity * 2)))).2 =
      { channel with
        queue := channel.queue.forward capacity count
        consumption := channel.consumption ++ [.dropped channel.snapshot
          ((channel.unread capacity).take count)] } := by
  have positive := sound.valid.positive
  have distanceLe := sound.valid.distance_le
  have taken : (channel.unread capacity).take count =
      Queue.segment capacity channel.queue.cells channel.queue.read count := by
    rw [unread, Queue.unread, show distance capacity channel.queue.written channel.queue.read =
      count + (distance capacity channel.queue.written channel.queue.read - count) by omega,
      Queue.segment_add, List.take_left' (Queue.segment_length ..)]
  simp only [exec, QueueAccess.exec, Queue.forward,
    distance_advance sound.valid.read_lt (by omega : count < capacity * 2), taken]

theorem sound_writer {access : QueueAccess α} (sound : channel.Sound capacity)
    (permitted : channel.WriterPermits capacity access) :
    (channel.exec capacity access).2.Sound capacity := by
  cases access with
  | loadWritten | loadRead => exact sound_loads sound trivial
  | storeCell index value =>
      obtain ⟨offset, rfl, room⟩ := permitted
      exact ⟨Queue.valid_stage sound.valid,
        sound.published_eq.trans (congrArg _ (Queue.unread_stage sound.valid room).symm),
        sound.dropped_eq⟩
  | storeWritten cursor =>
      obtain ⟨count, rfl, room⟩ := permitted
      rw [exec_storeWritten sound room]
      refine ⟨Queue.valid_publish sound.valid room, ?_, sound.dropped_eq⟩
      change channel.published ++ _ = channel.passed ++ (channel.queue.publish _ _).unread _
      rw [Queue.unread_publish sound.valid room, sound.published_eq, List.append_assoc]
      rfl
  | loadCell | snapshotWritten | advanceRead | discardTo => exact permitted.elim

theorem writes_of_permits {access : QueueAccess α} (sound : channel.Sound capacity)
    (permitted : channel.WriterPermits capacity access) :
    Writes capacity channel (channel.exec capacity access).2 := by
  cases access with
  | loadWritten | loadRead => exact .refl channel
  | storeCell index value =>
      obtain ⟨offset, rfl, room⟩ := permitted
      exact ⟨rfl, rfl, rfl, [], (List.append_nil _).symm,
        (Queue.unread_stage sound.valid room).trans (List.append_nil _).symm⟩
  | storeWritten cursor =>
      obtain ⟨count, rfl, room⟩ := permitted
      rw [exec_storeWritten sound room]
      exact ⟨rfl, rfl, rfl, _, rfl, Queue.unread_publish sound.valid room⟩
  | loadCell | snapshotWritten | advanceRead | discardTo => exact permitted.elim

/-- An element of a longer list is its last one or was there before. -/
private theorem mem_snoc {items before after : List α} {last item : α}
    (equal : items ++ [last] = before ++ item :: after) :
    (items = before ∧ last = item) ∨ ∃ front, items = before ++ item :: front := by
  obtain rfl | ⟨front, final, rfl⟩ := List.eq_nil_or_concat after
  · obtain ⟨rfl, lastEq⟩ := List.append_inj' equal rfl
    exact .inl ⟨rfl, List.head_eq_of_cons_eq lastEq⟩
  · rw [List.concat_eq_append, ← List.cons_append, ← List.append_assoc] at equal
    exact .inr ⟨front, List.append_inj_left' equal rfl⟩

theorem sound_reader {access : QueueAccess α} (sound : channel.Sound capacity)
    (permitted : channel.ReaderPermits capacity access) :
    (channel.exec capacity access).2.Sound capacity := by
  have positive := sound.valid.positive
  cases access with
  | loadWritten | loadRead | loadCell => exact sound_loads sound trivial
  | snapshotWritten => exact ⟨sound.valid, sound.published_eq, sound.dropped_eq⟩
  | advanceRead cursor value =>
      obtain ⟨rfl, rest, unreadEq⟩ := permitted
      have nonempty := nonempty_of_unread unreadEq
      refine ⟨Queue.valid_forward sound.valid nonempty, ?_, ?_⟩
      · change channel.published =
          (channel.consumption ++ [Consumption.took value]).flatMap _ ++
            (channel.queue.forward capacity 1).unread capacity
        rw [Queue.unread_forward sound.valid nonempty, sound.published_eq, ← unread, unreadEq]
        simp [passed, Consumption.cells]
      · intro before snapshot values after equal
        obtain ⟨-, lastEq⟩ | ⟨front, earlier⟩ := mem_snoc equal
        · cases lastEq
        · exact sound.dropped_eq before snapshot values front earlier
  | discardTo cursor =>
      obtain ⟨count, rfl, countLe, snapshotEq⟩ := permitted
      rw [exec_discardTo sound countLe]
      refine ⟨Queue.valid_forward sound.valid countLe, ?_, ?_⟩
      · change channel.published = (channel.consumption ++ [_]).flatMap _ ++
          (channel.queue.forward capacity count).unread capacity
        rw [Queue.unread_forward sound.valid countLe, sound.published_eq, ← unread]
        simp [passed, Consumption.cells]
      · intro before snapshot values after equal
        obtain ⟨rfl, lastEq⟩ | ⟨front, earlier⟩ := mem_snoc equal
        · cases lastEq
          rw [snapshotEq, List.length_append, List.length_take, unread, Queue.unread_length,
            Nat.min_eq_left countLe, passed]
        · exact sound.dropped_eq before snapshot values front earlier
  | storeCell | storeWritten => exact permitted.elim

theorem reads_of_permits {access : QueueAccess α} (sound : channel.Sound capacity)
    (permitted : channel.ReaderPermits capacity access) :
    Reads capacity channel (channel.exec capacity access).2 := by
  have positive := sound.valid.positive
  have distanceLe := sound.valid.distance_le
  have forward {count : Nat}
      (countLe : count ≤ distance capacity channel.queue.written channel.queue.read) :
      distance capacity channel.queue.written
          ((channel.queue.read + count) % (capacity * 2)) ≤
        distance capacity channel.queue.written channel.queue.read := by
    conv_lhs => rw [Queue.written_of_forward sound.valid countLe]
    rw [distance_advance (Nat.mod_lt _ (by omega)) (by omega)]
    omega
  cases access with
  | loadWritten | loadRead | loadCell => exact .refl channel
  | snapshotWritten => exact ⟨rfl, rfl, rfl, Nat.le_refl _⟩
  | advanceRead cursor value =>
      obtain ⟨rfl, rest, unreadEq⟩ := permitted
      exact ⟨rfl, rfl, rfl, forward (nonempty_of_unread unreadEq)⟩
  | discardTo cursor =>
      obtain ⟨count, rfl, countLe, -⟩ := permitted
      exact ⟨rfl, rfl, rfl, forward countLe⟩
  | storeCell | storeWritten => exact permitted.elim

/-- A drop passes everything published before its snapshot. -/
theorem passed_length_discardTo {cursor : Nat} (sound : channel.Sound capacity)
    (permitted : channel.ReaderPermits capacity (.discardTo cursor)) :
    (channel.exec capacity (.discardTo cursor)).2.passed.length = channel.snapshot := by
  have dropped := (sound_reader sound permitted).dropped_eq channel.consumption channel.snapshot
    _ [] rfl
  rw [dropped]
  simp [exec, passed, Consumption.cells]

theorem passed_advanceRead {cursor : Nat} (value : α) :
    (channel.exec capacity (.advanceRead cursor value)).2.passed = channel.passed ++ [value] := by
  simp [exec, passed, Consumption.cells]

theorem unread_advanceRead (sound : channel.Sound capacity) {value : α} {rest : List α}
    (unreadEq : channel.unread capacity = value :: rest) :
    (channel.exec capacity
      (.advanceRead ((channel.queue.read + 1) % (capacity * 2)) value)).2.unread capacity =
        rest := by
  have permitted : channel.ReaderPermits capacity
      (.advanceRead ((channel.queue.read + 1) % (capacity * 2)) value) := ⟨rfl, rest, unreadEq⟩
  have after := (sound_reader sound permitted).published_eq
  have before := sound.published_eq
  rw [passed_advanceRead, List.append_assoc] at after
  rw [unreadEq] at before
  have same := List.append_cancel_left (before.symm.trans after)
  exact (List.cons_inj_right value |>.mp same).symm

end Channel

end TwoLapQueue
