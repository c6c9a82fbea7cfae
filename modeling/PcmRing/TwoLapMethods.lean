import PcmRing.TwoLapChannel

/-!
# Queue methods as programs

The methods of a two-lap queue, written once over any host memory that
contains a channel.  Each has a rule for the sequential meaning and a
rely/guarantee rule; the rules speak about unread values, never about cursors.
-/

namespace TwoLapQueue

open AtomicProgram

variable {Op σ α β : Type} {Resp : Op → Type}

/-- How a host performs the accesses of one of its queues. -/
structure Port (Resp : Op → Type) (α : Type) where
  access : QueueAccess α → Op
  answer : (access' : QueueAccess α) → Resp (access access') → access'.Resp

namespace Port

/-- Perform one access and return its answer. -/
def perform (port : Port Resp α) (access : QueueAccess α) : Program Resp access.Resp :=
  .act (port.access access) fun response => .done (port.answer access response)

variable (port : Port Resp α) (capacity : Nat)

/-- Reader: hand out the oldest unread value, if there is one. -/
def take : Program Resp (Option α) := do
  let read ← port.perform .loadRead
  let written ← port.perform .loadWritten
  if read = written then
    return none
  else
    let value ← port.perform (.loadCell (read % capacity))
    port.perform (.advanceRead ((read + 1) % (capacity * 2)) value)
    return some value

/-- Either side: the number of unread values. -/
def occupied : Program Resp Nat := do
  let written ← port.perform .loadWritten
  let read ← port.perform .loadRead
  return distance capacity written read

/-- Reader: drop everything published before a snapshot. -/
def discard : Program Resp Unit := do
  let written ← port.perform .snapshotWritten
  port.perform (.discardTo written)

/-- Writer: fill consecutive cells, without publishing them. -/
def fill : List α → Nat → Program Resp Nat
  | [], written => return written
  | value :: values, written => do
      port.perform (.storeCell (written % capacity) value)
      fill values ((written + 1) % (capacity * 2))

/-- Writer: publish a whole batch with one cursor store. -/
def append (values : List α) : Program Resp Unit := do
  let written ← port.perform .loadWritten
  let written ← port.fill capacity values written
  port.perform (.storeWritten written)

/-- The host performs the accesses of this channel as the channel does. -/
structure Lawful (exec : Semantics Resp σ) (channel : σ → Channel α) : Prop where
  answer_eq : ∀ access memory, port.answer access (exec (port.access access) memory).1 =
    ((channel memory).exec capacity access).1
  channel_eq : ∀ access memory, channel (exec (port.access access) memory).2 =
    ((channel memory).exec capacity access).2
  load_eq : ∀ access memory, access.IsLoad → (exec (port.access access) memory).2 = memory

/-- What the reader of a channel may assume and must promise. -/
structure ReaderSide (channel : σ → Channel α) (rely : σ → σ → Prop)
    (guar : Op → σ → Prop) : Prop where
  order : Program.Preordered rely
  writes : ∀ {first last}, rely first last → (channel first).Sound capacity →
    (channel last).Sound capacity ∧ Channel.Writes capacity (channel first) (channel last)
  permits : ∀ access memory, (channel memory).ReaderPermits capacity access →
    guar (port.access access) memory

/-- What the writer of a channel may assume and must promise. -/
structure WriterSide (channel : σ → Channel α) (rely : σ → σ → Prop)
    (guar : Op → σ → Prop) : Prop where
  order : Program.Preordered rely
  reads : ∀ {first last}, rely first last → (channel first).Sound capacity →
    (channel last).Sound capacity ∧ Channel.Reads capacity (channel first) (channel last)
  permits : ∀ access memory, (channel memory).WriterPermits capacity access →
    guar (port.access access) memory

/-- A writer that promises nothing yet about the store that publishes. -/
structure FillerSide (channel : σ → Channel α) (rely : σ → σ → Prop)
    (guar : Op → σ → Prop) : Prop where
  order : Program.Preordered rely
  reads : ∀ {first last}, rely first last → (channel first).Sound capacity →
    (channel last).Sound capacity ∧ Channel.Reads capacity (channel first) (channel last)
  permits : ∀ access memory, (∀ cursor, access ≠ .storeWritten cursor) →
    (channel memory).WriterPermits capacity access → guar (port.access access) memory

variable {port capacity} {exec : Semantics Resp σ} {channel : σ → Channel α}
  {rely : σ → σ → Prop} {guar : Op → σ → Prop} {post : β → σ → Prop} {memory : σ}

theorem WriterSide.filler (side : port.WriterSide capacity channel rely guar) :
    port.FillerSide capacity channel rely guar where
  order := side.order
  reads := side.reads
  permits access memory _ permitted := side.permits access memory permitted

theorem safe_perform (lawful : port.Lawful capacity exec channel) (access : QueueAccess α)
    {next : access.Resp → Program Resp β} :
    (port.perform access >>= next).Safe exec rely guar post memory ↔
      ∀ current, rely memory current → guar (port.access access) current ∧
        (next ((channel current).exec capacity access).1).Safe exec rely guar post
          (exec (port.access access) current).2 := by
  simp only [← lawful.answer_eq]
  exact Iff.rfl

theorem safe_load (lawful : port.Lawful capacity exec channel) (access : QueueAccess α)
    (load : access.IsLoad) {next : access.Resp → Program Resp β} :
    (port.perform access >>= next).Safe exec rely guar post memory ↔
      ∀ current, rely memory current → guar (port.access access) current ∧
        (next ((channel current).exec capacity access).1).Safe exec rely guar post current := by
  simp only [safe_perform lawful, lawful.load_eq access _ load]

section Reader

variable (lawful : port.Lawful capacity exec channel)
  (side : port.ReaderSide capacity channel rely guar)

include lawful side

/-- A take finds the queue empty, or hands out its oldest value at the store. -/
theorem safe_take {next : Option α → Program Resp β}
    (sound : (channel memory).Sound capacity)
    (empty : ∀ current, rely memory current → (channel current).unread capacity = [] →
      (next none).Safe exec rely guar post current)
    (some : ∀ current value rest, rely memory current →
      (channel current).unread capacity = value :: rest →
      (next (some value)).Safe exec rely guar post
        (exec (port.access (.advanceRead
          (((channel current).queue.read + 1) % (capacity * 2)) value)) current).2) :
    (port.take capacity >>= next).Safe exec rely guar post memory := by
  simp only [take, bind_assoc]
  refine (safe_load lawful .loadRead trivial).mpr fun first firstMoves =>
    ⟨side.permits _ _ trivial, ?_⟩
  have firstSound := (side.writes firstMoves sound).1
  refine (safe_load lawful .loadWritten trivial).mpr fun second secondMoves =>
    ⟨side.permits _ _ trivial, ?_⟩
  obtain ⟨secondSound, secondWrites⟩ := side.writes secondMoves firstSound
  have toSecond := side.order.trans firstMoves secondMoves
  have readEq : ((channel first).exec capacity .loadRead).1 = (channel second).queue.read :=
    secondWrites.read_eq.symm
  have writtenEq : ((channel second).exec capacity .loadWritten).1 =
    (channel second).queue.written := rfl
  rw [readEq, writtenEq]
  by_cases same : (channel second).queue.read = (channel second).queue.written
  · rw [if_pos same]
    exact empty second toSecond (secondSound.unread_eq_nil.mpr same)
  rw [if_neg same]
  simp only [bind_assoc]
  refine (safe_load lawful (.loadCell _) trivial).mpr fun third thirdMoves => ?_
  obtain ⟨thirdSound, thirdWrites⟩ := side.writes thirdMoves secondSound
  have thirdRead := thirdWrites.read_eq
  have distinct : (channel third).unread capacity ≠ [] := by
    obtain ⟨rest, unreadEq⟩ := Queue.unread_cons secondSound.valid same
    obtain ⟨more, thirdUnread⟩ := thirdWrites.unread_cons unreadEq
    simp [thirdUnread]
  -- The loaded cell is the oldest unread one, whatever was published meanwhile.
  obtain ⟨value, rest, unreadEq⟩ := List.exists_cons_of_ne_nil distinct
  refine ⟨side.permits _ _ ⟨0, by rw [thirdRead, Nat.add_zero],
    Channel.nonempty_of_unread unreadEq⟩, ?_⟩
  have cellEq : ((channel third).exec capacity
      (.loadCell ((channel second).queue.read % capacity))).1 = value := by
    rw [← thirdRead]
    exact thirdSound.cell_eq unreadEq
  rw [cellEq, ← thirdRead]
  refine (safe_perform lawful _).mpr fun fourth fourthMoves => ?_
  have fourthWrites := (side.writes fourthMoves thirdSound).2
  obtain ⟨others, fourthUnread⟩ := fourthWrites.unread_cons unreadEq
  rw [← fourthWrites.read_eq]
  exact ⟨side.permits _ _ ⟨rfl, others, fourthUnread⟩, some fourth _ others
    (side.order.trans toSecond (side.order.trans thirdMoves fourthMoves)) fourthUnread⟩

/-- The reader learns how many values were unread at one moment of the call. -/
theorem safe_occupied {next : Nat → Program Resp β}
    (sound : (channel memory).Sound capacity)
    (counted : ∀ early current, rely memory early → rely early current →
      (next ((channel early).unread capacity).length).Safe exec rely guar post current) :
    (port.occupied capacity >>= next).Safe exec rely guar post memory := by
  simp only [occupied, bind_assoc]
  refine (safe_load lawful .loadWritten trivial).mpr fun first firstMoves =>
    ⟨side.permits _ _ trivial, ?_⟩
  have firstSound := (side.writes firstMoves sound).1
  refine (safe_load lawful .loadRead trivial).mpr fun second secondMoves =>
    ⟨side.permits _ _ trivial, ?_⟩
  have secondWrites := (side.writes secondMoves firstSound).2
  change Program.Safe exec rely guar post (next (distance capacity
    (channel first).queue.written (channel second).queue.read)) second
  rw [secondWrites.read_eq, ← Queue.unread_length]
  exact counted first second firstMoves secondMoves

/-- A discard drops everything that was unread at its snapshot. -/
theorem safe_discard {next : Unit → Program Resp β}
    (sound : (channel memory).Sound capacity)
    (dropped : ∀ early current, rely memory early →
      rely (exec (port.access .snapshotWritten) early).2 current →
      (channel current).ReaderPermits capacity
        (.discardTo (channel early).queue.written) →
      (next ()).Safe exec rely guar post
        (exec (port.access (.discardTo (channel early).queue.written)) current).2) :
    (port.discard >>= next).Safe exec rely guar post memory := by
  simp only [discard, bind_assoc]
  refine (safe_perform lawful .snapshotWritten).mpr fun first firstMoves =>
    ⟨side.permits _ _ trivial, ?_⟩
  have firstSound := (side.writes firstMoves sound).1
  have snapshotSound : (channel (exec (port.access .snapshotWritten) first).2).Sound capacity := by
    rw [lawful.channel_eq]
    exact Channel.sound_reader firstSound trivial
  refine (safe_perform lawful (.discardTo _)).mpr fun second secondMoves => ?_
  have writes := (side.writes secondMoves snapshotSound).2
  rw [lawful.channel_eq] at writes
  have permitted : (channel second).ReaderPermits capacity
      (.discardTo (channel first).queue.written) := by
    refine ⟨distance capacity (channel first).queue.written (channel first).queue.read, ?_,
      writes.distance_le, ?_⟩
    · rw [writes.read_eq]
      exact firstSound.valid.written_eq
    · rw [writes.snapshot_eq, writes.passed_eq]
      exact firstSound.published_length
  exact ⟨side.permits _ _ permitted, dropped first second firstMoves secondMoves permitted⟩

end Reader

section Writer

variable (lawful : port.Lawful capacity exec channel)
  (side : port.FillerSide capacity channel rely guar)

include lawful side

/-- The writer learns how many values are unread when it loads the read cursor. -/
theorem safe_occupied_writer {next : Nat → Program Resp β}
    (sound : (channel memory).Sound capacity)
    (counted : ∀ current, rely memory current →
      (next ((channel current).unread capacity).length).Safe exec rely guar post current) :
    (port.occupied capacity >>= next).Safe exec rely guar post memory := by
  simp only [occupied, bind_assoc]
  refine (safe_load lawful .loadWritten trivial).mpr fun first firstMoves =>
    ⟨side.permits _ _ (by simp) trivial, ?_⟩
  have firstSound := (side.reads firstMoves sound).1
  refine (safe_load lawful .loadRead trivial).mpr fun second secondMoves =>
    ⟨side.permits _ _ (by simp) trivial, ?_⟩
  have secondReads := (side.reads secondMoves firstSound).2
  change Program.Safe exec rely guar post (next (distance capacity
    (channel first).queue.written (channel second).queue.read)) second
  rw [← secondReads.written_eq, ← Queue.unread_length]
  exact counted second (side.order.trans firstMoves secondMoves)

/-- Filling cells keeps any assertion that interference and the stores keep,
and the filled cells wait ahead of the write cursor. -/
theorem safe_fill {next : Nat → Program Resp β} {assertion : σ → Prop}
    (stable : ∀ {first last}, rely first last → assertion first → assertion last)
    (stores : ∀ memory index value, assertion memory →
      (channel memory).WriterPermits capacity (.storeCell index value) →
      assertion (exec (port.access (.storeCell index value)) memory).2)
    (sound : ∀ memory, assertion memory → (channel memory).Sound capacity)
    (values filled : List α) (holds : assertion memory)
    (room : distance capacity (channel memory).queue.written (channel memory).queue.read +
      (filled ++ values).length ≤ capacity)
    (ready : Queue.segment capacity (channel memory).queue.cells
      (channel memory).queue.written filled.length = filled)
    (done : ∀ current, assertion current →
      (channel current).queue.written = (channel memory).queue.written →
      distance capacity (channel current).queue.written (channel current).queue.read +
        (filled ++ values).length ≤ capacity →
      Queue.segment capacity (channel current).queue.cells (channel current).queue.written
        (filled ++ values).length = filled ++ values →
      (next (((channel current).queue.written + (filled ++ values).length) %
        (capacity * 2))).Safe exec rely guar post current) :
    (port.fill capacity values
        (((channel memory).queue.written + filled.length) % (capacity * 2)) >>= next).Safe
      exec rely guar post memory := by
  induction values generalizing filled memory with
  | nil =>
      simp only [List.append_nil] at room done
      exact done memory holds rfl room ready
  | cons value values ih =>
      simp only [fill, bind_assoc]
      refine (safe_perform lawful (.storeCell _ value)).mpr fun current moves => ?_
      obtain ⟨currentSound, reads⟩ := side.reads moves (sound memory holds)
      have distanceLe := reads.distance_le
      rw [List.length_append, List.length_cons] at room
      have indexEq : ((channel memory).queue.written + filled.length) % (capacity * 2) %
          capacity = ((channel current).queue.written + filled.length) % capacity := by
        rw [Nat.mod_mod_of_dvd _ (Dvd.intro _ rfl), reads.written_eq]
      rw [indexEq]
      have permitted : (channel current).WriterPermits capacity (.storeCell
          (((channel current).queue.written + filled.length) % capacity) value) :=
        ⟨_, rfl, by omega⟩
      refine ⟨side.permits _ _ (by simp) permitted, ?_⟩
      have stored := lawful.channel_eq
        (.storeCell (((channel current).queue.written + filled.length) % capacity) value) current
      have writtenEq : (channel (exec (port.access (.storeCell
          (((channel current).queue.written + filled.length) % capacity) value))
            current).2).queue.written = (channel memory).queue.written := by
        rw [stored, ← reads.written_eq]
        rfl
      have cursorEq : (((channel memory).queue.written + filled.length) % (capacity * 2) + 1) %
          (capacity * 2) = ((channel (exec (port.access (.storeCell
            (((channel current).queue.written + filled.length) % capacity) value))
              current).2).queue.written + (filled ++ [value]).length) % (capacity * 2) := by
        rw [Nat.mod_add_mod, writtenEq, List.length_append, List.length_singleton, Nat.add_assoc]
      have assoc : filled ++ [value] ++ values = filled ++ value :: values := by simp
      rw [cursorEq]
      refine ih (filled ++ [value]) (stores _ _ _ (stable moves holds) permitted) ?_ ?_ ?_
      · rw [assoc, stored, List.length_append, List.length_cons]
        change distance _ (channel current).queue.written (channel current).queue.read + _ ≤ _
        omega
      · rw [stored, List.length_append, List.length_singleton]
        change Queue.segment capacity (Function.update _ _ _) (channel current).queue.written _ = _
        rw [Queue.segment_fill _ _ _ _ (by omega), reads.cells_eq, reads.written_eq, ready]
      · intro later laterHolds laterWritten laterRoom segmentEq
        rw [assoc] at laterRoom segmentEq ⊢
        exact done later laterHolds (laterWritten.trans writtenEq) laterRoom segmentEq

/-- Publishing a batch: all values become unread at the one cursor store, for
which a promise is due when they are all in their cells. -/
theorem safe_append_promised (assertion : σ → Prop) {next : Unit → Program Resp β}
    (stable : ∀ {first last}, rely first last → assertion first → assertion last)
    (stores : ∀ memory index value, assertion memory →
      (channel memory).WriterPermits capacity (.storeCell index value) →
      assertion (exec (port.access (.storeCell index value)) memory).2)
    (sound : ∀ memory, assertion memory → (channel memory).Sound capacity)
    (values : List α) (holds : assertion memory)
    (room : distance capacity (channel memory).queue.written (channel memory).queue.read +
      values.length ≤ capacity)
    (done : ∀ current, assertion current →
      (channel current).queue.written = (channel memory).queue.written →
      distance capacity (channel current).queue.written (channel current).queue.read +
        values.length ≤ capacity →
      Queue.segment capacity (channel current).queue.cells (channel current).queue.written
        values.length = values →
      guar (port.access (.storeWritten (((channel current).queue.written + values.length) %
        (capacity * 2)))) current ∧ (next ()).Safe exec rely guar post (exec (port.access (.storeWritten
        (((channel current).queue.written + values.length) % (capacity * 2)))) current).2) :
    (port.append capacity values >>= next).Safe exec rely guar post memory := by
  simp only [append, bind_assoc]
  refine (safe_load lawful .loadWritten trivial).mpr fun first firstMoves =>
    ⟨side.permits _ _ (by simp) trivial, ?_⟩
  obtain ⟨firstSound, firstReads⟩ := side.reads firstMoves (sound memory holds)
  have written : ((channel first).exec capacity .loadWritten).1 =
      ((channel first).queue.written + ([] : List α).length) % (capacity * 2) :=
    (Nat.mod_eq_of_lt firstSound.valid.written_lt).symm
  have distanceLe := firstReads.distance_le
  rw [written]
  refine safe_fill lawful side stable stores sound values [] (stable firstMoves holds)
    (by rw [List.nil_append]; omega) rfl ?_
  intro second secondHolds writtenEq secondRoom segmentEq
  refine (safe_perform lawful (.storeWritten _)).mpr fun third thirdMoves => ?_
  obtain ⟨thirdSound, thirdReads⟩ := side.reads thirdMoves (sound second secondHolds)
  have thirdLe := thirdReads.distance_le
  rw [List.nil_append] at secondRoom segmentEq ⊢
  rw [← thirdReads.written_eq]
  have thirdRoom : distance capacity (channel third).queue.written
      (channel third).queue.read + values.length ≤ capacity := by omega
  refine done third (stable thirdMoves secondHolds) ?_ thirdRoom ?_
  · rw [thirdReads.written_eq, writtenEq, firstReads.written_eq]
  · rw [thirdReads.written_eq, thirdReads.cells_eq, segmentEq]

omit side in
/-- Publishing a batch: all values become unread at the one cursor store. -/
theorem safe_append (side : port.WriterSide capacity channel rely guar) (assertion : σ → Prop)
    {next : Unit → Program Resp β}
    (stable : ∀ {first last}, rely first last → assertion first → assertion last)
    (stores : ∀ memory index value, assertion memory →
      (channel memory).WriterPermits capacity (.storeCell index value) →
      assertion (exec (port.access (.storeCell index value)) memory).2)
    (sound : ∀ memory, assertion memory → (channel memory).Sound capacity)
    (values : List α) (holds : assertion memory)
    (room : distance capacity (channel memory).queue.written (channel memory).queue.read +
      values.length ≤ capacity)
    (done : ∀ current, assertion current →
      (channel current).queue.written = (channel memory).queue.written →
      distance capacity (channel current).queue.written (channel current).queue.read +
        values.length ≤ capacity →
      Queue.segment capacity (channel current).queue.cells (channel current).queue.written
        values.length = values →
      (next ()).Safe exec rely guar post (exec (port.access (.storeWritten
        (((channel current).queue.written + values.length) % (capacity * 2)))) current).2) :
    (port.append capacity values >>= next).Safe exec rely guar post memory :=
  safe_append_promised lawful side.filler assertion stable stores sound values holds room
    fun current currentHolds writtenEq currentRoom segmentEq =>
      ⟨side.permits _ _ ⟨_, rfl, currentRoom⟩,
        done current currentHolds writtenEq currentRoom segmentEq⟩

end Writer

end Port

end TwoLapQueue
