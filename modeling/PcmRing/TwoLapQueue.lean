import PcmRing.RelyGuarantee
import Mathlib.Data.Int.ModEq
import Mathlib.Data.Nat.ModEq

/-!
# Bounded queues with two-lap cursors

One writer and one reader share an array of `capacity` cells and two cursors
that wrap at twice the capacity, so a full queue and an empty one have
different distances while cell indices stay aligned across a wrap.  The
methods are programs of single cursor loads, cell accesses and cursor stores,
over any host memory that contains such a queue.  A log of what was published
and consumed relates the cursors to the history of the queue.
-/

namespace TwoLapQueue

open AtomicProgram

/-- The cells and both cursors. -/
structure Queue (α : Type) where
  cells : Nat → α
  written : Nat
  read : Nat

/-- Forward distance between cursors that wrap at twice the capacity. -/
def distance (capacity written read : Nat) : Nat :=
  (written + capacity * 2 - read) % (capacity * 2)

/-- The single accesses of a queue.  A reset's load of `written` and its store
of `read` are named apart from a take's, and a take's store carries the value
it hands out, so that a log can tell the two apart; the memory cannot. -/
inductive QueueAccess (α : Type) : Type where
  | loadWritten
  | snapshotWritten
  | loadRead
  | loadCell (index : Nat)
  | storeCell (index : Nat) (value : α)
  | storeWritten (cursor : Nat)
  | advanceRead (cursor : Nat) (value : α)
  | discardTo (cursor : Nat)

namespace QueueAccess

variable {α : Type}

@[reducible]
def Resp : QueueAccess α → Type
  | loadWritten | snapshotWritten | loadRead => Nat
  | loadCell _ => α
  | storeCell .. | storeWritten _ | advanceRead .. | discardTo _ => Unit

/-- What each access answers and what it changes. -/
def exec : (access : QueueAccess α) → Queue α → access.Resp × Queue α
  | loadWritten, queue => (queue.written, queue)
  | snapshotWritten, queue => (queue.written, queue)
  | loadRead, queue => (queue.read, queue)
  | loadCell index, queue => (queue.cells index, queue)
  | storeCell index value, queue =>
      ((), { queue with cells := Function.update queue.cells index value })
  | storeWritten cursor, queue => ((), { queue with written := cursor })
  | advanceRead cursor _, queue => ((), { queue with read := cursor })
  | discardTo cursor, queue => ((), { queue with read := cursor })

/-- The accesses that only answer. -/
def IsLoad : QueueAccess α → Prop
  | loadWritten | loadRead | loadCell _ => True
  | _ => False

end QueueAccess

/-- Moving a cursor forward by less than two laps moves it that far. -/
theorem distance_advance {capacity read count : Nat} (readLt : read < capacity * 2)
    (countLt : count < capacity * 2) :
    distance capacity ((read + count) % (capacity * 2)) read = count := by
  unfold distance
  by_cases wraps : read + count < capacity * 2
  · rw [Nat.mod_eq_of_lt wraps, show read + count + capacity * 2 - read =
      count + capacity * 2 by omega, Nat.add_mod_right, Nat.mod_eq_of_lt countLt]
  · rw [show read + count = (read + count - capacity * 2) + capacity * 2 by omega,
      Nat.add_mod_right, Nat.mod_eq_of_lt (by omega : read + count - capacity * 2 < capacity * 2),
      show read + count - capacity * 2 + capacity * 2 - read = count by omega,
      Nat.mod_eq_of_lt countLt]

theorem advance_distance {capacity written read : Nat}
    (writtenLt : written < capacity * 2) (readLt : read < capacity * 2) :
    (read + distance capacity written read) % (capacity * 2) = written := by
  unfold distance
  by_cases ahead : read ≤ written
  · rw [show written + capacity * 2 - read = (written - read) + capacity * 2 by omega,
      Nat.add_mod_right, Nat.mod_eq_of_lt (by omega : written - read < capacity * 2),
      show read + (written - read) = written by omega, Nat.mod_eq_of_lt writtenLt]
  · rw [Nat.mod_eq_of_lt (by omega : written + capacity * 2 - read < capacity * 2),
      show read + (written + capacity * 2 - read) = written + capacity * 2 by omega,
      Nat.add_mod_right, Nat.mod_eq_of_lt writtenLt]

theorem distance_eq_zero {capacity written read : Nat}
    (writtenLt : written < capacity * 2) (readLt : read < capacity * 2) :
    distance capacity written read = 0 ↔ read = written := by
  constructor
  · intro zero
    have reached := advance_distance writtenLt readLt
    rwa [zero, Nat.add_zero, Nat.mod_eq_of_lt readLt] at reached
  · rintro rfl
    unfold distance
    rw [Nat.add_sub_cancel_left, Nat.mod_self]

/-- Cell indices stay aligned when a cursor wraps. -/
theorem cursor_mod (capacity cursor count : Nat) :
    (cursor % (capacity * 2) + count) % capacity = (cursor + count) % capacity := by
  rw [Nat.add_mod, Nat.mod_mod_of_dvd _ (Dvd.intro _ rfl), ← Nat.add_mod]

theorem index_ne {capacity cursor first second : Nat} (order : first < second)
    (near : second < first + capacity) :
    (cursor + first) % capacity ≠ (cursor + second) % capacity := by
  intro equal
  have divides : capacity ∣ (cursor + second) - (cursor + first) :=
    (Nat.modEq_iff_dvd' (by omega)).mp equal
  have := Nat.le_of_dvd (by omega) divides
  omega

namespace Queue

variable {α : Type} {capacity : Nat} {queue : Queue α}

/-- `count` consecutive cells from a cursor, wrapping at the capacity. -/
def segment (capacity : Nat) (cells : Nat → α) (cursor count : Nat) : List α :=
  (List.range count).map fun offset => cells ((cursor + offset) % capacity)

@[simp]
theorem segment_length (cells : Nat → α) (cursor count : Nat) :
    (segment capacity cells cursor count).length = count := by
  simp [segment]

theorem segment_succ (cells : Nat → α) (cursor count : Nat) :
    segment capacity cells cursor (count + 1) =
      cells (cursor % capacity) ::
        segment capacity cells ((cursor + 1) % (capacity * 2)) count := by
  simp only [segment, List.range_succ_eq_map, List.map_cons, List.map_map, Nat.add_zero,
    Function.comp_def, cursor_mod]
  congr 2
  funext offset
  congr 2
  omega

theorem segment_add (cells : Nat → α) (cursor first second : Nat) :
    segment capacity cells cursor (first + second) =
      segment capacity cells cursor first ++
        segment capacity cells ((cursor + first) % (capacity * 2)) second := by
  induction first generalizing cursor with
  | zero => simp [segment, cursor_mod]
  | succ first ih =>
      rw [Nat.succ_add, segment_succ, ih, segment_succ, List.cons_append]
      congr 3
      rw [Nat.add_mod, Nat.mod_mod, ← Nat.add_mod]
      congr 1
      omega

theorem segment_update (cells : Nat → α) (cursor count index : Nat) (value : α)
    (outside : ∀ offset < count, (cursor + offset) % capacity ≠ index) :
    segment capacity (Function.update cells index value) cursor count =
      segment capacity cells cursor count := by
  refine List.map_congr_left fun offset member => ?_
  exact Function.update_of_ne (outside offset (List.mem_range.mp member)) _ _

/-- The published cells that no take or reset has passed yet, oldest first. -/
def unread (capacity : Nat) (queue : Queue α) : List α :=
  segment capacity queue.cells queue.read (distance capacity queue.written queue.read)

/-- Both cursors are in their two laps and at most one lap apart. -/
structure Valid (capacity : Nat) (queue : Queue α) : Prop where
  positive : 0 < capacity
  written_lt : queue.written < capacity * 2
  read_lt : queue.read < capacity * 2
  distance_le : distance capacity queue.written queue.read ≤ capacity

@[simp]
theorem unread_length :
    (queue.unread capacity).length = distance capacity queue.written queue.read := by
  simp [unread]

theorem unread_eq_nil (valid : queue.Valid capacity) :
    queue.unread capacity = [] ↔ queue.read = queue.written := by
  rw [← List.length_eq_zero_iff, unread_length, distance_eq_zero valid.written_lt valid.read_lt]

/-- A queue whose writer is `count` cells ahead of its reader. -/
theorem unread_of_written {count : Nat} (readLt : queue.read < capacity * 2)
    (countLt : count < capacity * 2)
    (written : queue.written = (queue.read + count) % (capacity * 2)) :
    queue.unread capacity = segment capacity queue.cells queue.read count := by
  rw [unread, written, distance_advance readLt countLt]

theorem valid_of_written {count : Nat} (readLt : queue.read < capacity * 2)
    (positive : 0 < capacity) (countLe : count ≤ capacity)
    (written : queue.written = (queue.read + count) % (capacity * 2)) :
    queue.Valid capacity where
  positive := positive
  written_lt := written ▸ Nat.mod_lt _ (by omega)
  read_lt := readLt
  distance_le := by
    rw [written, distance_advance readLt (by omega)]
    exact countLe

theorem Valid.written_eq (valid : queue.Valid capacity) :
    queue.written =
      (queue.read + distance capacity queue.written queue.read) % (capacity * 2) :=
  (advance_distance valid.written_lt valid.read_lt).symm

/-- `read` moved forward, as a take or a reset moves it. -/
def forward (capacity count : Nat) (queue : Queue α) : Queue α :=
  { queue with read := (queue.read + count) % (capacity * 2) }

/-- `written` moved forward, as a publication moves it. -/
def publish (capacity count : Nat) (queue : Queue α) : Queue α :=
  { queue with written := (queue.written + count) % (capacity * 2) }

/-- One cell ahead of `written` overwritten. -/
def stage (capacity count : Nat) (value : α) (queue : Queue α) : Queue α :=
  { queue with
    cells := Function.update queue.cells ((queue.written + count) % capacity) value }

theorem written_of_forward {count : Nat} (valid : queue.Valid capacity)
    (countLe : count ≤ distance capacity queue.written queue.read) :
    queue.written = ((queue.read + count) % (capacity * 2) +
      (distance capacity queue.written queue.read - count)) % (capacity * 2) := by
  conv_lhs => rw [valid.written_eq]
  rw [Nat.add_mod ((queue.read + count) % (capacity * 2)), Nat.mod_mod, ← Nat.add_mod]
  congr 1
  omega

theorem valid_forward {count : Nat} (valid : queue.Valid capacity)
    (countLe : count ≤ distance capacity queue.written queue.read) :
    (queue.forward capacity count).Valid capacity := by
  have positive := valid.positive
  have distanceLe := valid.distance_le
  exact valid_of_written (Nat.mod_lt _ (by omega)) positive (by omega)
    (written_of_forward valid countLe)

/-- Moving `read` forward inside the published cells drops that many of them. -/
theorem unread_forward {count : Nat} (valid : queue.Valid capacity)
    (countLe : count ≤ distance capacity queue.written queue.read) :
    (queue.forward capacity count).unread capacity = (queue.unread capacity).drop count := by
  have positive := valid.positive
  have distanceLe := valid.distance_le
  have ahead : (queue.forward capacity count).unread capacity =
      segment capacity queue.cells ((queue.read + count) % (capacity * 2))
        (distance capacity queue.written queue.read - count) :=
    unread_of_written (Nat.mod_lt _ (by omega)) (by omega) (written_of_forward valid countLe)
  have whole : queue.unread capacity = segment capacity queue.cells queue.read count ++
      segment capacity queue.cells ((queue.read + count) % (capacity * 2))
        (distance capacity queue.written queue.read - count) := by
    rw [← segment_add, unread]
    congr 1
    omega
  rw [ahead, whole, List.drop_left' (segment_length ..)]

theorem unread_cons (valid : queue.Valid capacity)
    (distinct : queue.read ≠ queue.written) :
    ∃ rest, queue.unread capacity = queue.cells (queue.read % capacity) :: rest := by
  have nonzero : distance capacity queue.written queue.read ≠ 0 :=
    fun zero => distinct ((distance_eq_zero valid.written_lt valid.read_lt).mp zero)
  obtain ⟨count, countEq⟩ := Nat.exists_eq_succ_of_ne_zero nonzero
  exact ⟨_, by rw [unread, countEq, segment_succ]⟩

theorem written_of_publish {count : Nat} (valid : queue.Valid capacity) :
    (queue.written + count) % (capacity * 2) =
      (queue.read + (distance capacity queue.written queue.read + count)) %
        (capacity * 2) := by
  conv_lhs => rw [valid.written_eq]
  rw [Nat.add_mod, Nat.mod_mod, ← Nat.add_mod, Nat.add_assoc]

theorem valid_publish {count : Nat} (valid : queue.Valid capacity)
    (room : distance capacity queue.written queue.read + count ≤ capacity) :
    (queue.publish capacity count).Valid capacity :=
  valid_of_written valid.read_lt valid.positive room (written_of_publish valid)

/-- Moving `written` forward publishes the cells it passes, in order. -/
theorem unread_publish {count : Nat} (valid : queue.Valid capacity)
    (room : distance capacity queue.written queue.read + count ≤ capacity) :
    (queue.publish capacity count).unread capacity =
      queue.unread capacity ++ segment capacity queue.cells queue.written count := by
  have positive := valid.positive
  have ahead : (queue.publish capacity count).unread capacity =
      segment capacity queue.cells queue.read
        (distance capacity queue.written queue.read + count) :=
    unread_of_written valid.read_lt (by omega) (written_of_publish valid)
  rw [ahead, segment_add, advance_distance valid.written_lt valid.read_lt, unread]

theorem valid_stage {count : Nat} {value : α} (valid : queue.Valid capacity) :
    (queue.stage capacity count value).Valid capacity :=
  ⟨valid.positive, valid.written_lt, valid.read_lt, valid.distance_le⟩

/-- A cell ahead of `written` and within one lap of `read` holds nothing unread. -/
theorem stage_index_ne (queue : Queue α) {count offset : Nat} (valid : queue.Valid capacity)
    (room : distance capacity queue.written queue.read + count < capacity)
    (offsetLt : offset < distance capacity queue.written queue.read) :
    (queue.read + offset) % capacity ≠ (queue.written + count) % capacity := by
  rw [valid.written_eq, cursor_mod, Nat.add_assoc]
  exact index_ne (by omega) (by omega)

theorem unread_stage {count : Nat} {value : α} (valid : queue.Valid capacity)
    (room : distance capacity queue.written queue.read + count < capacity) :
    (queue.stage capacity count value).unread capacity = queue.unread capacity := by
  refine segment_update _ _ _ _ _ fun offset offsetLt => ?_
  exact queue.stage_index_ne valid room offsetLt

/-- A staged cell extends the cells a publication would pass. -/
theorem segment_fill (cells : Nat → α) (cursor count : Nat) (value : α)
    (room : count < capacity) :
    segment capacity (Function.update cells ((cursor + count) % capacity) value) cursor
        (count + 1) = segment capacity cells cursor count ++ [value] := by
  rw [segment_add, segment_update _ _ _ _ _ fun offset offsetLt => index_ne offsetLt (by omega)]
  simp [segment, cursor_mod]

end Queue

end TwoLapQueue
