import Mathlib.Logic.Function.Basic

/-!
# Circular histories

A buffer written in turn holds its last writes, the newest at age zero.  A
write makes every other cell one older and forgets the oldest.
-/

namespace CircularHistory

variable {α : Type}

/-- The cell that was written `age` writes before the last one. -/
def cell (length cursor age : Nat) : Nat :=
  (cursor + (length - 1 - age)) % length

/-- What was written `age` writes before the last one. -/
def held (cells : Nat → α) (length cursor age : Nat) : α :=
  cells (cell length cursor age)

theorem wrap_eq {length index : Nat} (turn : index < 2 * length) :
    index % length = if index < length then index else index - length := by
  split
  · rename_i below
    exact Nat.mod_eq_of_lt below
  · rename_i beyond
    rw [Nat.mod_eq_sub_mod (Nat.not_lt.mp beyond), Nat.mod_eq_of_lt (by omega)]

theorem cell_eq {length cursor age : Nat} (cursor_lt : cursor < length) (age_lt : age < length) :
    cell length cursor age =
      if age < cursor then cursor - 1 - age else cursor + length - 1 - age := by
  unfold cell
  rw [wrap_eq (by omega)]
  split <;> split <;> omega

theorem cell_inj {length cursor first second : Nat} (cursor_lt : cursor < length)
    (first_lt : first < length) (second_lt : second < length) :
    cell length cursor first = cell length cursor second ↔ first = second := by
  rw [cell_eq cursor_lt first_lt, cell_eq cursor_lt second_lt]
  split <;> split <;> omega

/-- The cell that the next write replaces holds the oldest write. -/
theorem cell_oldest {length cursor : Nat} (cursor_lt : cursor < length) :
    cell length cursor (length - 1) = cursor := by
  rw [cell_eq cursor_lt (by omega)]
  split <;> omega

theorem cell_next_zero {length cursor : Nat} (cursor_lt : cursor < length) :
    cell length ((cursor + 1) % length) 0 = cursor := by
  have next_lt : (cursor + 1) % length < length := Nat.mod_lt _ (by omega)
  rw [cell_eq next_lt (by omega), wrap_eq (by omega)]
  split <;> split <;> omega

theorem cell_next_succ {length cursor age : Nat} (cursor_lt : cursor < length)
    (age_lt : age + 1 < length) :
    cell length ((cursor + 1) % length) (age + 1) = cell length cursor age := by
  have next_lt : (cursor + 1) % length < length := Nat.mod_lt _ (by omega)
  rw [cell_eq next_lt age_lt, cell_eq cursor_lt (by omega), wrap_eq (by omega)]
  split <;> split <;> split <;> omega

/-- The last write is the newest. -/
theorem held_write_zero (cells : Nat → α) {length cursor : Nat} (cursor_lt : cursor < length)
    (value : α) :
    held (Function.update cells cursor value) length ((cursor + 1) % length) 0 = value := by
  unfold held
  rw [cell_next_zero cursor_lt, Function.update_self]

/-- Every other write is one older. -/
theorem held_write_succ (cells : Nat → α) {length cursor age : Nat} (cursor_lt : cursor < length)
    (age_lt : age + 1 < length) (value : α) :
    held (Function.update cells cursor value) length ((cursor + 1) % length) (age + 1) =
      held cells length cursor age := by
  unfold held
  rw [cell_next_succ cursor_lt age_lt]
  refine Function.update_of_ne (fun same => ?_) _ _
  have oldest := same.trans (cell_oldest cursor_lt).symm
  rw [cell_inj cursor_lt (by omega) (by omega)] at oldest
  omega

/-- The cell `count` places before the cursor was written that many writes ago. -/
theorem cell_before {length count : Nat} (cursor : Nat) (positive : 0 < count)
    (count_le : count ≤ length) :
    (cursor + length - count) % length = cell length cursor (count - 1) := by
  unfold cell
  congr 1
  omega

theorem held_rewrite (cells : Nat → α) {length cursor age other : Nat} (cursor_lt : cursor < length)
    (age_lt : age < length) (other_lt : other < length) (different : age ≠ other) (value : α) :
    held (Function.update cells (cell length cursor other) value) length cursor age =
      held cells length cursor age :=
  Function.update_of_ne (fun same => different ((cell_inj cursor_lt age_lt other_lt).mp same)) _ _

end CircularHistory
