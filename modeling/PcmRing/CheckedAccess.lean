import Mathlib.Logic.Function.Basic

/-!
# Checked accesses

Indexing, subtraction and remainders with the checks of a compiled program:
`none` is where it would stop.  A buffer is a function of the index together
with its length.
-/

namespace CheckedAccess

variable {α σ : Type}

/-- `buffer[index]` -/
def read (length : Nat) (buffer : Nat → α) (index : Nat) : Option α :=
  if index < length then some (buffer index) else none

/-- `buffer[index] = value` -/
def write (length : Nat) (buffer : Nat → α) (index : Nat) (value : α) : Option (Nat → α) :=
  if index < length then some (Function.update buffer index value) else none

/-- `count - less` -/
def subtract (count less : Nat) : Option Nat :=
  if less ≤ count then some (count - less) else none

/-- `count % modulus` -/
def remainder (count modulus : Nat) : Option Nat :=
  if 0 < modulus then some (count % modulus) else none

/-- A whole buffer of checked values. -/
def gather [Zero α] (length : Nat) (value : Nat → Option α) : Option (Nat → α) :=
  if ∀ index < length, (value index).isSome then some fun index => (value index).getD 0
  else none

/-- `target[..count].copy_from_slice(&source[start..])` -/
def copySlice (targetLength : Nat) (target : Nat → α) (count : Nat) (sourceLength : Nat)
    (source : Nat → α) (start : Nat) : Option (Nat → α) :=
  if count ≤ targetLength ∧ start ≤ sourceLength ∧ sourceLength - start = count then
    some fun index => if index < count then source (start + index) else target index
  else none

/-- A `for` loop over `0..count` whose body may stop. -/
def loop (count : Nat) (body : Nat → σ → Option σ) (state : σ) : Option σ :=
  (List.range count).foldlM (fun current index => body index current) state

theorem bind_eq {β : Type} {checked : Option α} {next : α → Option β} {value : α} {result : β}
    (first : checked = some value) (second : next value = some result) :
    (checked >>= next) = some result := by
  rw [first]
  exact second

theorem read_eq {length index : Nat} {buffer : Nat → α} (inside : index < length) :
    read length buffer index = some (buffer index) :=
  if_pos inside

theorem write_eq {length index : Nat} {buffer : Nat → α} {value : α} (inside : index < length) :
    write length buffer index value = some (Function.update buffer index value) :=
  if_pos inside

theorem subtract_eq {count less : Nat} (le : less ≤ count) :
    subtract count less = some (count - less) :=
  if_pos le

theorem remainder_eq {count modulus : Nat} (positive : 0 < modulus) :
    remainder count modulus = some (count % modulus) :=
  if_pos positive

theorem gather_eq [Zero α] {length : Nat} {value : Nat → Option α} {buffer : Nat → α}
    (values : ∀ index, value index = some (buffer index)) :
    gather length value = some buffer := by
  simp [gather, values]

theorem copySlice_eq {targetLength count sourceLength start : Nat} {target source : Nat → α}
    (fits : count ≤ targetLength) (inside : start ≤ sourceLength)
    (lengths : sourceLength - start = count) :
    copySlice targetLength target count sourceLength source start =
      some fun index => if index < count then source (start + index) else target index :=
  if_pos ⟨fits, inside, lengths⟩

theorem foldlM_eq {β : Type} {items : List β} {checked : σ → β → Option σ} {step : σ → β → σ}
    (turn : ∀ item ∈ items, ∀ state, checked state item = some (step state item)) (state : σ) :
    items.foldlM checked state = some (items.foldl step state) := by
  induction items generalizing state with
  | nil => rfl
  | cons item items ih =>
      exact bind_eq (turn item List.mem_cons_self state)
        (ih (fun other member => turn other (List.mem_cons_of_mem _ member)) _)

/-- A loop whose body never stops is the loop over what the body computes, and
what one turn keeps the loop keeps. -/
theorem loop_eq {count : Nat} {checked : Nat → σ → Option σ} {body : Nat → σ → σ}
    (inv : σ → Prop)
    (turn : ∀ index state, index < count → inv state →
      checked index state = some (body index state) ∧ inv (body index state))
    {state : σ} (start : inv state) :
    loop count checked state =
        some ((List.range count).foldl (fun current index => body index current) state) ∧
      inv ((List.range count).foldl (fun current index => body index current) state) := by
  induction count with
  | zero => exact ⟨rfl, start⟩
  | succ count ih =>
      obtain ⟨loopEq, holds⟩ := ih fun index state lt => turn index state (Nat.lt_succ_of_lt lt)
      obtain ⟨bodyEq, kept⟩ := turn count _ (Nat.lt_succ_self count) holds
      simp only [loop] at loopEq
      simp only [loop, List.range_succ, List.foldlM_append, List.foldl_append, loopEq]
      exact ⟨by simpa using bodyEq, kept⟩

end CheckedAccess
