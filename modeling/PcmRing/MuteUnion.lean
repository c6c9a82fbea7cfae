import PcmRing.MuteHistory
import Mathlib.Data.Set.Basic

/-!
# Exact bounded unions

A mute history stands for a set of generations and positions.  Whatever it was
told before, an insertion adds exactly one interval to the set or finds it
full, and a lookup asks whether the set meets the support of a position.
-/

namespace PcmRing

/-- The positions of an interval, each with its generation. -/
def Interval.positions (interval : Interval) : Set (Nat × Nat) :=
  {place | place.1 = interval.generation ∧ interval.span.start ≤ place.2 ∧
    place.2 < interval.span.stop}

theorem Interval.meets_iff (interval : Interval) (position : Position) :
    interval.Meets position ↔ ∃ place, position.low ≤ place ∧ place ≤ position.high ∧
      (position.generation, place) ∈ interval.positions := by
  have nonempty := interval.nonempty
  have ordered := position.ordered
  constructor
  · rintro ⟨generationEq, starts, stops⟩
    exact ⟨max position.low interval.span.start, by omega, by omega, generationEq.symm,
      by dsimp only; omega, by dsimp only; omega⟩
  · rintro ⟨place, low, high, generationEq, starts, stops⟩
    dsimp only at generationEq starts stops
    exact ⟨generationEq.symm, by omega, by omega⟩

namespace History

/-- The set a history stands for. -/
def positions (history : History) : Set (Nat × Nat) :=
  {place | ∃ entry ∈ history.entries, place ∈ entry.positions}

/-- What a history is told. -/
inductive Call where
  | insert (interval : Interval)
  | retire (position : Option Position)
  | clear

/-- Carry out one call. -/
def apply (history : History) : Call → History
  | .insert interval => (history.insert interval).2
  | .retire position => history.retire position
  | .clear => history.clear

/-- Carry out calls in order. -/
def applyAll (calls : List Call) (history : History) : History :=
  calls.foldl apply history

/-- A call that cannot tell two histories apart: an insertion that finds room in
both or in neither, or a retirement of the one generation. -/
def Parallel (generation : Nat) (history other : History) : Call → Prop
  | .insert interval => (other.insert interval).1 = (history.insert interval).1
  | .retire position => ∀ last ∈ position, last.generation = generation
  | .clear => True

/-- Calls that are all so when their turn comes. -/
def ParallelAll (generation : Nat) : List Call → History → History → Prop
  | [], _, _ => True
  | call :: rest, history, other =>
      Parallel generation history other call ∧
        ParallelAll generation rest (history.apply call) (other.apply call)

variable {history other : History} {interval : Interval} {position : Position}

/-- A support is met where the set reaches into it. -/
theorem meets_iff : history.Meets position ↔ ∃ place, position.low ≤ place ∧
    place ≤ position.high ∧ (position.generation, place) ∈ history.positions := by
  unfold History.Meets
  simp only [Interval.meets_iff]
  constructor
  · rintro ⟨entry, member, place, low, high, inside⟩
    exact ⟨place, low, high, entry, member, inside⟩
  · rintro ⟨place, low, high, entry, member, inside⟩
    exact ⟨entry, member, place, low, high, inside⟩

/-- A place is in the set when the history meets the support around it alone. -/
theorem mem_positions_iff (place : Nat × Nat) :
    place ∈ history.positions ↔ history.Meets ⟨place.1, place.2, place.2, Nat.le_refl _⟩ := by
  rw [meets_iff]
  constructor
  · exact fun inside => ⟨place.2, Nat.le_refl _, Nat.le_refl _, inside⟩
  · rintro ⟨same, low, high, inside⟩
    obtain rfl := Nat.le_antisymm high low
    exact inside

theorem positions_insert (inserted : (history.insert interval).1 = true) :
    (history.insert interval).2.positions = history.positions ∪ interval.positions := by
  ext place
  rw [Set.mem_union, mem_positions_iff, mem_positions_iff, meets_insert inserted, or_comm,
    Interval.meets_iff]
  refine or_congr_right ⟨?_, fun inside => ⟨place.2, Nat.le_refl _, Nat.le_refl _, inside⟩⟩
  rintro ⟨same, low, high, inside⟩
  obtain rfl := Nat.le_antisymm high low
  exact inside

theorem untouched_of_absorb {entries : List Interval}
    (kept : (absorb interval entries).2.length = entries.length) :
    ∀ entry ∈ entries, ¬Touches entry interval := by
  induction entries with
  | nil => exact fun _ member => (List.not_mem_nil member).elim
  | cons entry rest ih =>
      unfold absorb at kept
      split at kept
      · -- An absorbed entry is missing.
        have shorter : (absorb (join entry interval) rest).2.length ≤ rest.length :=
          (absorb_sublist rest).length_le
        rw [List.length_cons] at kept
        omega
      · rename_i separate
        refine List.forall_mem_cons.mpr ⟨separate, ih ?_⟩
        simpa using kept

/-- An insertion fails when every reserved entry is used and none is touched,
and then changes nothing. -/
theorem insert_failed (bounded : history.entries.length ≤ history.capacity)
    (failed : (history.insert interval).1 = false) :
    (history.insert interval).2 = history ∧ history.entries.length = history.capacity ∧
      ∀ entry ∈ history.entries, ¬Touches entry interval := by
  have shorter : (absorb interval history.entries).2.Sublist history.entries :=
    absorb_sublist history.entries
  have full : (absorb interval history.entries).2.length = history.capacity := by
    unfold History.insert at failed
    dsimp only at failed
    by_contra room
    rw [if_neg room] at failed
    cases failed
  have same : (absorb interval history.entries).2 = history.entries :=
    shorter.eq_of_length_le (by omega)
  have length := congrArg List.length same
  refine ⟨?_, length ▸ full, untouched_of_absorb length⟩
  unfold History.insert
  dsimp only
  rw [if_pos full, same]

/-- Apart, in order, and within the reserved entries. -/
structure Sound (capacity : Nat) (history : History) : Prop where
  ordered : history.Ordered
  capacity_eq : history.capacity = capacity
  bounded : history.entries.length ≤ capacity

theorem Sound.apply {capacity : Nat} (sound : history.Sound capacity) (call : Call) :
    (history.apply call).Sound capacity := by
  obtain ⟨ordered, rfl, bounded⟩ := sound
  cases call with
  | insert interval =>
      refine ⟨ordered.insert interval, ?_, ?_⟩
      · unfold History.apply History.insert
        dsimp only
        split <;> rfl
      · rcases Bool.eq_false_or_eq_true (history.insert interval).1 with inserted | failed
        · unfold History.insert at inserted
          dsimp only at inserted
          split at inserted
          · cases inserted
          rename_i room
          have shorter : (absorb interval history.entries).2.length ≤ history.entries.length :=
            (absorb_sublist history.entries).length_le
          have split := congrArg List.length (preceding_append_following
            (absorb interval history.entries).2 (absorb interval history.entries).1.generation
            (absorb interval history.entries).1.span.start)
          unfold History.apply History.insert
          dsimp only
          rw [if_neg room]
          rw [List.length_append] at split
          simp only [List.length_append, List.length_cons]
          omega
        · unfold History.apply
          dsimp only
          rw [(insert_failed bounded failed).1]
          exact bounded
  | retire position =>
      refine ⟨ordered.retire position, ?_, ?_⟩
      · cases position <;> rfl
      · cases position with
        | none => exact bounded
        | some position => exact Nat.le_trans (List.dropWhile_sublist _).length_le bounded
  | clear => exact ⟨ordered_clear, rfl, Nat.zero_le _⟩

theorem Sound.applyAll {capacity : Nat} (sound : history.Sound capacity) (calls : List Call) :
    (history.applyAll calls).Sound capacity := by
  induction calls generalizing history with
  | nil => exact sound
  | cons call rest ih => exact ih (sound.apply call)

theorem sound_applyAll (capacity : Nat) (calls : List Call) :
    ((History.new capacity).applyAll calls).Sound capacity :=
  Sound.applyAll ⟨ordered_new capacity, rfl, Nat.zero_le _⟩ calls

/-- Behind the first entry that stays, every entry of the generation ends behind
the retired position. -/
theorem behind_of_mem_retire {entries : List Interval} (apart : entries.Pairwise Apart)
    {last : Position} {entry : Interval}
    (member : entry ∈ entries.dropWhile fun interval =>
      interval.generation ≠ last.generation ∨ interval.span.stop ≤ last.low)
    (generation : entry.generation = last.generation) : last.low < entry.span.stop := by
  induction entries with
  | nil => cases member
  | cons first rest ih =>
      obtain ⟨beforeRest, apartRest⟩ := List.pairwise_cons.mp apart
      by_cases gone : first.generation ≠ last.generation ∨ first.span.stop ≤ last.low
      · rw [List.dropWhile_cons_of_pos (by simpa using gone)] at member
        exact ih apartRest member
      · rw [List.dropWhile_cons_of_neg (by simpa using gone)] at member
        rcases List.mem_cons.mp member with rfl | later
        · omega
        · have gap := beforeRest entry later
          have nonempty := entry.nonempty
          unfold Apart at gap
          omega

theorem stop_not_mem (ordered : history.Ordered) {entry : Interval}
    (member : entry ∈ history.entries) :
    (entry.generation, entry.span.stop) ∉ history.positions := by
  rintro ⟨reaching, member', generation, starts, stops⟩
  dsimp only at generation starts stops
  have nonempty := entry.nonempty
  have gap : entry = reaching ∨ Apart entry reaching ∨ Apart reaching entry := by
    have apart : history.entries.Pairwise fun first second =>
        first = second ∨ Apart first second ∨ Apart second first :=
      ordered.imp fun gap => .inr (.inl gap)
    refine List.Pairwise.forall_of_forall_of_flip (fun _ _ => .inl rfl) apart ?_ member member'
    exact ordered.imp fun gap => .inr (.inr gap)
  unfold Apart at gap
  rcases gap with rfl | gap
  · omega
  · omega

/-- Retiring keeps the places from which the set reaches the retired position. -/
theorem mem_positions_retire (ordered : history.Ordered) (last : Position) (place : Nat) :
    (last.generation, place) ∈ (history.retire (some last)).positions ↔
      ∀ reached, place ≤ reached → reached ≤ max place last.low →
        (last.generation, reached) ∈ history.positions := by
  constructor
  · rintro ⟨entry, member, generation, starts, stops⟩ reached starts' ends
    dsimp only at generation starts stops
    have behind := behind_of_mem_retire ordered member generation.symm
    exact ⟨entry, (List.dropWhile_sublist _).subset member, generation,
      by dsimp only; omega, by dsimp only; omega⟩
  · intro reaches
    obtain ⟨entry, member, generation, starts, stops⟩ :=
      reaches place (Nat.le_refl _) (Nat.le_max_left _ _)
    dsimp only at generation starts stops
    refine ⟨entry, mem_retire member generation.symm ?_, generation, starts, stops⟩
    -- An entry that ends before the position leaves a hole on the way.
    by_contra before
    have hole := reaches entry.span.stop (by omega) (by omega)
    rw [generation] at hole
    exact stop_not_mem ordered member hole

/-- The two histories mute the same positions of a generation from `low` on. -/
def AgreeFrom (generation low : Nat) (history other : History) : Prop :=
  ∀ place, low ≤ place →
    ((generation, place) ∈ other.positions ↔ (generation, place) ∈ history.positions)

theorem agreeFrom_retire (history : History) (position : Position) :
    AgreeFrom position.generation position.low history (history.retire (some position)) := by
  intro place behind
  constructor
  · rintro ⟨entry, member, inside⟩
    exact ⟨entry, (List.dropWhile_sublist _).subset member, inside⟩
  · intro inside
    rw [mem_positions_iff] at inside ⊢
    exact inside.retire rfl behind

section Parallel

variable {generation low capacity : Nat}

/-- A retirement of the generation looks at nothing before the place it keeps. -/
theorem AgreeFrom.retire (agree : AgreeFrom generation low history other)
    (ordered : history.Ordered) (ordered' : other.Ordered) (position : Option Position)
    (same : ∀ last ∈ position, last.generation = generation) :
    AgreeFrom generation low (history.retire position) (other.retire position) := by
  cases position with
  | none => exact agree
  | some last =>
      obtain rfl := same last rfl
      intro place behind
      rw [mem_positions_retire ordered, mem_positions_retire ordered']
      exact forall_congr' fun reached => imp_congr_right fun starts =>
        imp_congr_right fun _ => agree reached (Nat.le_trans behind starts)

theorem AgreeFrom.apply (agree : AgreeFrom generation low history other)
    (sound : history.Sound capacity) (sound' : other.Sound capacity) (call : Call)
    (parallel : Parallel generation history other call) :
    AgreeFrom generation low (history.apply call) (other.apply call) := by
  cases call with
  | insert interval =>
      intro place behind
      have same : (other.insert interval).1 = (history.insert interval).1 := parallel
      unfold History.apply
      dsimp only
      cases inserted : (history.insert interval).1 with
      | true =>
          rw [positions_insert inserted, positions_insert (same.trans inserted), Set.mem_union,
            Set.mem_union, agree place behind]
      | false =>
          rw [(insert_failed (sound.capacity_eq ▸ sound.bounded) inserted).1,
            (insert_failed (sound'.capacity_eq ▸ sound'.bounded) (same.trans inserted)).1]
          exact agree place behind
  | retire position => exact agree.retire sound.ordered sound'.ordered position parallel
  | clear => exact fun _ _ => Iff.rfl

theorem AgreeFrom.applyAll (agree : AgreeFrom generation low history other)
    (sound : history.Sound capacity) (sound' : other.Sound capacity) (calls : List Call)
    (parallel : ParallelAll generation calls history other) :
    AgreeFrom generation low (history.applyAll calls) (other.applyAll calls) := by
  induction calls generalizing history other with
  | nil => exact agree
  | cons call rest ih =>
      exact ih (agree.apply sound sound' call parallel.1) (sound.apply call) (sound'.apply call)
        parallel.2

end Parallel

/-- Histories that agree on a support look it up alike. -/
theorem AgreeFrom.muted_eq (ordered : history.Ordered) (ordered' : other.Ordered) {low : Nat}
    (agree : AgreeFrom position.generation low history other) (behind : low ≤ position.low) :
    other.muted (some position) = history.muted (some position) := by
  refine Bool.eq_iff_iff.mpr ?_
  rw [muted_iff ordered, muted_iff ordered', meets_iff, meets_iff]
  refine exists_congr fun place => and_congr_right fun lower => and_congr_right fun _ => ?_
  exact agree place (Nat.le_trans behind lower)

end History

end PcmRing
