import PcmRing.SourceMute
import Mathlib.Data.List.TakeWhile

/-!
# The union a mute history stands for

A history mutes a position exactly when one of the intervals merged into it
meets the position's support.  Merging keeps the entries apart and in order, so
the last entry that starts early enough decides.
-/

namespace PcmRing

/-- The interval reaches into the support of a position. -/
def Interval.Meets (interval : Interval) (position : Position) : Prop :=
  interval.generation = position.generation ∧ interval.span.start ≤ position.high ∧
    position.low < interval.span.stop

instance (interval : Interval) (position : Position) : Decidable (interval.Meets position) :=
  inferInstanceAs (Decidable (_ ∧ _ ∧ _))

namespace History

/-- Some entry reaches into the support of a position. -/
def Meets (history : History) (position : Position) : Prop :=
  ∃ interval ∈ history.entries, interval.Meets position

variable {history : History} {interval other : Interval} {position : Position}

/-- Nothing lies between two intervals that touch. -/
theorem meets_join (touches : Touches other interval) :
    (join other interval).Meets position ↔ interval.Meets position ∨ other.Meets position := by
  obtain ⟨sameGeneration, startLe, stopGe⟩ := touches
  have ordered := position.ordered
  unfold Interval.Meets join
  dsimp only
  rw [sameGeneration]
  constructor
  · rintro ⟨generationEq, starts, stops⟩
    rw [min_le_iff] at starts
    rw [lt_max_iff] at stops
    by_cases inside : interval.span.start ≤ position.high ∧ position.low < interval.span.stop
    · exact .inl ⟨generationEq, inside⟩
    · exact .inr ⟨generationEq, by omega, by omega⟩
  · rintro (⟨generationEq, starts, stops⟩ | ⟨generationEq, starts, stops⟩)
    · exact ⟨generationEq, min_le_of_left_le starts, lt_max_of_lt_left stops⟩
    · exact ⟨generationEq, min_le_of_right_le starts, lt_max_of_lt_right stops⟩

theorem meets_absorb (entries : List Interval) :
    ((absorb interval entries).1.Meets position ∨
      ∃ kept ∈ (absorb interval entries).2, kept.Meets position) ↔
    (interval.Meets position ∨ ∃ entry ∈ entries, entry.Meets position) := by
  induction entries generalizing interval with
  | nil => rfl
  | cons entry rest ih =>
      unfold absorb
      split
      · rename_i touches
        rw [ih, meets_join touches]
        simp [or_assoc]
      · simp only [List.mem_cons, exists_eq_or_imp]
        rw [or_left_comm, ih, or_left_comm]

/-- Inserting an interval never mutes more than the interval and the history. -/
theorem meets_of_insert (met : (history.insert interval).2.Meets position) :
    interval.Meets position ∨ history.Meets position := by
  refine (meets_absorb history.entries).mp ?_
  unfold insert at met
  dsimp only at met
  split at met
  · exact .inr met
  · obtain ⟨entry, member, meets⟩ := met
    rcases List.mem_append.mp member with before | after
    · exact .inr ⟨entry, (List.takeWhile_sublist _).subset before, meets⟩
    · rcases List.mem_cons.mp after with rfl | after
      · exact .inl meets
      · exact .inr ⟨entry, (List.dropWhile_sublist _).subset after, meets⟩

theorem meets_insert (inserted : (history.insert interval).1 = true) :
    (history.insert interval).2.Meets position ↔
      interval.Meets position ∨ history.Meets position := by
  refine ⟨meets_of_insert, fun met => ?_⟩
  unfold insert at inserted ⊢
  dsimp only at inserted ⊢
  split at inserted
  · cases inserted
  · rename_i room
    rw [if_neg room]
    rcases (meets_absorb history.entries).mpr met with merged | ⟨entry, member, meets⟩
    · exact ⟨_, List.mem_append_right _ List.mem_cons_self, merged⟩
    · refine ⟨entry, ?_, meets⟩
      rw [← List.takeWhile_append_dropWhile (l := (absorb interval history.entries).2)] at member
      rcases List.mem_append.mp member with before | after
      · exact List.mem_append_left _ before
      · exact List.mem_append_right _ (List.mem_cons_of_mem _ after)

theorem precedes_of_mem_preceding {entries : List Interval} {generation start : Nat}
    {entry : Interval} (member : entry ∈ precedingEntries entries generation start) :
    Precedes entry.generation entry.span.start generation start := by
  unfold precedingEntries at member
  have satisfied := List.mem_takeWhile_imp member
  exact of_decide_eq_true satisfied

theorem meets_of_muted (muted : history.muted (some position) = true) :
    history.Meets position := by
  unfold History.muted at muted
  split at muted
  · rename_i equal
    cases equal
  · rename_i equal
    cases equal
    split at muted
    · cases muted
    · rename_i entry last
      obtain ⟨generationEq, stops⟩ := of_decide_eq_true muted
      have member : entry ∈ precedingEntries history.entries position.generation
          (position.high + 1) := List.mem_of_getLast? last
      refine ⟨entry, (List.takeWhile_sublist _).subset member, generationEq, ?_, stops⟩
      have precedes := precedes_of_mem_preceding member
      unfold Precedes at precedes
      omega

/-- The first interval ends before the second begins. -/
def Apart (before after : Interval) : Prop :=
  before.generation < after.generation ∨
    before.generation = after.generation ∧ before.span.stop < after.span.start

/-- The entries are apart and in order. -/
def Ordered (history : History) : Prop :=
  history.entries.Pairwise Apart

theorem ordered_new (capacity : Nat) : (History.new capacity).Ordered :=
  .nil

theorem ordered_clear : history.clear.Ordered :=
  .nil

theorem absorb_sublist (entries : List Interval) :
    (absorb interval entries).2.Sublist entries := by
  induction entries generalizing interval with
  | nil => exact .slnil
  | cons entry rest ih =>
      unfold absorb
      split
      · exact ih.cons entry
      · exact ih.cons_cons entry

theorem absorb_generation (entries : List Interval) :
    (absorb interval entries).1.generation = interval.generation := by
  induction entries generalizing interval with
  | nil => rfl
  | cons entry rest ih =>
      unfold absorb
      split
      · exact ih
      · exact ih

/-- Without an entry to absorb nothing changes. -/
theorem absorb_untouched {entries : List Interval}
    (untouched : ∀ entry ∈ entries, ¬Touches entry interval) :
    absorb interval entries = (interval, entries) := by
  induction entries with
  | nil => rfl
  | cons entry rest ih =>
      rw [absorb, if_neg (untouched entry List.mem_cons_self),
        ih fun other member => untouched other (List.mem_cons_of_mem _ member)]

/-- The merged interval starts behind what precedes the interval and the entries. -/
theorem lt_absorb_start {entries : List Interval} {bound : Nat}
    (behind : bound < interval.span.start)
    (behindAll : ∀ entry ∈ entries, entry.generation = interval.generation →
      bound < entry.span.start) :
    bound < (absorb interval entries).1.span.start := by
  induction entries generalizing interval with
  | nil => exact behind
  | cons entry rest ih =>
      have later : ∀ other ∈ rest, other.generation = interval.generation →
          bound < other.span.start := fun other member =>
        behindAll other (List.mem_cons_of_mem _ member)
      unfold absorb
      split
      · rename_i touches
        have entryBehind := behindAll entry List.mem_cons_self touches.1
        exact ih (by simp only [join]; omega) later
      · exact ih behind later

/-- One scan absorbs every entry that the merged interval touches. -/
theorem untouched_absorb {entries : List Interval} (apart : entries.Pairwise Apart) :
    ∀ kept ∈ (absorb interval entries).2, ¬Touches kept (absorb interval entries).1 := by
  induction entries generalizing interval with
  | nil => simp [absorb]
  | cons entry rest ih =>
      obtain ⟨beforeRest, apartRest⟩ := List.pairwise_cons.mp apart
      have nonempty := entry.nonempty
      unfold absorb
      split
      · exact ih apartRest
      · rename_i separate
        intro kept member touches
        rcases List.mem_cons.mp member with rfl | later
        · have sameGeneration : kept.generation = interval.generation :=
            touches.1.trans (absorb_generation rest)
          by_cases ahead : kept.span.stop < interval.span.start
          · -- Everything absorbed starts behind this entry as well.
            have behind := lt_absorb_start ahead fun other member' same =>
              (beforeRest other member').elim (fun less => by omega) And.right
            exact absurd touches.2.1 (Nat.not_le.mpr behind)
          · -- The interval ends before this entry, so nothing was absorbed.
            have ends : interval.span.stop < kept.span.start := by
              by_contra reaches
              exact separate ⟨sameGeneration, by omega, by omega⟩
            have same : absorb interval rest = (interval, rest) := by
              refine absorb_untouched fun other member' touches' => ?_
              rcases beforeRest other member' with less | ⟨_, less⟩
              · have := touches'.1
                omega
              · have := touches'.2.2
                omega
            rw [same] at touches
            exact separate touches
        · exact ih apartRest kept later touches

/-- Behind a partition point of an ordered list nothing precedes the key. -/
theorem not_precedes_of_mem_following {entries : List Interval} {generation start : Nat}
    (apart : entries.Pairwise Apart) :
    ∀ entry ∈ followingEntries entries generation start,
      ¬Precedes entry.generation entry.span.start generation start := by
  unfold followingEntries
  induction entries with
  | nil => simp
  | cons entry rest ih =>
      obtain ⟨beforeRest, apartRest⟩ := List.pairwise_cons.mp apart
      have nonempty := entry.nonempty
      by_cases precedes : Precedes entry.generation entry.span.start generation start
      · rw [List.dropWhile_cons_of_pos (by simpa using precedes)]
        exact ih apartRest
      · rw [List.dropWhile_cons_of_neg (by simpa using precedes)]
        intro other member precedes'
        rcases List.mem_cons.mp member with rfl | later
        · exact precedes precedes'
        · have apart' := beforeRest other later
          unfold Precedes at precedes precedes'
          unfold Apart at apart'
          omega

theorem preceding_append_following (entries : List Interval) (generation start : Nat) :
    precedingEntries entries generation start ++ followingEntries entries generation start =
      entries :=
  List.takeWhile_append_dropWhile

/-- Below the reserved number of entries an interval is always inserted. -/
theorem insert_room (history : History) (interval : Interval)
    (room : history.entries.length < history.capacity) :
    (history.insert interval).1 = true ∧
      (history.insert interval).2.entries.length ≤ history.entries.length + 1 ∧
      (history.insert interval).2.capacity = history.capacity := by
  have shorter := (absorb_sublist history.entries : (absorb interval history.entries).2.Sublist _).length_le
  have fits : (absorb interval history.entries).2.length ≠ history.capacity := by omega
  unfold History.insert
  dsimp only
  rw [if_neg fits]
  refine ⟨rfl, ?_, rfl⟩
  have split := congrArg List.length (preceding_append_following
    (absorb interval history.entries).2 (absorb interval history.entries).1.generation
    (absorb interval history.entries).1.span.start)
  rw [List.length_append] at split
  simp only [List.length_append, List.length_cons]
  omega

theorem Ordered.insert (ordered : history.Ordered) (interval : Interval) :
    (history.insert interval).2.Ordered := by
  have keptApart : (absorb interval history.entries).2.Pairwise Apart :=
    List.Pairwise.sublist (absorb_sublist history.entries) ordered
  have untouched : ∀ kept ∈ (absorb interval history.entries).2,
      ¬Touches kept (absorb interval history.entries).1 := untouched_absorb ordered
  unfold History.insert
  dsimp only
  generalize (absorb interval history.entries).1 = merged at untouched ⊢
  generalize (absorb interval history.entries).2 = kept at keptApart untouched ⊢
  split
  · exact keptApart
  · have split := preceding_append_following kept merged.generation merged.span.start
    have after : ∀ entry ∈ followingEntries kept merged.generation merged.span.start,
        ¬Precedes entry.generation entry.span.start merged.generation merged.span.start :=
      not_precedes_of_mem_following keptApart
    have before : ∀ entry ∈ precedingEntries kept merged.generation merged.span.start,
        Precedes entry.generation entry.span.start merged.generation merged.span.start :=
      fun entry member => precedes_of_mem_preceding member
    have nonempty := merged.nonempty
    unfold Ordered
    dsimp only
    generalize precedingEntries kept merged.generation merged.span.start = preceding
      at split before ⊢
    generalize followingEntries kept merged.generation merged.span.start = following
      at split after ⊢
    subst split
    obtain ⟨precedingApart, followingApart, across⟩ := List.pairwise_append.mp keptApart
    refine List.pairwise_append.mpr ⟨precedingApart,
      List.pairwise_cons.mpr ⟨fun entry member => ?_, followingApart⟩,
      fun first member second member' => ?_⟩
    · have separate := untouched entry (List.mem_append_right _ member)
      have notBefore := after entry member
      have entryNonempty := entry.nonempty
      simp only [Touches, Precedes, Apart] at *
      omega
    · rcases List.mem_cons.mp member' with rfl | later
      · have separate := untouched first (List.mem_append_left _ member)
        have precedes := before first member
        have firstNonempty := first.nonempty
        simp only [Touches, Precedes, Apart] at *
        omega
      · exact across first member second later

theorem Ordered.retire (ordered : history.Ordered) (position : Option Position) :
    (history.retire position).Ordered := by
  cases position with
  | none => exact ordered
  | some position => exact List.Pairwise.sublist (List.dropWhile_sublist _) ordered

/-- An entry of the retired generation stays when it ends behind the position. -/
theorem mem_retire {last : Position} {entry : Interval} (member : entry ∈ history.entries)
    (generation : entry.generation = last.generation) (behind : last.low < entry.span.stop) :
    entry ∈ (history.retire (some last)).entries := by
  unfold History.retire
  dsimp only
  have split : entry ∈ history.entries.takeWhile (fun interval =>
        interval.generation ≠ last.generation ∨ interval.span.stop ≤ last.low) ++
      history.entries.dropWhile (fun interval =>
        interval.generation ≠ last.generation ∨ interval.span.stop ≤ last.low) := by
    rw [List.takeWhile_append_dropWhile]
    exact member
  refine (List.mem_append.mp split).resolve_left fun retired => ?_
  have dropped := List.mem_takeWhile_imp retired
  have gone : entry.generation ≠ last.generation ∨ entry.span.stop ≤ last.low :=
    of_decide_eq_true dropped
  rcases gone with other | before
  · exact other generation
  · omega

/-- Retiring at a position loses nothing that a later position meets. -/
theorem Meets.retire {last : Position} (met : history.Meets position)
    (generation : last.generation = position.generation) (later : last.low ≤ position.low) :
    (history.retire (some last)).Meets position := by
  obtain ⟨entry, member, meets⟩ := met
  have stops := meets.2.2
  exact ⟨entry, mem_retire member (meets.1.trans generation.symm) (by omega), meets⟩

/-- The last entry that starts early enough decides. -/
theorem muted_iff (ordered : history.Ordered) :
    history.muted (some position) = true ↔ history.Meets position := by
  refine ⟨meets_of_muted, fun ⟨entry, member, generationEq, starts, stops⟩ => ?_⟩
  have precedes : Precedes entry.generation entry.span.start position.generation
      (position.high + 1) := .inr ⟨generationEq, Nat.lt_succ_of_le starts⟩
  have early : entry ∈ precedingEntries history.entries position.generation
      (position.high + 1) := by
    rw [← preceding_append_following history.entries position.generation (position.high + 1)]
      at member
    refine (List.mem_append.mp member).resolve_right fun late => ?_
    exact not_precedes_of_mem_following ordered entry late precedes
  have apart : (precedingEntries history.entries position.generation
      (position.high + 1)).Pairwise Apart :=
    List.Pairwise.sublist (List.takeWhile_sublist _) ordered
  unfold History.muted
  dsimp only
  cases lastEq : (precedingEntries history.entries position.generation
      (position.high + 1)).getLast? with
  | none =>
      rw [List.getLast?_eq_none_iff.mp lastEq] at early
      cases early
  | some last =>
      obtain ⟨front, split⟩ := List.getLast?_eq_some_iff.mp lastEq
      have lastPrecedes := precedes_of_mem_preceding (List.mem_of_getLast? lastEq)
      have lastNonempty := last.nonempty
      rw [split] at early apart
      refine decide_eq_true ?_
      rcases List.mem_append.mp early with earlier | same
      · have gap := (List.pairwise_append.mp apart).2.2 entry earlier last
          (List.mem_singleton_self _)
        simp only [Precedes, Apart] at *
        omega
      · obtain rfl := List.mem_singleton.mp same
        exact ⟨generationEq, stops⟩

end History

end PcmRing
