import PcmRing.EndpointProtocol

/-!
# What the producer owns

The consumer changes none of the producer's cursors, stamps and notes, so what
the producer knows about them survives every consumer move.  This file states
that knowledge: how slots and records are noted, when a stamp belongs to the
current stream, and that one generation's stamps follow one another.
-/

namespace PcmRing

open AtomicProgram TwoLapQueue

variable {F S W : Type}

/-- Everything the producer owns. -/
structure ProducerView (F : Type) where
  published : List (SourceSample F)
  records : List Interval
  stamp : Option Stamp
  epoch : Nat
  slots : List SlotNote
  bursts : List Nat
  stampBorn : Nat
  gatesCurrent : Bool

def Ring.producerView (ring : Ring F S W) : ProducerView F where
  published := ring.pcm.published
  records := ring.mutes.published
  stamp := ring.producerStamp
  epoch := ring.producerEpoch
  slots := ring.ledger.slots
  bursts := ring.ledger.records
  stampBorn := ring.ledger.stampBorn
  gatesCurrent := ring.ledger.gatesCurrent

theorem ConsumerMoves.producerView_eq {geometry : Geometry} {resets : Prop}
    {before after : Ring F S W} (moves : ConsumerMoves geometry resets before after) :
    after.producerView = before.producerView := by
  simp only [Ring.producerView, moves.published_eq, moves.records_published_eq, moves.stamp_eq,
    moves.epoch_eq, moves.slots_eq, moves.records_eq, moves.stampBorn_eq, moves.gatesCurrent_eq]

/-- The stamp of a later slot of the same block. -/
def Stamp.advance (count : Nat) (stamp : Stamp) : Stamp :=
  ⟨stamp.generation, stamp.source + count⟩

/-- The stamped slots of the first stream count source positions from one
origin. -/
def FollowOn (generation : Nat) (origin : Int) (published : List (SourceSample F))
    (notes : List SlotNote) : Prop :=
  ∀ (index : Nat) slot note, published[index]? = some slot → notes[index]? = some note →
    note.serial = 0 → ∀ stamp ∈ slot.stamp,
      stamp.generation = generation ∧ (stamp.source : Int) = origin + index

/-- When the producer tags one generation only, its stamps follow one another. -/
def SingleLine (single : Option Nat) (published : List (SourceSample F))
    (notes : List SlotNote) : Prop :=
  ∀ generation ∈ single, ∃ origin : Int, FollowOn generation origin published notes

theorem followOn_unstamped {generation : Nat} {origin : Int}
    {published : List (SourceSample F)} {notes : List SlotNote}
    (unstamped : ∀ slot ∈ published, slot.stamp = none) :
    FollowOn generation origin published notes := by
  intro index slot note slotAt _ _ stamp member
  rw [unstamped slot (List.mem_of_getElem? slotAt)] at member
  cases member

theorem FollowOn.append {generation : Nat} {origin : Int}
    {published : List (SourceSample F)} {notes : List SlotNote} {slot : SourceSample F}
    {note : SlotNote} (follows : FollowOn generation origin published notes)
    (lengths : notes.length = published.length)
    (last : note.serial = 0 → ∀ stamp ∈ slot.stamp,
      stamp.generation = generation ∧ (stamp.source : Int) = origin + published.length) :
    FollowOn generation origin (published ++ [slot]) (notes ++ [note]) := by
  intro index slot' note' slotAt noteAt serial stamp member
  rcases Nat.lt_trichotomy index published.length with early | rfl | late
  · rw [List.getElem?_append_left early] at slotAt
    rw [List.getElem?_append_left (lengths ▸ early)] at noteAt
    exact follows index slot' note' slotAt noteAt serial stamp member
  · rw [List.getElem?_concat_length] at slotAt
    rw [← lengths, List.getElem?_concat_length] at noteAt
    obtain rfl := Option.some.inj slotAt
    obtain rfl := Option.some.inj noteAt
    exact last serial stamp member
  · rw [List.getElem?_eq_none (by simp; omega)] at slotAt
    cases slotAt

namespace ProducerView

/-- A stamp was set in the stream its slot was accepted in, unless a gate was
passed with a stale epoch. -/
def FreshStamps (view : ProducerView F) : Prop :=
  view.gatesCurrent = true → ∀ (index : Nat) slot note,
    view.published[index]? = some slot → view.slots[index]? = some note →
    slot.stamp.isSome → note.born = note.serial

/-- What the ledger and the stamp say about the published slots.  Stamps are
only traced to their stream while no stream reset is allowed. -/
structure Traced (resets : Prop) (single : Option Nat) (view : ProducerView F) : Prop where
  slots_length : view.slots.length = view.published.length
  bursts_length : view.bursts.length = view.records.length
  bursts_le : ∀ burst ∈ view.bursts, burst ≤ view.epoch
  stampBorn_eq : ¬resets → view.gatesCurrent = true → view.stamp.isSome →
    view.stampBorn = view.epoch
  born_eq : ¬resets → view.FreshStamps
  line : ∀ generation ∈ single, ∃ origin : Int,
    FollowOn generation origin view.published view.slots ∧
    (view.epoch = 0 → ∀ stamp ∈ view.stamp,
      stamp.generation = generation ∧ (stamp.source : Int) = origin + view.published.length) ∧
    (view.epoch = 0 → view.stamp = none → ∀ slot ∈ view.published, slot.stamp = none)

variable {resets : Prop} {single : Option Nat} {view : ProducerView F}

theorem Traced.singleLine (traced : view.Traced resets single) :
    SingleLine single view.published view.slots := by
  intro generation member
  obtain ⟨origin, follows, -⟩ := traced.line generation member
  exact ⟨origin, follows⟩

theorem Traced.forget (traced : view.Traced resets single) {reset born : Nat}
    (stale : view.epoch < reset) :
    ({ view with stamp := none, epoch := reset, stampBorn := born }).Traced resets single where
  slots_length := traced.slots_length
  bursts_length := traced.bursts_length
  bursts_le burst member := Nat.le_trans (traced.bursts_le burst member) (Nat.le_of_lt stale)
  stampBorn_eq _ _ stamped := by cases stamped
  born_eq := traced.born_eq
  line generation member := by
    obtain ⟨origin, follows, -⟩ := traced.line generation member
    exact ⟨origin, follows, fun first => absurd first (Nat.ne_of_gt (Nat.zero_lt_of_lt stale)),
      fun first => absurd first (Nat.ne_of_gt (Nat.zero_lt_of_lt stale))⟩

theorem Traced.gate (traced : view.Traced resets single) {current : Bool}
    (kept : current = true → view.gatesCurrent = true) :
    ({ view with gatesCurrent := current }).Traced resets single :=
  { traced with
    stampBorn_eq := fun still passed => traced.stampBorn_eq still (kept passed)
    born_eq := fun still passed => traced.born_eq still (kept passed) }

theorem Traced.tag (traced : view.Traced resets single) {generation source born : Nat}
    (current : ¬resets → view.gatesCurrent = true → born = view.epoch)
    (continues : ¬Discontinuous view.stamp generation source)
    (uniform : ∀ only ∈ single, generation = only) :
    ({ view with stamp := some ⟨generation, source⟩, stampBorn := born }).Traced resets
      single where
  slots_length := traced.slots_length
  bursts_length := traced.bursts_length
  bursts_le := traced.bursts_le
  stampBorn_eq still passed _ := current still passed
  born_eq := traced.born_eq
  line only member := by
    obtain ⟨origin, follows, stamped, unstamped⟩ := traced.line only member
    obtain rfl := uniform only member
    by_cases first : view.epoch = 0
    · cases stampEq : view.stamp with
      | none =>
          refine ⟨source - view.published.length, followOn_unstamped (unstamped first stampEq),
            fun _ stamp same => ?_, fun _ absent => by cases absent⟩
          obtain rfl := Option.mem_some.mp same
          exact ⟨rfl, by dsimp only; omega⟩
      | some stamp =>
          obtain ⟨generationEq, sourceEq⟩ := stamped first stamp stampEq
          have same : stamp.source = source := by
            by_contra differs
            exact continues ⟨stamp, stampEq, generationEq, differs⟩
          refine ⟨origin, follows, fun _ stamp' same' => ?_, fun _ absent => by cases absent⟩
          obtain rfl := Option.mem_some.mp same'
          exact ⟨rfl, same ▸ sourceEq⟩
    · exact ⟨origin, follows, fun zero => absurd zero first, fun zero => absurd zero first⟩

theorem Traced.accept (traced : view.Traced resets single) {sample : SourceSample F}
    {note : SlotNote} (stampEq : sample.stamp = view.stamp) (bornEq : note.born = view.stampBorn)
    (current : ¬resets → view.gatesCurrent = true → note.serial = view.epoch)
    (reached : view.epoch ≤ note.serial) :
    ({ view with
      published := view.published ++ [sample]
      slots := view.slots ++ [note]
      stamp := view.stamp.map (Stamp.advance 1) }).Traced resets single where
  slots_length := by simp [traced.slots_length]
  bursts_length := traced.bursts_length
  bursts_le := traced.bursts_le
  stampBorn_eq still passed stamped := by
    rw [Option.isSome_map] at stamped
    exact traced.stampBorn_eq still passed stamped
  born_eq still passed index slot note' slotAt noteAt stamped := by
    rcases Nat.lt_trichotomy index view.published.length with early | rfl | late
    · rw [List.getElem?_append_left early] at slotAt
      rw [List.getElem?_append_left (traced.slots_length ▸ early)] at noteAt
      exact traced.born_eq still passed index slot note' slotAt noteAt stamped
    · rw [List.getElem?_concat_length] at slotAt
      rw [← traced.slots_length, List.getElem?_concat_length] at noteAt
      obtain rfl := Option.some.inj slotAt
      obtain rfl := Option.some.inj noteAt
      rw [bornEq, current still passed]
      exact traced.stampBorn_eq still passed (stampEq ▸ stamped)
    · rw [List.getElem?_eq_none (by simp; omega)] at slotAt
      cases slotAt
  line generation member := by
    obtain ⟨origin, follows, stamped, absent⟩ := traced.line generation member
    refine ⟨origin, follows.append traced.slots_length ?_, ?_, ?_⟩
    · intro serial stamp mark
      exact stamped (Nat.le_zero.mp (serial ▸ reached)) stamp (stampEq ▸ mark)
    · intro first stamp mark
      obtain ⟨before, beforeEq, rfl⟩ := Option.mem_map.mp mark
      obtain ⟨generationEq, sourceEq⟩ := stamped first before beforeEq
      refine ⟨generationEq, ?_⟩
      simp only [Stamp.advance, List.length_append, List.length_singleton]
      push_cast
      omega
    · intro first unstamped slot member'
      have noStamp : view.stamp = none := Option.map_eq_none_iff.mp unstamped
      rcases List.mem_append.mp member' with earlier | last
      · exact absent first noStamp slot earlier
      · rw [List.mem_singleton.mp last, stampEq, noStamp]

theorem Traced.record (traced : view.Traced resets single) {intervals : List Interval} :
    ({ view with
      records := view.records ++ intervals
      bursts := view.bursts ++ List.replicate intervals.length view.epoch }).Traced resets
      single :=
  { traced with
    bursts_length := by simp [traced.bursts_length]
    bursts_le := fun burst member => by
      rcases List.mem_append.mp member with earlier | late
      · exact traced.bursts_le burst earlier
      · exact Nat.le_of_eq (List.eq_of_mem_replicate late) }

end ProducerView

end PcmRing
