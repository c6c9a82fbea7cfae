import PcmRing.ProducerPosts

/-!
# Proof outlines of the whole system

The producer's half of every outline is the same, so a theorem about the system
only has to give the consumer's: its invariant between calls, what it promises
about each access, and what its calls establish.
-/

namespace PcmRing

open AtomicProgram TwoLapQueue

section Methods

variable {F S W : Type}

/-- What either thread relies on while both run the methods of one channel. -/
def MethodRely (geometry : Geometry) : Party → Ring F S W → Ring F S W → Prop
  | .producer => ConsumerMoves geometry True
  | .consumer => ProducerMoves geometry (SingleLine none)

/-- What either thread promises of an access of such a method. -/
def MethodGuar (geometry : Geometry) : Party → Access F S W → Ring F S W → Prop
  | .producer => ProducerGuar geometry True none
  | .consumer => ConsumerPermits geometry True

theorem methodRely_preordered (geometry : Geometry) (party : Party) :
    Program.Preordered (MethodRely (F := F) (S := S) (W := W) geometry party) := by
  cases party with
  | producer => exact preordered_consumerMoves
  | consumer => exact ⟨.refl, .trans⟩

theorem methodRely_of_guar (geometry : Geometry) {party other : Party} {op : Access F S W}
    {ring : Ring F S W} (differ : party ≠ other) (promised : MethodGuar geometry other op ring) :
    MethodRely geometry party ring (effect geometry op ring) := by
  cases other with
  | producer =>
      cases party with
      | producer => exact (differ rfl).elim
      | consumer => exact ProducerMoves.of_permits promised.permitted promised.line
  | consumer =>
      cases party with
      | producer => exact ConsumerMoves.of_permits promised
      | consumer => exact (differ rfl).elim

end Methods

variable {F S W : Type} [Binary32 F] [Binary64 W]

omit [Binary64 W] in
theorem producerHolds_initial {geometry : Geometry} {resets : Prop} {single : Option Nat}
    {consumer : ConsumerState F S W} (positive : 0 < geometry.capacity) :
    ProducerHolds geometry resets single (Ring.initial consumer) where
  pcm := Channel.sound_empty positive
  mutes := Channel.sound_empty (by decide)
  epoch_le := Nat.le_refl 0
  traced :=
    { slots_length := rfl
      bursts_length := rfl
      bursts_le := fun burst member => by cases member
      stampBorn_eq := fun _ _ stamped => by cases stamped
      born_eq := fun _ _ index slot note slotAt => by cases slotAt
      line := fun generation _ => ⟨0, followOn_unstamped fun _ member => (by cases member),
        fun _ stamp member => (by cases member), fun _ _ slot member => (by cases member)⟩ }

theorem validate_capacity {settings : Settings} (valid : settings.validate W = .ok ()) :
    minimumCapacity ≤ settings.capacity := by
  unfold Settings.validate at valid
  dsimp only at valid
  split at valid
  · cases valid
  · rename_i checked
    by_contra short
    exact checked (.inl fun bounds => short bounds.1)

theorem create_cases {adapter : Adapter F W S} {settings : Settings} {geometry : Geometry}
    {ring : Ring F S W} (created : Ring.create adapter settings = .ok (geometry, ring)) :
    settings.validate W = .ok () ∧ ∃ outputDelay delay converter,
      geometry = settings.geometry outputDelay delay ∧
      ring = Ring.initial (ConsumerState.initial settings geometry.gapCapacity converter) := by
  unfold Ring.create at created
  split at created
  · cases created
  · rename_i valid
    split at created
    · cases created
    · rename_i converter outputDelay _
      split at created
      · cases created
      · rename_i delay converter' _
        cases created
        exact ⟨valid, outputDelay, delay.toNat, converter', rfl, rfl⟩

theorem create_capacity {adapter : Adapter F W S} {settings : Settings} {geometry : Geometry}
    {ring : Ring F S W} (created : Ring.create adapter settings = .ok (geometry, ring)) :
    minimumCapacity ≤ geometry.capacity := by
  obtain ⟨valid, outputDelay, delay, converter, rfl, -⟩ := create_cases created
  exact validate_capacity valid

variable [Widening F W]

/-- The consumer's half of an outline of the system. -/
structure ConsumerSpec (adapter : Adapter F W S) (geometry : Geometry) (resets : Prop)
    (single : Option Nat) (allowed : (party : Party) → party.Call F → Prop) where
  inv : Ring F S W → Prop
  guar : Access F S W → Ring F S W → Prop
  post : ConsumerCall → Ring F S W → ConsumerResult F → Ring F S W → Prop
  permits : ∀ {op ring}, guar op ring → ConsumerPermits geometry resets op ring
  stable : ∀ {before after}, ProducerMoves geometry (SingleLine single) before after →
    inv before → inv after
  safe : ∀ call ring, allowed .consumer call → inv ring →
    (consumerBody adapter geometry call).Safe (exec geometry)
      (ProducerMoves geometry (SingleLine single)) guar
      (fun result exit => inv exit ∧ post call ring result exit) ring

namespace ConsumerSpec

variable {adapter : Adapter F W S} {geometry : Geometry} {resets : Prop} {single : Option Nat}
  {allowed : (party : Party) → party.Call F → Prop}
  (spec : ConsumerSpec adapter geometry resets single allowed)

omit [Binary32 F] [Binary64 W] [Widening F W] in
theorem preordered_producerMoves : Program.Preordered
    (ProducerMoves (F := F) (S := S) (W := W) geometry (SingleLine single)) :=
  ⟨.refl, .trans⟩

/-- A second judgment of the consumer beside the first. -/
def also (inv : Ring F S W → Prop) (guar : Access F S W → Ring F S W → Prop)
    (stable : ∀ {before after}, ProducerMoves geometry (SingleLine single) before after →
      inv before → inv after)
    (safe : ∀ call ring, allowed .consumer call → spec.inv ring → inv ring →
      (consumerBody adapter geometry call).Safe (exec geometry)
        (ProducerMoves geometry (SingleLine single)) guar (fun _ => inv) ring) :
    ConsumerSpec adapter geometry resets single allowed where
  inv ring := spec.inv ring ∧ inv ring
  guar op ring := spec.guar op ring ∧ guar op ring
  post := spec.post
  permits promised := spec.permits promised.1
  stable moves holds := ⟨spec.stable moves holds.1, stable moves holds.2⟩
  safe call ring admitted holds :=
    ((spec.safe call ring admitted holds.1).and (safe call ring admitted holds.1 holds.2)).mono
      fun _ _ ends => ⟨⟨ends.1.1, ends.2⟩, ends.1.2⟩

/-- The outline of both threads. -/
def outline (uniform : ∀ call, allowed .producer call → call.Uniform single) :
    Outline (body adapter geometry) (exec geometry) allowed where
  rely
    | .producer => ConsumerMoves geometry resets
    | .consumer => ProducerMoves geometry (SingleLine single)
  guar
    | .producer => ProducerGuar geometry resets single
    | .consumer => spec.guar
  inv
    | .producer => ProducerHolds geometry resets single
    | .consumer => spec.inv
  post
    | .producer => ProducerPost resets
    | .consumer => spec.post
  order
    | .producer => preordered_consumerMoves
    | .consumer => preordered_producerMoves
  stable {i} := by
    cases i with
    | producer => exact fun moves holds => holds.stable moves
    | consumer => exact spec.stable
  compatible {i j op memory} := by
    cases i <;> cases j
    · exact fun same => (same rfl).elim
    · exact fun _ permitted => ConsumerMoves.of_permits (spec.permits permitted)
    · exact fun _ permitted => ProducerMoves.of_permits permitted.permitted permitted.line
    · exact fun same => (same rfl).elim
  safe
    | .producer, call, _, admitted, holds => safe_producerBody call (uniform call admitted) holds
    | .consumer, call, ring, admitted, holds => spec.safe call ring admitted holds

theorem initially (uniform : ∀ call, allowed .producer call → call.Uniform single)
    {ring : Ring F S W} (positive : 0 < geometry.capacity) {consumer : ConsumerState F S W}
    (initial : ring = Ring.initial consumer) (start : spec.inv ring) (party : Party) :
    (spec.outline uniform).inv party ring := by
  cases party with
  | producer => exact initial ▸ producerHolds_initial positive
  | consumer => exact start

/-- The outline holds in every configuration of every schedule. -/
theorem holds (uniform : ∀ call, allowed .producer call → call.Uniform single)
    {ring : Ring F S W} (positive : 0 < geometry.capacity) {consumer : ConsumerState F S W}
    (initial : ring = Ring.initial consumer) (start : spec.inv ring)
    {config : RingConfig F S W}
    (reached : Reachable (body adapter geometry) (exec geometry) allowed ring config)
    (party : Party) : (spec.outline uniform).Holds config party :=
  (spec.outline uniform).holds_of_reachable (spec.initially uniform positive initial start)
    reached party

end ConsumerSpec

end PcmRing
