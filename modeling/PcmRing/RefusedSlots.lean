import PcmRing.ConsumerInvariants

/-!
# Refused slots

A taken slot enters the workspace unless the source fence or the full queue of
gaps refuses it.  The consumer notes each refusal, and the slots the stream
passed are those it accepted and those it refused, in every schedule.
-/

namespace PcmRing

variable {F S W : Type}

/-- No slot taken since the last reset was stopped by the source fence or found
the queue of gaps full. -/
def ConsumerState.NothingRefused (state : ConsumerState F S W) : Prop :=
  state.refused = 0

instance (state : ConsumerState F S W) : Decidable state.NothingRefused :=
  inferInstanceAs (Decidable (_ = _))

/-- Two consumers that took and refused the same number of slots. -/
structure SameCount (before after : ConsumerState F S W) : Prop where
  taken_eq : after.sourceTaken = before.sourceTaken
  refused_eq : after.refused = before.refused

namespace ConsumerState

variable (state : ConsumerState F S W)

theorem acceptSource_count (gapCapacity : Nat) (slot : SourceSample F) :
    (state.acceptSource gapCapacity slot).2.sourceTaken =
        (if (state.acceptSource gapCapacity slot).1 then state.sourceTaken + 1
          else state.sourceTaken) ∧
      (state.acceptSource gapCapacity slot).2.sourceTaken +
          (state.acceptSource gapCapacity slot).2.refused =
        state.sourceTaken + state.refused + 1 := by
  have fenced : SameCount state (state.fence slot.stamp).2 := by
    rcases state.fence_cases slot.stamp with
      ⟨-, fenced⟩ | ⟨mark, -, -, fenced⟩ | ⟨mark, -, -, fenced⟩ <;> rw [fenced] <;>
      exact ⟨rfl, rfl⟩
  rw [← fenced.taken_eq, ← fenced.refused_eq]
  rcases state.acceptSource_cases gapCapacity slot with
    ⟨gaps, -, -, resultEq⟩ | ⟨-, resultEq⟩ | ⟨-, -, -, resultEq⟩ <;> rw [resultEq]
  · exact ⟨rfl, Nat.add_right_comm _ _ _⟩
  · exact ⟨rfl, rfl⟩
  · exact ⟨rfl, rfl⟩

theorem makeInputSpace_count (additional capacity : Nat) :
    SameCount state (state.makeInputSpace additional capacity) := by
  unfold makeInputSpace
  split <;> exact ⟨rfl, rfl⟩

theorem padInput_count [Binary32 F] (quantum : Nat) : SameCount state (state.padInput quantum) := by
  unfold padInput
  split <;> exact ⟨rfl, rfl⟩

theorem popped_count [Binary32 F] (result : RefillResult) : SameCount state (state.popped result).2 := by
  unfold popped
  split <;> exact ⟨rfl, rfl⟩

variable [Binary64 W]

theorem convert_count (adapter : Adapter F W S) (geometry : Geometry) (quantum : Nat) :
    SameCount state (state.convert adapter geometry quantum).2 := by
  have ran := state.convert_cases adapter geometry quantum
  generalize (state.convert adapter geometry quantum).1 = result at ran
  generalize (state.convert adapter geometry quantum).2 = converted at ran ⊢
  cases ran <;> exact ⟨rfl, rfl⟩

end ConsumerState

/-- Each slot that the stream passed was taken or refused. -/
def Counted (state : ConsumerState F S W) (ring : Ring F S W) : Prop :=
  ring.pcm.passed.length = ring.ledger.streamStart + state.sourceTaken + state.refused

namespace Counted

variable {state other : ConsumerState F S W} {ring : Ring F S W}

theorem still (counted : Counted state ring) (same : SameCount state other) :
    Counted other ring := by
  unfold Counted
  rw [same.taken_eq, same.refused_eq]
  exact counted

/-- Unless a slot was refused, the stream passed what the consumer took. -/
theorem passed_eq (counted : Counted state ring) (nothing : state.NothingRefused) :
    ring.pcm.passed.length = ring.ledger.streamStart + state.sourceTaken := by
  rw [counted, show state.refused = 0 from nothing, Nat.add_zero]

end Counted

variable [Binary32 F] [Binary64 W] [Widening F W] {adapter : Adapter F W S} {geometry : Geometry}

theorem countedKept {shape : List (SourceSample F) → List SlotNote → Prop} :
    LocalInvariant adapter geometry shape (Counted (F := F) (S := S) (W := W)) where
  published accounts moves counted := by
    unfold Counted
    rw [moves.passed_eq accounts.pcm, moves.streamStart_eq]
    exact counted
  same same counted := by
    unfold Counted
    rw [same.pcm_eq, same.start_eq]
    exact counted
  capture _ _ _ counted := counted.still ⟨rfl, rfl⟩
  receive _ _ counted := counted.still ⟨rfl, rfl⟩
  flags _ _ counted := counted.still ⟨rfl, rfl⟩
  space wanted _ _ counted := counted.still (ConsumerState.makeInputSpace_count _ wanted _)
  take {state ring slot rest} _ _ _ _ _ counted := by
    have passedEq : (takeSlot geometry slot ring).pcm.passed.length =
        ring.pcm.passed.length + 1 := by
      rw [takeSlot_passed, List.length_append, List.length_singleton]
    have startEq : (takeSlot geometry slot ring).ledger.streamStart =
        ring.ledger.streamStart := rfl
    have sum := (state.acceptSource_count geometry.gapCapacity slot).2
    unfold Counted at counted ⊢
    omega
  pad _ _ _ counted := counted.still (ConsumerState.padInput_count _ _)
  query _ _ counted := counted.still ⟨rfl, rfl⟩
  steer _ _ _ counted := counted.still ⟨rfl, rfl⟩
  convert _ _ counted := counted.still (ConsumerState.convert_count _ adapter geometry _)
  emit {slack result state ring} _ _ _ counted := by
    obtain ⟨plc, plcPositions, plcPosition, muteHistory, emissionEq⟩ :=
      state.emission_state geometry result
    rw [emissionEq]
    have popped := state.popped_count result
    exact counted.still ⟨popped.taken_eq, popped.refused_eq⟩
  release {state boundary ring} _ _ _ counted := by
    obtain ⟨plc, releaseEq⟩ := release_cases geometry state boundary
    rw [releaseEq]
    exact counted.still ⟨rfl, rfl⟩
  reset _ _ completed := completed.start_eq.symm

omit [Widening F W] in
theorem counted_created {settings : Settings} {ring : Ring F S W}
    (created : Ring.create adapter settings = .ok (geometry, ring)) :
    Counted ring.consumer ring := by
  obtain ⟨-, outputDelay, delay, converter, -, rfl⟩ := create_cases created
  rfl

/-- Whoever runs when, the slots passed are those taken and those refused. -/
theorem counted_of_idle {settings : Settings} {config : RingConfig F S W}
    (reached : RingReachable adapter settings (fun _ _ => True) geometry config)
    (idle : config.thread .consumer = .idle) : Counted config.memory.consumer config.memory := by
  obtain ⟨ring, created, steps⟩ := reached
  exact (invariant_of_idle countedKept.steered created (counted_created created) steps idle).2

end PcmRing
