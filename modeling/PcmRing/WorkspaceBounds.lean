import PcmRing.RefusedSlots

/-!
# The bounds of the workspaces

The samples offered to the converter lie inside the input workspace and the
cached outputs inside the output workspace, in every schedule and whatever the
converter answers.  A refill that wants more than fits behind the pending input
compacts it first, so no slot is written behind the end.
-/

namespace PcmRing

open AtomicProgram

variable {F S W : Type}

/-- The pending input and the cached outputs lie inside their workspaces. -/
structure InWorkspace (geometry : Geometry) (state : ConsumerState F S W) : Prop where
  input_le : state.inputOffset + state.inputPending ≤ geometry.capacity
  output_le : state.outputOffset + state.outputPending ≤ min geometry.capacity converterQuantum

namespace InWorkspace

variable {geometry : Geometry} {state other : ConsumerState F S W}

theorem agree (inside : InWorkspace geometry state)
    (input : other.inputOffset = state.inputOffset ∧ other.inputPending = state.inputPending)
    (output : other.outputOffset = state.outputOffset ∧
      other.outputPending = state.outputPending) : InWorkspace geometry other where
  input_le := by
    rw [input.1, input.2]
    exact inside.input_le
  output_le := by
    rw [output.1, output.2]
    exact inside.output_le

theorem makeInputSpace (inside : InWorkspace geometry state) (wanted : Nat) :
    InWorkspace geometry (state.makeInputSpace wanted geometry.capacity) := by
  unfold ConsumerState.makeInputSpace
  split
  · exact inside
  · -- The pending input moves to the front.
    have pending := inside.input_le
    refine ⟨?_, inside.output_le⟩
    change 0 + state.inputPending ≤ geometry.capacity
    omega

/-- There was room for a slot, and a refused one takes none. -/
theorem acceptSource (inside : InWorkspace geometry state) (slot : SourceSample F)
    (room : state.inputOffset + state.inputPending < geometry.capacity) :
    InWorkspace geometry (state.acceptSource geometry.gapCapacity slot).2 := by
  have fenced : ∃ base fault, (state.fence slot.stamp).2 =
      { state with sourceBase := base, muteFault := fault } := by
    rcases state.fence_cases slot.stamp with
      ⟨-, fenced⟩ | ⟨mark, -, -, fenced⟩ | ⟨mark, -, -, fenced⟩ <;> rw [fenced] <;>
      exact ⟨_, _, rfl⟩
  obtain ⟨base, fault, fencedEq⟩ := fenced
  rcases state.acceptSource_cases geometry.gapCapacity slot with
    ⟨gaps, -, -, accepted⟩ | ⟨-, accepted⟩ | ⟨-, -, -, accepted⟩ <;> rw [accepted, fencedEq]
  · exact ⟨room, inside.output_le⟩
  · exact inside.agree ⟨rfl, rfl⟩ ⟨rfl, rfl⟩
  · exact inside.agree ⟨rfl, rfl⟩ ⟨rfl, rfl⟩

theorem padInput [Zero F] (inside : InWorkspace geometry state) :
    InWorkspace geometry (state.padInput (min geometry.capacity converterQuantum)) := by
  unfold ConsumerState.padInput
  split
  · refine ⟨?_, inside.output_le⟩
    change 0 + min geometry.capacity converterQuantum ≤ geometry.capacity
    omega
  · exact inside

/-- A conversion moves the pending input forward and fills the outputs from the front. -/
theorem converts {result : RefillResult} (inside : InWorkspace geometry state)
    (positive : 0 < geometry.capacity)
    (ran : state.Converts geometry (min geometry.capacity converterQuantum) result other) :
    InWorkspace geometry other := by
  have input := inside.input_le
  cases ran with
  | rejected => exact inside.agree ⟨rfl, rfl⟩ ⟨rfl, rfl⟩
  | unplaced gaps missing converter output used usedLe =>
      refine ⟨?_, inside.output_le⟩
      change state.inputOffset + used + (state.inputPending - used) ≤ geometry.capacity
      omega
  | absorbed result stuck gaps missing converter output used usedLe =>
      refine ⟨?_, Nat.zero_le _⟩
      change (if state.inputPending - used = 0 then 0 else state.inputOffset + used) +
        (state.inputPending - used) ≤ geometry.capacity
      split <;> omega
  | generated gaps missing converter output used usedLe count countPos countLe =>
      have quantum : 0 < min geometry.capacity converterQuantum :=
        Nat.lt_min.mpr ⟨positive, by decide⟩
      refine ⟨?_, ?_⟩
      · change (if state.inputPending - used = 0 then 0 else state.inputOffset + used) +
          (state.inputPending - used) ≤ geometry.capacity
        split <;> omega
      · change 0 + count ≤ min geometry.capacity converterQuantum
        omega

theorem popped [Binary32 F] (inside : InWorkspace geometry state) (result : RefillResult)
    (ready : result = .ready → state.outputPending ≠ 0) :
    InWorkspace geometry (state.popped result).2 := by
  have output := inside.output_le
  unfold ConsumerState.popped
  split
  · rename_i isReady
    have pending := ready isReady
    refine ⟨inside.input_le, ?_⟩
    change (if state.outputPending - 1 = 0 then 0 else state.outputOffset + 1) +
      (state.outputPending - 1) ≤ min geometry.capacity converterQuantum
    split <;> omega
  · exact inside

end InWorkspace

variable [Binary32 F] [Binary64 W] [Widening F W] {adapter : Adapter F W S} {geometry : Geometry}

/-- Every local step keeps the workspaces within their bounds. -/
theorem inWorkspaceKept {shape : List (SourceSample F) → List SlotNote → Prop} :
    LocalInvariant adapter geometry shape
      fun (state : ConsumerState F S W) _ => InWorkspace geometry state where
  published _ _ inside := inside
  same _ inside := inside
  capture _ _ _ inside := inside.agree ⟨rfl, rfl⟩ ⟨rfl, rfl⟩
  receive _ _ inside := inside.agree ⟨rfl, rfl⟩ ⟨rfl, rfl⟩
  flags _ _ inside := inside.agree ⟨rfl, rfl⟩ ⟨rfl, rfl⟩
  space wanted _ _ inside := inside.makeInputSpace wanted
  take {state ring slot rest} _ _ _ room _ inside := inside.acceptSource slot room
  pad _ _ _ inside := inside.padInput
  query _ _ inside := inside.agree ⟨rfl, rfl⟩ ⟨rfl, rfl⟩
  steer _ _ _ inside := inside.agree ⟨rfl, rfl⟩ ⟨rfl, rfl⟩
  convert accounts _ inside :=
    inside.converts accounts.pcm.valid.positive (ConsumerState.convert_cases _ adapter geometry _)
  emit {slack result state ring} _ ready _ inside := by
    obtain ⟨plc, plcPositions, plcPosition, muteHistory, emissionEq⟩ :=
      state.emission_state geometry result
    rw [emissionEq]
    exact (inside.popped result ready).agree ⟨rfl, rfl⟩ ⟨rfl, rfl⟩
  release {state boundary ring} _ _ _ inside := by
    obtain ⟨plc, releaseEq⟩ := release_cases geometry state boundary
    rw [releaseEq]
    exact inside.agree ⟨rfl, rfl⟩ ⟨rfl, rfl⟩
  reset _ _ _ := ⟨Nat.zero_le _, Nat.zero_le _⟩

/-- Whatever the converter answers and whoever runs when, what it is offered and
what it generated lie inside the workspaces. -/
theorem workspaces_in_bounds {settings : Settings} {config : RingConfig F S W}
    (reached : RingReachable adapter settings (fun _ _ => True) geometry config)
    (idle : config.thread .consumer = .idle) : InWorkspace geometry config.memory.consumer := by
  obtain ⟨ring, created, steps⟩ := reached
  refine (invariant_of_idle inWorkspaceKept.steered created ?_ steps idle).2
  obtain ⟨-, outputDelay, delay, converter, -, rfl⟩ := create_cases created
  exact ⟨Nat.zero_le _, Nat.zero_le _⟩

/-- A sample before a gap is converted alone, and three slots wait behind it. -/
theorem workspaces_in_bounds_before_a_gap :
    ∃ (geometry : Geometry) (config : RingConfig ℚ Unit ℚ),
      RingReachable (unitConverter (F := ℚ) (W := ℚ)) smallSettings (fun _ _ => True)
        geometry config ∧ config.memory.consumer.inputOffset = 1 ∧
      config.memory.consumer.inputPending = 3 ∧ InWorkspace geometry config.memory.consumer := by
  let shown (_ : Geometry) (config : RingConfig ℚ Unit ℚ) : Bool :=
    config.resting .consumer && decide (config.memory.consumer.inputOffset = 1 ∧
      config.memory.consumer.inputPending = 3)
  have played : (playRing (unitConverter (F := ℚ) (W := ℚ)) smallSettings
      (uninterrupted .producer (.push [1 / 2]) ++ uninterrupted .producer (.gap 1) ++
        uninterrupted .producer (.push [1 / 4, 1 / 8]) ++
        uninterrupted .consumer .render)).any
      (fun played => shown played.1 played.2) = true := by decide +kernel
  obtain ⟨geometry, config, reached, shows⟩ :=
    reachable_of_plays _ _ _ shown (admitted_any _) played
  obtain ⟨resting, facts⟩ := Bool.and_eq_true_iff.mp shows
  obtain ⟨offset, pending⟩ := of_decide_eq_true facts
  exact ⟨geometry, config, reached, offset, pending,
    workspaces_in_bounds reached (Config.idle_of_resting resting)⟩

end PcmRing
