import PcmRing.ClockBounds
import PcmRing.PlainRuns

/-!
# Ratios in rounding arithmetic

With any rounding of `f64`, and whatever the adapter answers, no conversion of
any schedule is given a ratio outside the public bounds.
-/

namespace PcmRing

open AtomicProgram

variable {F S W : Type} [Binary64 W] [OrderedBinary64 W]

/-- The ratio is cleared or within the bounds, and so is every ratio listed. -/
structure Bracketed (state : ConsumerState F (S × List W) W) : Prop where
  ratio : RatioSet state.ratio
  log : ∀ ratio ∈ state.converter.2, Bounded ratio

namespace Bracketed

variable {state : ConsumerState F (S × List W) W}

theorem agree {other : ConsumerState F (S × List W) W} (bracketed : Bracketed state)
    (ratioEq : other.ratio = state.ratio) (logEq : other.converter.2 = state.converter.2) :
    Bracketed other where
  ratio := ratioEq ▸ bracketed.ratio
  log := logEq ▸ bracketed.log

/-- A conversion lists at most the ratio that was set for it. -/
theorem timed {after : ConsumerState F (S × List W) W} (bracketed : Bracketed state)
    (bounded : Bounded state.ratio) (step : Timed state after) : Bracketed after where
  ratio := .inr (step.ratio_eq ▸ bounded)
  log ratio member := by
    rcases step.log with same | appended
    · exact bracketed.log ratio (same ▸ member)
    · rw [appended] at member
      rcases List.mem_append.mp member with earlier | last
      · exact bracketed.log ratio earlier
      · exact List.mem_singleton.mp last ▸ bounded

theorem acceptSource (bracketed : Bracketed state) (gapCapacity : Nat) (slot : SourceSample F) :
    Bracketed (state.acceptSource gapCapacity slot).2 := by
  have fenced : Bracketed (state.fence slot.stamp).2 := by
    rcases state.fence_cases slot.stamp with
      ⟨-, fenced⟩ | ⟨mark, -, -, fenced⟩ | ⟨mark, -, -, fenced⟩ <;> rw [fenced] <;>
      exact bracketed.agree rfl rfl
  rcases state.acceptSource_cases gapCapacity slot with
    ⟨gaps, -, -, accepted⟩ | ⟨-, accepted⟩ | ⟨-, -, -, accepted⟩
  · rw [accepted]
    exact fenced.agree rfl rfl
  · rw [accepted]
    exact fenced.agree rfl rfl
  · rw [accepted]
    exact fenced.agree rfl rfl

end Bracketed

theorem bracketedKept [Binary32 F] [Widening F W] {adapter : Adapter F W S} {geometry : Geometry}
    (targetLt : geometry.target < 2 ^ 32)
    (nominal : Bounded (nominalRatio W geometry.outputRateHz geometry.inputRateHz))
    {shape : List (SourceSample F) → List SlotNote → Prop} :
    SteeredInvariant adapter.timing geometry shape (fun state _ => Bracketed state)
      fun state _ => Bracketed state ∧ Bounded state.ratio where
  published _ _ bracketed := bracketed
  same _ bracketed := bracketed
  capture _ _ _ bracketed := bracketed.agree rfl rfl
  receive _ _ bracketed := bracketed.agree rfl rfl
  flags _ _ bracketed := bracketed.agree rfl rfl
  space {state ring} wanted _ _ bracketed := by
    unfold ConsumerState.makeInputSpace
    split
    · exact bracketed
    · exact bracketed.agree rfl rfl
  take _ _ _ _ _ bracketed := bracketed.acceptSource _ _
  pad _ _ _ bracketed := by
    unfold ConsumerState.padInput
    split
    · exact bracketed.agree rfl rfl
    · exact bracketed
  query _ _ bracketed := bracketed.agree rfl rfl
  steer smoothed _ bracketed := by
    have bounded := steeredRatio_bounded targetLt nominal bracketed.ratio smoothed
    exact ⟨⟨.inr bounded, bracketed.log⟩, bounded⟩
  nominal _ bracketed := ⟨⟨.inr nominal, bracketed.log⟩, nominal⟩
  keep _ nonzero bracketed := ⟨bracketed, bracketed.ratio.bounded nonzero⟩
  setPublished _ _ bracketed := bracketed
  setSame _ bracketed := bracketed
  convert _ _ bracketed := bracketed.1.timed bracketed.2 (convert_timed adapter geometry _ _)
  emit {slack result state ring} _ _ _ bracketed := by
    obtain ⟨plc, plcPositions, plcPosition, muteHistory, emissionEq⟩ :=
      state.emission_state geometry result
    rw [emissionEq]
    unfold ConsumerState.popped
    split
    · exact bracketed.agree rfl rfl
    · exact bracketed.agree rfl rfl
  release {state boundary ring} _ _ _ bracketed := by
    obtain ⟨plc, releaseEq⟩ := release_cases geometry state boundary
    rw [releaseEq]
    exact bracketed.agree rfl rfl
  reset {state earlier ring} quiet bracketed _ := by
    refine ⟨.inl ?_, bracketed.log⟩
    have zeroEq := value_int (W := W) 0 (by decide)
    exact_mod_cast zeroEq

/-- What the clock control may hand the adapter. -/
structure Presentable (ratio : W) : Prop where
  bounded : ∃ exact, LawfulBinary64.value ratio = some exact ∧ 1 / 256 ≤ exact ∧ exact ≤ 256
  finite : Binary64.isFinite ratio = true
  positive : Binary64.le ratio (Binary64.ofRat 0) = false

/-- In every schedule, with any rounding and any adapter, the ratio of the
consumer is cleared or presentable, and every ratio ever handed to the adapter
is presentable. -/
theorem ratios_presentable [Binary32 F] [Widening F W] {adapter : Adapter F W S}
    {settings : Settings} {geometry : Geometry} {config : RingConfig F (S × List W) W}
    (reached : RingReachable adapter.timing settings (fun _ _ => True) geometry config)
    (idle : config.thread .consumer = .idle) :
    (LawfulBinary64.value config.memory.consumer.ratio = some 0 ∨
        Presentable config.memory.consumer.ratio) ∧
      ∀ ratio ∈ config.memory.consumer.converter.2, Presentable ratio := by
  have presentable (ratio : W) (bounded : Bounded ratio) : Presentable ratio :=
    ⟨bounded, bounded.usable.1, bounded.usable.2⟩
  obtain ⟨ring, created, steps⟩ := reached
  have sound : geometry.AtUnitRate W := atUnitRate_created created
  have log : ring.consumer.converter.2 = [] := by
    refine @create_handle _ _ _ _ _ _ _ _ _ created (fun handle => handle.2 = []) ?_ ?_ ?_
    · intro inputRate outputRate maxInput maxOutput handle made
      obtain ⟨bare, -, rfl⟩ := Option.map_eq_some_iff.mp made
      rfl
    · exact fun _ nothing => nothing
    · exact fun _ nothing => nothing
  have start : Bracketed ring.consumer := by
    obtain ⟨-, outputDelay, delay, converter, -, initial⟩ := create_cases created
    refine ⟨.inl ?_, fun ratio member => by rw [log] at member; cases member⟩
    rw [initial]
    have zeroEq := value_int (W := W) 0 (by decide)
    exact_mod_cast zeroEq
  obtain ⟨-, bracketed⟩ :=
    invariant_of_idle (bracketedKept sound.targetLt sound.nominal) created start steps idle
  exact ⟨bracketed.ratio.imp_right (presentable _), fun ratio member =>
    presentable ratio (bracketed.log ratio member)⟩

/-- A sample is published and the next render converts it. -/
theorem ratios_presentable_after_a_render :
    ∃ (geometry : Geometry) (config : RingConfig ℚ (Unit × List ℚ) ℚ) (ratio : ℚ),
      RingReachable (unitConverter (F := ℚ) (W := ℚ)).timing smallSettings (fun _ _ => True)
        geometry config ∧ ratio ∈ config.memory.consumer.converter.2 ∧ Presentable ratio := by
  let shown (_ : Geometry) (config : RingConfig ℚ (Unit × List ℚ) ℚ) : Bool :=
    config.resting .consumer && !config.memory.consumer.converter.2.isEmpty
  have played : (playRing (unitConverter (F := ℚ) (W := ℚ)).timing smallSettings
      (uninterrupted .producer (.push [1 / 2]) ++ uninterrupted .consumer .render)).any
      (fun played => shown played.1 played.2) = true := by decide +kernel
  obtain ⟨geometry, config, reached, shows⟩ :=
    reachable_of_plays _ _ _ shown (admitted_any _) played
  obtain ⟨resting, listed⟩ := Bool.and_eq_true_iff.mp shows
  have some : config.memory.consumer.converter.2 ≠ [] := by simpa using listed
  obtain ⟨ratio, member⟩ := List.exists_mem_of_ne_nil _ some
  obtain ⟨-, presentable⟩ := ratios_presentable reached (Config.idle_of_resting resting)
  exact ⟨geometry, config, ratio, reached, member, presentable ratio member⟩

end PcmRing
