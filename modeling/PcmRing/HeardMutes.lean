import PcmRing.LateMutes

/-!
# Only accepted mutes silence

The mailbox and the history never mute a position that no accepted interval of
the stream meets, however intervals were joined and retired.
-/

namespace PcmRing

open AtomicProgram TwoLapQueue

variable {F S W : Type}

theorem unread_empty {α : Type} {value : α} (capacity : Nat) :
    (Channel.empty value).unread capacity = [] := by
  simp [Channel.empty, Channel.unread, Queue.unread, distance, Queue.segment]

/-- What the mailbox and the history mute was accepted in the stream. -/
structure Heeds (log : StreamLog) (view : RingView F S W) : Prop where
  waiting : ∀ interval ∈ view.records, interval ∈ log.accepted
  heard : ∀ position, view.consumer.muteHistory.Meets position →
    ∃ interval ∈ log.accepted, interval.Meets position

theorem meets_of_retire {history : History} {played : Option Position} {position : Position}
    (met : (history.retire played).Meets position) : history.Meets position := by
  cases played with
  | none => exact met
  | some played =>
      obtain ⟨interval, member, meets⟩ := met
      exact ⟨interval, (List.dropWhile_sublist _).subset member, meets⟩

/-- Receiving mutes nothing that is neither waiting nor muted. -/
theorem receiveAll_heeds (records : List Interval) (state : ConsumerState F S W)
    {position : Position} (met : (state.receiveAll records).muteHistory.Meets position) :
    (∃ interval ∈ records, interval.Meets position) ∨ state.muteHistory.Meets position := by
  unfold ConsumerState.receiveAll at met
  induction records generalizing state with
  | nil => exact .inr met
  | cons interval records ih =>
      rcases ih (state.receive interval) met with ⟨other, member, meets⟩ | earlier
      · exact .inl ⟨other, List.mem_cons_of_mem _ member, meets⟩
      · rcases History.meets_of_insert earlier with meets | earlier
        · exact .inl ⟨interval, List.mem_cons_self, meets⟩
        · exact .inr earlier

section Heeding

variable {geometry : Geometry} {log : StreamLog} {view : RingView F S W}

theorem Heeds.started (heeds : Heeds log view) {position : Position}
    (met : view.started.muteHistory.Meets position) :
    ∃ interval ∈ log.accepted, interval.Meets position := by
  have captured : ∃ captured : ConsumerState F S W,
      view.started = captured.receiveAll view.records ∧
      captured.muteHistory = view.consumer.muteHistory := by
    refine ⟨_, rfl, ?_⟩
    split <;> rfl
  obtain ⟨captured, startedEq, historyEq⟩ := captured
  rw [startedEq] at met
  rcases receiveAll_heeds view.records captured met with ⟨interval, member, meets⟩ | earlier
  · exact ⟨interval, heeds.waiting interval member, meets⟩
  · exact heeds.heard position (historyEq ▸ earlier)

variable [Binary32 F] [Binary64 W] [Widening F W] {adapter : Adapter F W S}

theorem Heeds.render (adapter : Adapter F W S) (positive : 0 < geometry.capacity)
    (heeds : Heeds log view) :
    Heeds (log.close (view.exit adapter geometry)) (view.render adapter geometry).2 := by
  have keeps : RefillKeeps adapter geometry fun (_ : ConsumerState F S W) _ => True := by
    constructor <;> intros <;> trivial
  have ended : (view.exit adapter geometry).Meets geometry _ view.started.muteHistory :=
    ConsumerState.readyExit_meets keeps positive trivial
  have heard : ∀ position, view.started.muteHistory.Meets position →
      ∃ interval ∈ log.accepted, interval.Meets position := fun _ met => heeds.started met
  rw [RingView.render_eq_close]
  generalize view.exit adapter geometry = exit at ended ⊢
  have nothing {interval : Interval} {P : Prop} (waiting : interval ∈ ([] : List Interval)) : P :=
    (List.not_mem_nil waiting).elim
  cases exit with
  | silent slots state errored =>
      obtain ⟨-, historyEq⟩ := ended
      exact ⟨fun _ => nothing, historyEq ▸ heard⟩
  | completed slots state boundary failed =>
      refine ⟨fun interval waiting => ?_, fun position met => ?_⟩
      · change interval ∈
          (if (!(state.reset adapter).1 || failed) = true then [] else []) at waiting
        rw [ite_self] at waiting
        exact nothing waiting
      · obtain ⟨interval, member, -⟩ := met
        exact nothing member
  | released slots state boundary =>
      obtain ⟨-, historyEq, -⟩ := ended
      obtain ⟨plc, releaseEq⟩ := release_cases geometry state boundary
      refine ⟨fun _ => nothing, fun position met => heard position ?_⟩
      change (state.release geometry boundary).2.muteHistory.Meets position at met
      rw [releaseEq] at met
      exact historyEq ▸ meets_of_retire met
  | emitted slots state result =>
      obtain ⟨-, historyEq, -⟩ := ended
      refine ⟨fun _ => nothing, fun position met => heard position ?_⟩
      obtain ⟨output, ⟨plc, outputEq⟩, -, stateEq⟩ := state.emission_eq geometry result
      change (state.emission geometry result).state.muteHistory.Meets position at met
      rw [stateEq] at met
      have delayed (support : Option Position) :
          (output.2.delayPosition geometry.lookahead support).2.muteHistory =
            state.muteHistory := by
        obtain ⟨positions, cursor, delayedEq⟩ :=
          ConsumerState.delayPosition_state geometry.lookahead support output.2
        rw [delayedEq, outputEq]
        unfold ConsumerState.popped
        split <;> rfl
      have earlier := meets_of_retire met
      rw [delayed] at earlier
      exact historyEq ▸ earlier

/-- Every call keeps it that only accepted intervals are heard. -/
theorem Heeds.perform (positive : 0 < geometry.capacity) (heeds : Heeds log view)
    (call : RingCall F) : Heeds (log.perform adapter geometry call view)
      (view.perform adapter geometry call).2 := by
  obtain ⟨party, call⟩ := call
  cases party with
  | producer =>
      obtain ⟨consumer, records⟩ : (view.produce geometry call).2.consumer = view.consumer ∧ _ :=
        produce_records call view
      change Heeds _ (view.produce geometry call).2
      refine ⟨fun interval waiting => ?_, fun position met => ?_⟩
      · rw [records] at waiting
        exact List.mem_append.mpr ((List.mem_append.mp waiting).imp_left
          (heeds.waiting interval))
      · rw [consumer] at met
        obtain ⟨interval, member, meets⟩ := heeds.heard position met
        exact ⟨interval, List.mem_append_left _ member, meets⟩
  | consumer =>
      cases call with
      | render => exact heeds.render adapter positive
      | reset =>
          refine ⟨fun interval waiting => (List.not_mem_nil waiting).elim, fun position met => ?_⟩
          obtain ⟨interval, member, -⟩ := met
          exact (List.not_mem_nil member).elim

theorem Heeds.performAll (positive : 0 < geometry.capacity) (heeds : Heeds log view)
    (calls : List (RingCall F)) : Heeds (log.performAll adapter geometry calls view)
      (view.performAll adapter geometry calls).2 := by
  induction calls generalizing view log with
  | nil => exact heeds
  | cons call rest ih => exact ih (heeds.perform positive call)

omit [Widening F W] in
theorem heeds_created {settings : Settings} {ring : Ring F S W}
    (created : Ring.create adapter settings = .ok (geometry, ring)) :
    Heeds ⟨[], []⟩ (ring.view geometry) := by
  obtain ⟨-, outputDelay, queued, converter, rfl, rfl⟩ := create_cases created
  refine ⟨fun interval waiting => ?_, fun position met => ?_⟩
  · have empty (consumer : ConsumerState F S W) : ((Ring.initial consumer).view
        (settings.geometry outputDelay queued)).records = [] := by
      dsimp only [Ring.view, Ring.initial]
      exact unread_empty _
    rw [empty] at waiting
    exact (List.not_mem_nil waiting).elim
  · obtain ⟨interval, member, -⟩ := met
    exact (List.not_mem_nil member).elim

end Heeding

end PcmRing
