import PcmRing.AtomicProducer

/-!
# Runs of atomic calls

Calls of the two endpoints, one after the other and each without interruption:
on a ring, and on the atomic ring that it refines.
-/

namespace PcmRing

open AtomicProgram TwoLapQueue

variable {F S W : Type}

/-- One call of either endpoint. -/
abbrev RingCall (F : Type) : Type :=
  (party : Party) × party.Call F

/-- What a call of either endpoint returns. -/
abbrev RingReply (F : Type) : Type :=
  (party : Party) × party.Ret F

/-- The output of a render, if the reply is one. -/
def RingReply.output : RingReply F → Option (Rendered F)
  | ⟨.consumer, .rendered output⟩ => some output
  | _ => none

section Runs

variable [Binary32 F] [Binary64 W] [Widening F W] (adapter : Adapter F W S) (geometry : Geometry)

/-- Carry out one call. -/
def Ring.perform (call : RingCall F) (ring : Ring F S W) : RingReply F × Ring F S W :=
  let ended := (body adapter geometry call.1 call.2).run (exec geometry) ring
  (⟨call.1, ended.1⟩, ended.2)

/-- Carry out calls in order. -/
def Ring.performAll : List (RingCall F) → Ring F S W → List (RingReply F) × Ring F S W
  | [], ring => ([], ring)
  | call :: rest, ring =>
      let first := ring.perform adapter geometry call
      let others := performAll rest first.2
      (first.1 :: others.1, others.2)

namespace RingView

/-- Carry out one call. -/
def perform (call : RingCall F) (view : RingView F S W) : RingReply F × RingView F S W :=
  match call with
  | ⟨.producer, call⟩ => (⟨.producer, (view.produce geometry call).1⟩,
      (view.produce geometry call).2)
  | ⟨.consumer, call⟩ => (⟨.consumer, (view.consume adapter geometry call).1⟩,
      (view.consume adapter geometry call).2)

/-- Carry out calls in order. -/
def performAll : List (RingCall F) → RingView F S W → List (RingReply F) × RingView F S W
  | [], view => ([], view)
  | call :: rest, view =>
      let first := view.perform adapter geometry call
      let others := performAll rest first.2
      (first.1 :: others.1, others.2)

variable {adapter geometry} {view : RingView F S W}

theorem performAll_cons (call : RingCall F) (rest : List (RingCall F)) :
    view.performAll adapter geometry (call :: rest) =
      ((view.perform adapter geometry call).1 ::
        ((view.perform adapter geometry call).2.performAll adapter geometry rest).1,
        ((view.perform adapter geometry call).2.performAll adapter geometry rest).2) := rfl

theorem performAll_append (first rest : List (RingCall F)) :
    view.performAll adapter geometry (first ++ rest) =
      ((view.performAll adapter geometry first).1 ++
        ((view.performAll adapter geometry first).2.performAll adapter geometry rest).1,
        ((view.performAll adapter geometry first).2.performAll adapter geometry rest).2) := by
  induction first generalizing view with
  | nil => rfl
  | cons call first ih => simp only [List.cons_append, performAll_cons, ih]

theorem performAll_keeps {inv : RingView F S W → Prop}
    (keeps : ∀ view call, inv view → inv (view.perform adapter geometry call).2)
    (calls : List (RingCall F)) (start : inv view) :
    inv (view.performAll adapter geometry calls).2 := by
  induction calls generalizing view with
  | nil => exact start
  | cons call rest ih => exact ih (keeps _ _ start)

end RingView

variable {geometry} {ring : Ring F S W}

theorem perform_view (holds : ProducerHolds geometry True none ring) (call : RingCall F) :
    ProducerHolds geometry True none (ring.perform adapter geometry call).2 ∧
      ((ring.perform adapter geometry call).1,
        (ring.perform adapter geometry call).2.view geometry) =
          (ring.view geometry).perform adapter geometry call := by
  obtain ⟨party, call⟩ := call
  cases party with
  | producer =>
      obtain ⟨kept, same⟩ := atomic_producerBody call ring holds
      exact ⟨kept, congrArg (fun ended : ProducerResult × RingView F S W =>
        ((⟨.producer, ended.1⟩, ended.2) : RingReply F × RingView F S W)) same⟩
  | consumer =>
      have refined : Atomic geometry (consumerBody adapter geometry call)
        (RingView.consume adapter geometry call) := atomic_consumerBody call
      obtain ⟨kept, same⟩ := refined ring holds
      exact ⟨kept, congrArg (fun ended : ConsumerResult F × RingView F S W =>
        ((⟨.consumer, ended.1⟩, ended.2) : RingReply F × RingView F S W)) same⟩

theorem performAll_view (holds : ProducerHolds geometry True none ring)
    (calls : List (RingCall F)) :
    ProducerHolds geometry True none (ring.performAll adapter geometry calls).2 ∧
      ((ring.performAll adapter geometry calls).1,
        (ring.performAll adapter geometry calls).2.view geometry) =
          (ring.view geometry).performAll adapter geometry calls := by
  induction calls generalizing ring with
  | nil => exact ⟨holds, rfl⟩
  | cons call rest ih =>
      obtain ⟨between, same⟩ := perform_view adapter holds call
      obtain ⟨kept, others⟩ := ih between
      refine ⟨kept, ?_⟩
      rw [RingView.performAll_cons, ← same, ← others]
      rfl

end Runs

theorem producerHolds_created [Binary32 F] [Binary64 W] {adapter : Adapter F W S}
    {settings : Settings} {geometry : Geometry} {ring : Ring F S W}
    (created : Ring.create adapter settings = .ok (geometry, ring)) :
    ProducerHolds geometry True none ring := by
  have positive : 0 < geometry.capacity :=
    Nat.lt_of_lt_of_le (by decide) (create_capacity created)
  obtain ⟨-, outputDelay, delay, converter, -, rfl⟩ := create_cases created
  exact producerHolds_initial positive

theorem exists_created [Binary32 F] [Binary64 W] (adapter : Adapter F W S) (settings : Settings)
    (check : Geometry → Ring F S W → Bool)
    (checked : (Ring.create adapter settings).toOption.any
      (fun created => check created.1 created.2) = true) :
    ∃ geometry ring, Ring.create adapter settings = .ok (geometry, ring) ∧
      check geometry ring = true := by
  cases made : Ring.create adapter settings with
  | error error =>
      rw [made] at checked
      cases checked
  | ok pair =>
      rw [made] at checked
      exact ⟨pair.1, pair.2, rfl, checked⟩

end PcmRing
