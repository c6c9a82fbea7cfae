import PcmRing.DrainedBoundary

/-!
# The accepted slots

What the FIFO ever held is what the producer's calls were credited with, one
block for each call, and a gap slot holds silence.
-/

namespace PcmRing

open AtomicProgram TwoLapQueue

variable {F S W : Type} [Binary32 F]

/-- The slots a call offers, without their stamps. -/
def ProducerCall.contents : ProducerCall F → List (F × Bool)
  | .pushSample sample => [(canonicalize sample, false)]
  | .push input | .pushTagged input .. => input.map fun sample => (canonicalize sample, false)
  | .gap samples => List.replicate samples (0, true)
  | .mute .. | .finish | .status _ => []

/-- How many of them a call was credited with. -/
def ProducerCall.credited : ProducerCall F → ProducerResult → Nat
  | .pushSample _, .published accepted => accepted.toNat
  | .push _, .count accepted | .gap _, .count accepted => accepted
  | .pushTagged .., .credit accepted => accepted.getD 0
  | _, _ => 0

/-- The slots one call appended are the credited front of what it offered. -/
def AcceptedBy (record : Returned (Ring F S W) (ProducerCall F) ProducerResult)
    (slots : List (SourceSample F)) : Prop :=
  slots.length = record.call.credited record.result ∧
    slots.map SourceSample.content = record.call.contents.take slots.length

theorem acceptedBy_of_post (record : Returned (Ring F S W) (ProducerCall F) ProducerResult)
    (post : ProducerPost True record.call record.entry record.result record.exit) :
    ∃ slots, record.exit.pcm.published = record.entry.pcm.published ++ slots ∧
      AcceptedBy record slots := by
  have carried {slots : List (SourceSample F)} {offered : List (F × Bool)}
      (front : slots.map SourceSample.content <+: offered) :
      slots.map SourceSample.content = offered.take slots.length := by
    conv_rhs => rw [← List.length_map (f := SourceSample.content)]
    exact List.prefix_iff_eq_take.mp front
  obtain ⟨call, entry, result, exit⟩ := record
  have nothing (appends : Appends entry [] [] exit)
      (none : call.credited result = 0) : ∃ slots,
      exit.pcm.published = entry.pcm.published ++ slots ∧
        AcceptedBy ⟨call, entry, result, exit⟩ slots :=
    ⟨[], appends.published_eq, none.symm, rfl⟩
  cases call with
  | pushSample sample =>
      cases result with
      | published accepted =>
          obtain ⟨slots, appends, rfl, front⟩ := post
          refine ⟨slots, appends.published_eq, ?_, carried front⟩
          have short := front.length_le
          rw [List.length_map, List.length_singleton] at short
          cases slots with
          | nil => rfl
          | cons first rest =>
              obtain rfl : rest = [] := List.length_eq_zero_iff.mp (Nat.le_zero.mp
                (Nat.le_of_succ_le_succ short))
              rfl
      | _ => exact post.elim
  | push input =>
      cases result with
      | count accepted =>
          obtain ⟨slots, appends, rfl, front⟩ := post
          exact ⟨slots, appends.published_eq, rfl, carried front⟩
      | _ => exact post.elim
  | pushTagged input generation sourceStart spans =>
      cases result with
      | credit accepted =>
          cases accepted with
          | none => exact nothing post rfl
          | some accepted =>
              obtain ⟨slots, intervals, appends, rfl, front, -⟩ := post
              exact ⟨slots, appends.published_eq, rfl, carried front⟩
      | _ => exact post.elim
  | gap samples =>
      cases result with
      | count accepted =>
          obtain ⟨slots, appends, rfl, front⟩ := post
          exact ⟨slots, appends.published_eq, rfl, carried front⟩
      | _ => exact post.elim
  | mute generation spans =>
      cases result with
      | credit accepted =>
          cases accepted with
          | none => exact nothing post rfl
          | some credited =>
              obtain ⟨stop, appends, -⟩ := post
              exact ⟨[], appends.published_eq, rfl, rfl⟩
      | _ => exact post.elim
  | finish =>
      cases result with
      | token granted => exact nothing post rfl
      | _ => exact post.elim
  | status token =>
      cases result with
      | status current => exact nothing post rfl
      | _ => exact post.elim

theorem contents_missing {call : ProducerCall F} {sample : F}
    (member : (sample, true) ∈ call.contents) : sample = 0 := by
  cases call with
  | pushSample => simp [ProducerCall.contents] at member
  | push | pushTagged => simp [ProducerCall.contents] at member
  | gap samples => exact congrArg Prod.fst (List.eq_of_mem_replicate member)
  | mute | finish | status => cases member

omit [Binary32 F] in
/-- Nothing is ever withdrawn. -/
theorem published_prefix_effect {geometry : Geometry} (op : Access F S W) (ring : Ring F S W) :
    ring.pcm.published <+: (effect geometry op ring).pcm.published := by
  cases op with
  | pcm access => cases access <;> first | exact List.prefix_refl _ | exact List.prefix_append _ _
  | _ => exact List.prefix_refl _

omit [Binary32 F] in
theorem published_prefix_run {geometry : Geometry} {α : Type} (program : RingProgram F S W α)
    (ring : Ring F S W) :
    ring.pcm.published <+: (program.run (exec geometry) ring).2.pcm.published := by
  induction program generalizing ring with
  | done value => exact List.prefix_refl _
  | act op next ih => exact (published_prefix_effect op ring).trans (ih _ _)

variable [Binary64 W] [Widening F W] {adapter : Adapter F W S} {settings : Settings}
  {geometry : Geometry} {config : RingConfig F S W}

theorem published_of_returned {allowed : (party : Party) → party.Call F → Prop}
    (reached : RingReachable adapter settings allowed geometry config) {party : Party}
    {record : Returned (Ring F S W) (party.Call F) (party.Ret F)}
    (member : record ∈ config.returned party) :
    record.exit.pcm.published <+: config.memory.pcm.published := by
  obtain ⟨ring, created, steps⟩ := reached
  exact related_of_returned (fun before after : Ring F S W =>
    before.pcm.published <+: after.pcm.published)
    ⟨fun _ => List.prefix_refl _, List.IsPrefix.trans⟩ published_prefix_effect steps member

/-- What was published are the accepted blocks of the calls, in order. -/
theorem published_settled
    (reached : RingReachable adapter settings (fun _ _ => True) geometry config) :
    ∃ blocks, List.Forall₂ AcceptedBy (config.returned .producer) blocks ∧
      (config.settled .producer).pcm.published = blocks.flatten := by
  obtain ⟨ring, created, steps⟩ := reached
  have positive : 0 < geometry.capacity :=
    Nat.lt_of_lt_of_le (by decide) (create_capacity created)
  obtain ⟨-, outputDelay, delay, converter, -, initial⟩ := create_cases created
  let spec := drainSpec adapter geometry True (fun _ _ => True) id
  let outline := spec.outline fun call _ => uniform_none call
  have start := spec.initially (fun call _ => uniform_none call) positive initial
    (initial ▸ drainInv_initial positive)
  obtain ⟨blocks, matched, log⟩ := outline.log_of_settled start .producer (fun _ => True)
    (fun _ => trivial) (fun ring => ring.pcm.published) (fun _ moves => moves.published_eq)
    AcceptedBy acceptedBy_of_post steps
  refine ⟨blocks, matched, log.trans ?_⟩
  rw [initial]
  rfl

/-- A gap slot holds silence. -/
theorem published_missing
    (reached : RingReachable adapter settings (fun _ _ => True) geometry config)
    {slot : SourceSample F} (member : slot ∈ config.memory.pcm.published)
    (missing : slot.missing = true) : slot.pcm = 0 := by
  have silent {last : RingConfig F S W}
      (reached : RingReachable adapter settings (fun _ _ => True) geometry last)
      (member : slot ∈ (last.settled .producer).pcm.published) : slot.pcm = 0 := by
    obtain ⟨blocks, matched, publishedEq⟩ := published_settled reached
    rw [publishedEq] at member
    obtain ⟨block, blockMember, inside⟩ := List.mem_flatten.mp member
    obtain ⟨index, bound, rfl⟩ := List.getElem_of_mem blockMember
    obtain ⟨-, contentEq⟩ := matched.get (matched.length_eq ▸ bound) bound
    have offered : slot.content ∈ blocks[index].map SourceSample.content :=
      List.mem_map_of_mem inside
    rw [List.get_eq_getElem] at contentEq
    rw [contentEq, SourceSample.content, missing] at offered
    exact contents_missing (List.mem_of_mem_take offered)
  cases running : config.thread .producer with
  | idle =>
      refine silent reached ?_
      rw [Config.settled_of_idle running]
      exact member
  | running call entry rest =>
      -- Let the producer finish its call; what is published stays.
      obtain ⟨ring, created, steps⟩ := reached
      obtain ⟨last, reachedLast, memoryEq, idle, -⟩ :=
        reachable_of_rest call entry rest steps running
      refine silent ⟨ring, created, reachedLast⟩ ?_
      rw [Config.settled_of_idle idle, memoryEq]
      exact (published_prefix_run rest config.memory).subset member

end PcmRing
