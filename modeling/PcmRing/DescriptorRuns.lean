import PcmRing.Descriptor

/-!
# Runs through the function table

Whatever a caller passes, every call through the descriptor is a run of endpoint
calls that respect the block bounds, and its code is read from their replies.  A
call that is rejected as invalid leaves the caller's memory, everything visible of
the ring and its diagnostics as they were.
-/

namespace PcmRing

open AtomicProgram TwoLapQueue

variable {F S W α : Type}

/-- The bounds on what a caller may pass in one call. -/
def InBounds (geometry : Geometry) : RingCall F → Prop
  | ⟨.producer, .push input⟩ => input.length ≤ geometry.maxProducer
  | ⟨.producer, .pushTagged input _ _ spans⟩ =>
      input.length ≤ geometry.maxProducer ∧ spans.length ≤ maxSpans
  | ⟨.producer, .gap samples⟩ => samples ≤ geometry.maxProducer
  | ⟨.producer, .mute _ spans⟩ => spans.length ≤ maxSpans
  | _ => True

/-- The consumer reports a failed adapter, or a fault. -/
def Faulty : RingReply F → Prop
  | ⟨.consumer, .rendered output⟩ => output.2.2 = true
  | ⟨.consumer, .reset succeeded⟩ => succeeded = false
  | _ => False

/-- The producer's call is turned down as a whole. -/
def Declined : RingReply F → Prop
  | ⟨.producer, .credit none⟩ | ⟨.producer, .token none⟩ | ⟨.producer, .status none⟩ => True
  | _ => False

instance (reply : RingReply F) : Decidable (Faulty reply) :=
  match reply with
  | ⟨.consumer, .rendered output⟩ => inferInstanceAs (Decidable (output.2.2 = true))
  | ⟨.consumer, .reset succeeded⟩ => inferInstanceAs (Decidable (succeeded = false))
  | ⟨.producer, _⟩ => inferInstanceAs (Decidable False)

instance (reply : RingReply F) : Decidable (Declined reply) :=
  match reply with
  | ⟨.producer, .credit none⟩ | ⟨.producer, .token none⟩ | ⟨.producer, .status none⟩ =>
      inferInstanceAs (Decidable True)
  | ⟨.producer, .credit (some _)⟩ | ⟨.producer, .token (some _)⟩
  | ⟨.producer, .status (some _)⟩ | ⟨.producer, .published _⟩ | ⟨.producer, .count _⟩
  | ⟨.consumer, _⟩ => inferInstanceAs (Decidable False)

/-- The endpoint calls that an entry makes, unless it turns its arguments down. -/
def AbiCall.requests (geometry : Geometry) (memory : CallerMemory F) :
    AbiCall F → Option (List (RingCall F))
  | .producerPushSample .ring sample (some _) => some [⟨.producer, .pushSample sample⟩]
  | .producerPush .ring input samples (some _) =>
      if geometry.maxProducer < samples then none
      else (memory.checkedInput input samples).map fun block => [⟨.producer, .push block⟩]
  | .producerGap .ring samples (some _) =>
      if geometry.maxProducer < samples then none else some [⟨.producer, .gap samples⟩]
  | .producerPushTagged .ring input samples generation sourceStart spans count (some _) =>
      if geometry.maxProducer < samples then none
      else
        match memory.checkedInput input samples, memory.checkedSpans spans count with
        | none, _ | _, none => none
        | some block, some marks =>
            some [⟨.producer, .pushTagged block generation sourceStart marks⟩]
  | .producerMute .ring generation spans count (some _) =>
      (memory.checkedSpans spans count).map fun marks => [⟨.producer, .mute generation marks⟩]
  | .producerFinish .ring (some _) => some [⟨.producer, .finish⟩]
  | .finishStatus .ring token (some _) => some [⟨.producer, .status token⟩]
  | .consumerReset .ring => some [⟨.consumer, .reset⟩]
  | .consumerRenderSample .ring (some _) (some _) => some [⟨.consumer, .render⟩]
  | .consumerRender .ring output samples (some _) =>
      if geometry.maxOutput < samples then none
      else (checkedOutput output samples).map fun _ => List.replicate samples ⟨.consumer, .render⟩
  | .observe .ring (some observation) =>
      if (memory.observations observation).structSize < observationSize then none else some []
  | .outputDelay .ring (some _) => some []
  | _ => none

/-- The code for what the endpoints reply to an entry. -/
def resultCode (replies : Option (List (RingReply F))) : Int :=
  match replies with
  | none => resultInvalidArgument
  | some replies =>
      if ∃ reply ∈ replies, Faulty reply then resultAdapterError
      else if ∃ reply ∈ replies, Declined reply then resultInvalidArgument
      else resultOk

theorem resultCode_cases (replies : Option (List (RingReply F))) : resultCode replies = resultOk ∨
    resultCode replies = resultInvalidArgument ∨ resultCode replies = resultAdapterError := by
  unfold resultCode
  split
  · exact .inr (.inl rfl)
  · split
    · exact .inr (.inr rfl)
    · split
      · exact .inr (.inl rfl)
      · exact .inl rfl

namespace CallerMemory

theorem length_checkedInput {memory : CallerMemory F} {input : Pointer} {samples : Nat}
    {block : List F} (checked : memory.checkedInput input samples = some block) :
    block.length = samples := by
  unfold checkedInput at checked
  split at checked
  · rename_i empty
    cases checked
    exact empty.symm
  · obtain ⟨address, -, rfl⟩ := Option.map_eq_some_iff.mp checked
    rw [slice, List.length_map, List.length_range]

theorem length_checkedSpans {memory : CallerMemory F} {spans : Pointer} {count : Nat}
    {block : List Span} (checked : memory.checkedSpans spans count = some block) :
    block.length ≤ maxSpans := by
  unfold checkedSpans at checked
  split at checked
  · cases checked
  · rename_i few
    split at checked
    · cases checked
      exact Nat.zero_le _
    · obtain ⟨address, -, rfl⟩ := Option.map_eq_some_iff.mp checked
      rw [slice, List.length_map, List.length_range]
      exact Nat.not_lt.mp few

end CallerMemory

section Entries

variable [Binary32 F] [Binary64 W] [Widening F W] (adapter : Adapter F W S) (geometry : Geometry)

/-- An entry carries out the calls that it requests, and its code tells the replies. -/
structure Forwards (host : Host F S W) (outcome : Outcome F S W)
    (requests : Option (List (RingCall F))) : Prop where
  bounded : ∀ calls ∈ requests, ∀ call ∈ calls, InBounds geometry call
  ring_eq : outcome.2.ring = (host.ring.performAll adapter geometry (requests.getD [])).2
  code_eq : outcome.1 =
    resultCode (requests.map fun calls => (host.ring.performAll adapter geometry calls).1)
  invalid : outcome.1 = resultInvalidArgument → outcome.2.memory = host.memory ∧
    ∀ reply ∈ (host.ring.performAll adapter geometry (requests.getD [])).1, Declined reply

variable {adapter geometry} {host : Host F S W}

theorem Host.forwards_refuse : Forwards adapter geometry host host.refuse none where
  bounded _ requested := nomatch requested
  ring_eq := rfl
  code_eq := rfl
  invalid _ := ⟨rfl, fun _ member => nomatch member⟩

theorem Host.forwards_store (change : CallerMemory F → CallerMemory F) :
    Forwards adapter geometry host (resultOk, host.store change) (some []) where
  bounded _ requested _ member := by
    cases requested
    cases member
  ring_eq := rfl
  code_eq := by
    unfold resultCode
    exact Eq.symm ((if_neg fun ⟨_, member, _⟩ => nomatch member).trans
      (if_neg fun ⟨_, member, _⟩ => nomatch member))
  invalid rejected := absurd rejected (by decide : resultOk ≠ resultInvalidArgument)

omit [Binary32 F] [Binary64 W] [Widening F W] in
/-- A ring call runs the operation behind it, and wraps its answer. -/
theorem run_wrapped {β : Type} (geometry : Geometry) (operation : RingProgram F S W α) (wrap : α → β)
    (ring : Ring F S W) :
    ((do return wrap (← operation)) : RingProgram F S W β).run (exec geometry) ring =
      (wrap (operation.run (exec geometry) ring).1, (operation.run (exec geometry) ring).2) := by
  rw [Program.run_bind]
  rfl

theorem forwards_producer {call : ProducerCall F} {operation : RingProgram F S W α}
    {wrap : α → ProducerResult} {outcome : Outcome F S W}
    (same : producerBody geometry call = do return wrap (← operation))
    (bounded : InBounds geometry ⟨.producer, call⟩)
    (ring_eq : outcome.2.ring = (host.operate geometry operation).2.ring)
    (code : outcome.1 = resultOk ∧
        ¬Declined (F := F) ⟨.producer, wrap (host.operate geometry operation).1⟩ ∨
      outcome.1 = resultInvalidArgument ∧ outcome.2.memory = host.memory ∧
        Declined (F := F) ⟨.producer, wrap (host.operate geometry operation).1⟩) :
    Forwards adapter geometry host outcome (some [⟨.producer, call⟩]) := by
  have performed : host.ring.performAll adapter geometry [⟨.producer, call⟩] =
      ([⟨.producer, wrap (host.operate geometry operation).1⟩],
        (host.operate geometry operation).2.ring) := by
    have run := run_wrapped geometry operation wrap host.ring
    rw [← same] at run
    exact congrArg (fun ended : ProducerResult × Ring F S W =>
      (([⟨.producer, ended.1⟩], ended.2) : List (RingReply F) × Ring F S W)) run
  constructor
  · rintro _ ⟨⟩ _ member
    exact List.mem_singleton.mp member ▸ bounded
  · rw [Option.getD_some, performed]
    exact ring_eq
  · simp only [Option.map_some, performed, resultCode, List.mem_singleton, exists_eq_left]
    rw [if_neg (fun faulty => faulty.elim)]
    rcases code with ⟨accepted, kept⟩ | ⟨rejected, -, declined⟩
    · rw [if_neg kept, accepted]
    · rw [if_pos declined, rejected]
  · intro rejected
    rcases code with ⟨accepted, -⟩ | ⟨-, kept, declined⟩
    · exact absurd (accepted.symm.trans rejected) (by decide)
    · refine ⟨kept, fun _ member => ?_⟩
      rw [Option.getD_some, performed] at member
      rw [List.mem_singleton.mp member]
      exact declined

theorem forwards_option {call : ProducerCall F} {operation : RingProgram F S W (Option α)}
    {wrap : Option α → ProducerResult} {outcome : Outcome F S W}
    (same : producerBody geometry call = do return wrap (← operation))
    (bounded : InBounds geometry ⟨.producer, call⟩)
    (declines : Declined (F := F) ⟨.producer, wrap none⟩)
    (accepts : ∀ answer, ¬Declined (F := F) ⟨.producer, wrap (some answer)⟩)
    (rejected : (host.operate geometry operation).1 = none →
      outcome = (resultInvalidArgument, (host.operate geometry operation).2))
    (accepted : ∀ answer, (host.operate geometry operation).1 = some answer →
      outcome.1 = resultOk ∧ outcome.2.ring = (host.operate geometry operation).2.ring) :
    Forwards adapter geometry host outcome (some [⟨.producer, call⟩]) := by
  cases answered : (host.operate geometry operation).1 with
  | none =>
      rw [rejected answered]
      refine forwards_producer same bounded rfl (.inr ⟨rfl, rfl, ?_⟩)
      rw [answered]
      exact declines
  | some answer =>
      obtain ⟨code, kept⟩ := accepted answer answered
      refine forwards_producer same bounded kept (.inl ⟨code, ?_⟩)
      rw [answered]
      exact accepts answer

theorem forwards_producerPushSample (handle : Handle) (sample : F) (accepted : Pointer) :
    Forwards adapter geometry host (ringProducerPushSample geometry handle sample accepted host)
      ((AbiCall.producerPushSample handle sample accepted).requests geometry host.memory) := by
  cases accepted with
  | none => cases handle <;> exact Host.forwards_refuse
  | some accepted =>
      cases handle with
      | null => exact Host.forwards_refuse
      | ring => exact forwards_producer rfl trivial rfl (.inl ⟨rfl, id⟩)

theorem forwards_producerPush (handle : Handle) (input : Pointer) (samples : Nat)
    (accepted : Pointer) :
    Forwards adapter geometry host (ringProducerPush geometry handle input samples accepted host)
      ((AbiCall.producerPush handle input samples accepted).requests geometry host.memory) := by
  cases accepted with
  | none => cases handle <;> exact Host.forwards_refuse
  | some accepted =>
      cases handle with
      | null => exact Host.forwards_refuse
      | ring =>
          unfold ringProducerPush AbiCall.requests
          dsimp only
          split
          · exact Host.forwards_refuse
          rename_i fits
          cases checked : host.memory.checkedInput input samples with
          | none => exact Host.forwards_refuse
          | some block =>
              have bounded : InBounds geometry ⟨.producer, .push block⟩ :=
                (CallerMemory.length_checkedInput checked).trans_le (Nat.not_lt.mp fits)
              exact forwards_producer rfl bounded rfl (.inl ⟨rfl, id⟩)

theorem forwards_producerGap (handle : Handle) (samples : Nat) (accepted : Pointer) :
    Forwards adapter geometry host (ringProducerGap geometry handle samples accepted host)
      ((AbiCall.producerGap handle samples accepted).requests geometry host.memory) := by
  cases accepted with
  | none => cases handle <;> exact Host.forwards_refuse
  | some accepted =>
      cases handle with
      | null => exact Host.forwards_refuse
      | ring =>
          unfold ringProducerGap AbiCall.requests
          dsimp only
          split
          · exact Host.forwards_refuse
          rename_i fits
          have bounded : InBounds (F := F) geometry ⟨.producer, .gap samples⟩ := Nat.not_lt.mp fits
          exact forwards_producer rfl bounded rfl (.inl ⟨rfl, id⟩)

theorem forwards_producerPushTagged (handle : Handle) (input : Pointer) (samples generation
    sourceStart : Nat) (spans : Pointer) (count : Nat) (accepted : Pointer) :
    Forwards adapter geometry host (ringProducerPushTagged geometry handle input samples
        generation sourceStart spans count accepted host)
      ((AbiCall.producerPushTagged handle input samples generation sourceStart spans count
        accepted).requests geometry host.memory) := by
  cases accepted with
  | none => cases handle <;> exact Host.forwards_refuse
  | some accepted =>
      cases handle with
      | null => exact Host.forwards_refuse
      | ring =>
          unfold ringProducerPushTagged AbiCall.requests
          dsimp only
          split
          · exact Host.forwards_refuse
          rename_i fits
          cases checked : host.memory.checkedInput input samples with
          | none => exact Host.forwards_refuse
          | some block =>
              cases limited : host.memory.checkedSpans spans count with
              | none => exact Host.forwards_refuse
              | some marks =>
                  have bounded : InBounds geometry
                      ⟨.producer, .pushTagged block generation sourceStart marks⟩ :=
                    ⟨(CallerMemory.length_checkedInput checked).trans_le (Nat.not_lt.mp fits),
                      CallerMemory.length_checkedSpans limited⟩
                  dsimp only
                  refine forwards_option rfl bounded ?_ ?_ ?_ ?_
                  · trivial
                  · exact fun _ => id
                  · exact fun declined => by rw [declined]
                  · exact fun credit granted => by rw [granted]; exact ⟨rfl, rfl⟩

theorem forwards_producerMute (handle : Handle) (generation : Nat) (spans : Pointer) (count : Nat)
    (accepted : Pointer) :
    Forwards adapter geometry host
      (ringProducerMute geometry handle generation spans count accepted host)
      ((AbiCall.producerMute handle generation spans count accepted).requests geometry
        host.memory) := by
  cases accepted with
  | none => cases handle <;> exact Host.forwards_refuse
  | some accepted =>
      cases handle with
      | null => exact Host.forwards_refuse
      | ring =>
          unfold ringProducerMute AbiCall.requests
          dsimp only
          cases limited : host.memory.checkedSpans spans count with
          | none => exact Host.forwards_refuse
          | some marks =>
              have bounded : InBounds (F := F) geometry ⟨.producer, .mute generation marks⟩ :=
                CallerMemory.length_checkedSpans limited
              dsimp only
              refine forwards_option rfl bounded ?_ ?_ ?_ ?_
              · trivial
              · exact fun _ => id
              · exact fun declined => by rw [declined]
              · exact fun credit granted => by rw [granted]; exact ⟨rfl, rfl⟩

theorem forwards_producerFinish (handle : Handle) (token : Pointer) :
    Forwards adapter geometry host (ringProducerFinish geometry handle token host)
      ((AbiCall.producerFinish handle token).requests geometry host.memory) := by
  cases handle with
  | null => exact Host.forwards_refuse
  | ring =>
      cases token with
      | none => exact Host.forwards_refuse
      | some token =>
          unfold ringProducerFinish
          dsimp only
          refine forwards_option rfl trivial ?_ ?_ ?_ ?_
          · trivial
          · exact fun _ => id
          · exact fun declined => by rw [declined]
          · exact fun granted answered => by rw [answered]; exact ⟨rfl, rfl⟩

theorem forwards_finishStatus (handle : Handle) (token : Nat) (status : Pointer) :
    Forwards adapter geometry host (ringFinishStatus geometry handle token status host)
      ((AbiCall.finishStatus handle token status).requests geometry host.memory) := by
  cases handle with
  | null => exact Host.forwards_refuse
  | ring =>
      cases status with
      | none => exact Host.forwards_refuse
      | some status =>
          unfold ringFinishStatus
          dsimp only
          refine forwards_option rfl trivial ?_ ?_ ?_ ?_
          · trivial
          · exact fun _ => id
          · exact fun declined => by rw [declined]
          · exact fun current answered => by rw [answered]; exact ⟨rfl, rfl⟩

theorem perform_render (ring : Ring F S W) :
    ring.perform adapter geometry ⟨.consumer, .render⟩ =
      (⟨.consumer, .rendered ((consumerRenderSample adapter geometry).run (exec geometry) ring).1⟩,
        ((consumerRenderSample adapter geometry).run (exec geometry) ring).2) :=
  congrArg (fun ended : ConsumerResult F × Ring F S W =>
    ((⟨.consumer, ended.1⟩, ended.2) : RingReply F × Ring F S W)) (run_wrapped geometry _ _ ring)

/-- An entry of the consumer: its code tells whether one of its calls was faulty. -/
theorem forwards_consumer {count : Nat} {call : ConsumerCall} {outcome : Outcome F S W}
    {failed : Bool} (ring_eq : outcome.2.ring =
      (host.ring.performAll adapter geometry (List.replicate count ⟨.consumer, call⟩)).2)
    (code : outcome.1 = if failed then resultAdapterError else resultOk)
    (faulty : failed = true ↔ ∃ reply ∈
      (host.ring.performAll adapter geometry (List.replicate count ⟨.consumer, call⟩)).1,
        Faulty reply) :
    Forwards adapter geometry host outcome (some (List.replicate count ⟨.consumer, call⟩)) := by
  have accepts : ∀ (count : Nat) (ring : Ring F S W), ∀ reply ∈
      (ring.performAll adapter geometry (List.replicate count ⟨.consumer, call⟩)).1,
        ¬Declined reply := by
    intro count
    induction count with
    | zero => exact fun _ _ member => nomatch member
    | succ count ih =>
        intro ring reply member
        rcases List.mem_cons.mp member with rfl | member
        · exact id
        · exact ih _ reply member
  constructor
  · rintro _ ⟨⟩ made member
    rw [List.eq_of_mem_replicate member]
    cases call <;> trivial
  · exact ring_eq
  · rw [code, Option.map_some]
    unfold resultCode
    dsimp only
    cases failed with
    | true => exact (if_pos (faulty.mp rfl)).symm
    | false =>
        exact ((if_neg fun found => nomatch faulty.mpr found).trans
          (if_neg fun ⟨reply, member, declined⟩ => accepts _ _ reply member declined)).symm
  · intro rejected
    rw [code] at rejected
    cases failed <;> cases rejected

theorem forwards_consumerReset (handle : Handle) :
    Forwards adapter geometry host (ringConsumerReset adapter geometry handle host)
      ((AbiCall.consumerReset handle).requests geometry host.memory) := by
  cases handle with
  | null => exact Host.forwards_refuse
  | ring =>
      have performed : host.ring.performAll adapter geometry [⟨.consumer, .reset⟩] =
          ([⟨.consumer, .reset (host.operate geometry (consumerReset adapter)).1⟩],
            (host.operate geometry (consumerReset adapter)).2.ring) :=
        congrArg (fun ended : ConsumerResult F × Ring F S W =>
          (([⟨.consumer, ended.1⟩], ended.2) : List (RingReply F) × Ring F S W))
            (run_wrapped geometry _ _ host.ring)
      refine @forwards_consumer _ _ _ _ _ _ _ _ _ 1 .reset _
        (!(host.operate geometry (consumerReset adapter)).1) ?_ ?_ ?_
      · exact (congrArg Prod.snd performed).symm
      · change (if _ then _ else _) = _
        cases (host.operate geometry (consumerReset adapter)).1 <;> rfl
      · change _ ↔ ∃ reply ∈ (host.ring.performAll adapter geometry [⟨.consumer, .reset⟩]).1, _
        rw [performed]
        cases (host.operate geometry (consumerReset adapter)).1 with
        | false => exact ⟨fun _ => ⟨_, List.mem_singleton_self _, rfl⟩, fun _ => rfl⟩
        | true =>
            refine ⟨(nomatch ·), fun ⟨reply, member, faulty⟩ => ?_⟩
            rw [List.mem_singleton.mp member] at faulty
            cases faulty

theorem forwards_consumerRenderSample (handle : Handle) (sample real : Pointer) :
    Forwards adapter geometry host
      (ringConsumerRenderSample adapter geometry handle sample real host)
      ((AbiCall.consumerRenderSample handle sample real).requests geometry host.memory) := by
  cases sample with
  | none => cases handle <;> exact Host.forwards_refuse
  | some sample =>
      cases real with
      | none => cases handle <;> exact Host.forwards_refuse
      | some real =>
          cases handle with
          | null => exact Host.forwards_refuse
          | ring =>
              have performed : host.ring.performAll adapter geometry [⟨.consumer, .render⟩] = _ :=
                congrArg (fun ended : RingReply F × Ring F S W =>
                  (([ended.1], ended.2) : List (RingReply F) × Ring F S W))
                  (perform_render host.ring)
              refine @forwards_consumer _ _ _ _ _ _ _ _ _ 1 .render _ _ ?_ rfl ?_
              · exact (congrArg Prod.snd performed).symm
              · change _ ↔ ∃ reply ∈
                  (host.ring.performAll adapter geometry [⟨.consumer, .render⟩]).1, _
                rw [performed]
                refine ⟨fun failed => ⟨_, List.mem_singleton_self _, failed⟩,
                  fun ⟨reply, member, faulty⟩ => ?_⟩
                rw [List.mem_singleton.mp member] at faulty
                exact faulty

/-- Samples of rendered outputs behind a pointer. -/
def written (outputs : List (Rendered F)) (address : Nat) (store : Nat → F) : Nat → F :=
  fun index =>
    if address ≤ index ∧ index < address + outputs.length then
      (outputs.map Prod.fst).getD (index - address) 0
    else store index

omit [Binary64 W] [Widening F W] in
theorem written_nil (address : Nat) (store : Nat → F) : written [] address store = store := by
  funext index
  unfold written
  rw [if_neg]
  simp only [List.length_nil]
  omega

omit [Binary64 W] [Widening F W] in
theorem written_cons (first : Rendered F) (outputs : List (Rendered F)) (address : Nat)
    (store : Nat → F) : written outputs (address + 1) (Function.update store address first.1) =
      written (first :: outputs) address store := by
  funext index
  unfold written
  rw [List.length_cons]
  by_cases here : index = address
  · subst here
    rw [if_neg (by omega), if_pos (by omega), Function.update_self, Nat.sub_self]
    rfl
  · rw [Function.update_of_ne here]
    by_cases within : address + 1 ≤ index ∧ index < address + 1 + outputs.length
    · rw [if_pos within, if_pos (by omega),
        show index - address = index - (address + 1) + 1 by omega]
      rfl
    · rw [if_neg within, if_neg (by omega)]

variable (adapter geometry) in
/-- A block is rendered sample by sample: the outputs lie one behind the other, the
received ones are counted, and the block fails if one of them does. -/
theorem consumerRender_eq (samples : Nat) (output realSamples : Nat) (failed : Bool)
    (host : Host F S W) :
    ∃ (outputs : List (Rendered F)) (ring : Ring F S W), outputs.length = samples ∧
      host.ring.performAll adapter geometry (List.replicate samples ⟨.consumer, .render⟩) =
        (outputs.map fun rendered => ⟨.consumer, .rendered rendered⟩, ring) ∧
      consumerRender adapter geometry output samples realSamples failed host =
        ((realSamples + outputs.countP (·.2.1), failed || outputs.any (·.2.2)),
          ⟨{ host.memory with floats := written outputs output host.memory.floats }, ring⟩) := by
  induction samples generalizing output realSamples failed host with
  | zero =>
      refine ⟨[], host.ring, rfl, rfl, ?_⟩
      rw [written_nil, List.any_nil, Bool.or_false]
      rfl
  | succ samples ih =>
      obtain ⟨⟨first, ring⟩, rendering⟩ : ∃ ended,
          (consumerRenderSample adapter geometry).run (exec geometry) host.ring = ended :=
        ⟨_, rfl⟩
      have operated : host.operate geometry (consumerRenderSample adapter geometry) =
          (first, { host with ring := ring }) := by
        unfold Host.operate
        rw [rendering]
      obtain ⟨outputs, last, lengthEq, performed, rendered⟩ := ih (output + 1)
        (realSamples + first.2.1.toNat) (failed || first.2.2)
        (Host.store { host with ring := ring } (·.storeFloat output first.1))
      refine ⟨first :: outputs, last, congrArg (· + 1) lengthEq, ?_, ?_⟩
      · have performedFirst : host.ring.perform adapter geometry ⟨.consumer, .render⟩ = _ :=
          perform_render host.ring
        rw [rendering] at performedFirst
        rw [List.replicate_succ]
        unfold Ring.performAll
        rw [performedFirst]
        dsimp only
        change ring.performAll adapter geometry _ = _ at performed
        rw [performed]
        rfl
      · unfold consumerRender
        rw [operated]
        dsimp only
        rw [rendered, List.countP_cons, List.any_cons]
        refine Prod.ext (Prod.ext ?_ (Bool.or_assoc ..)) ?_
        · dsimp only
          cases first.2.1 with
          | false => rfl
          | true =>
              change realSamples + 1 + _ = realSamples + (_ + 1)
              omega
        · dsimp only [Host.store, CallerMemory.storeFloat]
          rw [written_cons]

theorem forwards_consumerRender (handle : Handle) (output : Pointer) (samples : Nat)
    (realSamples : Pointer) :
    Forwards adapter geometry host
      (ringConsumerRender adapter geometry handle output samples realSamples host)
      ((AbiCall.consumerRender handle output samples realSamples).requests geometry
        host.memory) := by
  cases realSamples with
  | none => cases handle <;> exact Host.forwards_refuse
  | some realSamples =>
      cases handle with
      | null => exact Host.forwards_refuse
      | ring =>
          unfold ringConsumerRender AbiCall.requests
          dsimp only
          split
          · exact Host.forwards_refuse
          cases checkedOutput output samples with
          | none => exact Host.forwards_refuse
          | some output =>
              obtain ⟨outputs, ring, -, performed, rendered⟩ :=
                consumerRender_eq adapter geometry samples output 0 false host
              dsimp only
              rw [rendered]
              refine forwards_consumer ?_ rfl ?_
              · rw [performed]
                rfl
              · rw [performed, Bool.false_or, List.any_eq_true]
                refine ⟨fun ⟨faulty, member, failed⟩ =>
                  ⟨_, List.mem_map_of_mem member, failed⟩, ?_⟩
                rintro ⟨reply, member, failed⟩
                obtain ⟨faulty, listed, rfl⟩ := List.mem_map.mp member
                exact ⟨faulty, listed, failed⟩

/-- Every call through the descriptor carries out the endpoint calls it requests, all
within their bounds, and its code tells what the endpoints replied. -/
theorem forwards (call : AbiCall F) : Forwards adapter geometry host
    (call.serve adapter geometry host) (call.requests geometry host.memory) := by
  cases call with
  | producerPushSample handle sample accepted =>
      exact forwards_producerPushSample handle sample accepted
  | producerPush handle input samples accepted =>
      exact forwards_producerPush handle input samples accepted
  | producerGap handle samples accepted => exact forwards_producerGap handle samples accepted
  | producerPushTagged handle input samples generation sourceStart spans count accepted =>
      exact forwards_producerPushTagged handle input samples generation sourceStart spans count
        accepted
  | producerMute handle generation spans count accepted =>
      exact forwards_producerMute handle generation spans count accepted
  | producerFinish handle token => exact forwards_producerFinish handle token
  | finishStatus handle token status => exact forwards_finishStatus handle token status
  | consumerReset handle => exact forwards_consumerReset handle
  | consumerRenderSample handle sample real =>
      exact forwards_consumerRenderSample handle sample real
  | consumerRender handle output samples realSamples =>
      exact forwards_consumerRender handle output samples realSamples
  | observe handle observation =>
      cases handle with
      | null => cases observation <;> exact Host.forwards_refuse
      | ring =>
          cases observation with
          | none => exact Host.forwards_refuse
          | some observation =>
              unfold AbiCall.serve ringObserve AbiCall.requests
              dsimp only
              split
              · exact Host.forwards_refuse
              · exact Host.forwards_store _
  | outputDelay handle samples =>
      cases handle with
      | null => cases samples <;> exact Host.forwards_refuse
      | ring =>
          cases samples with
          | none => exact Host.forwards_refuse
          | some samples => exact Host.forwards_store _

end Entries

section Runs

variable [Binary32 F] [Binary64 W] [Widening F W] (adapter : Adapter F W S) (geometry : Geometry)

theorem Ring.performAll_append (first rest : List (RingCall F)) (ring : Ring F S W) :
    (ring.performAll adapter geometry (first ++ rest)).2 =
      ((ring.performAll adapter geometry first).2.performAll adapter geometry rest).2 := by
  induction first generalizing ring with
  | nil => rfl
  | cons call first ih => exact ih _

/-- The endpoint calls of consecutive entries. -/
def AbiCall.requestsAll : List (AbiCall F) → Host F S W → List (Option (List (RingCall F)))
  | [], _ => []
  | call :: rest, host =>
      call.requests geometry host.memory ::
        requestsAll rest (call.serve adapter geometry host).2

/-- The code of an entry, and what its calls make of the bounded queue. -/
def RingView.answer (requests : Option (List (RingCall F))) (view : RingView F S W) :
    Int × RingView F S W :=
  (resultCode (requests.map fun calls => (view.performAll adapter geometry calls).1),
    (view.performAll adapter geometry (requests.getD [])).2)

def RingView.answerAll :
    List (Option (List (RingCall F))) → RingView F S W → List Int × RingView F S W
  | [], view => ([], view)
  | requests :: rest, view =>
      let first := view.answer adapter geometry requests
      let others := answerAll rest first.2
      (first.1 :: others.1, others.2)

variable {adapter geometry}

theorem answerAll_codes (requests : List (Option (List (RingCall F)))) {view : RingView F S W}
    {code : Int} (member : code ∈ (view.answerAll adapter geometry requests).1) :
    code = resultOk ∨ code = resultInvalidArgument ∨ code = resultAdapterError := by
  induction requests generalizing view with
  | nil => cases member
  | cons first rest ih =>
      rcases List.mem_cons.mp member with rfl | member
      · exact resultCode_cases _
      · exact ih member

/-- What an entry returns and leaves is what the bounded queue answers. -/
theorem serve_view {host : Host F S W} (holds : ProducerHolds geometry True none host.ring)
    (call : AbiCall F) :
    ProducerHolds geometry True none (call.serve adapter geometry host).2.ring ∧
      ((call.serve adapter geometry host).1,
        (call.serve adapter geometry host).2.ring.view geometry) =
          (host.ring.view geometry).answer adapter geometry
            (call.requests geometry host.memory) := by
  have forwarded : Forwards adapter geometry host (call.serve adapter geometry host)
      (call.requests geometry host.memory) := forwards call
  have viewed (calls : List (RingCall F)) := performAll_view adapter holds calls
  refine ⟨forwarded.ring_eq ▸ (viewed _).1, Prod.ext ?_ ?_⟩
  · refine forwarded.code_eq.trans (congrArg resultCode (congrArg (Option.map · _) ?_))
    funext calls
    exact congrArg Prod.fst (viewed calls).2
  · refine (congrArg (Ring.view geometry) forwarded.ring_eq).trans ?_
    exact congrArg Prod.snd (viewed _).2

theorem serveAll_view (calls : List (AbiCall F)) {host : Host F S W}
    (holds : ProducerHolds geometry True none host.ring) :
    ProducerHolds geometry True none (AbiCall.serveAll adapter geometry calls host).2.ring ∧
      ((AbiCall.serveAll adapter geometry calls host).1,
        (AbiCall.serveAll adapter geometry calls host).2.ring.view geometry) =
          (host.ring.view geometry).answerAll adapter geometry
            (AbiCall.requestsAll adapter geometry calls host) := by
  induction calls generalizing host with
  | nil => exact ⟨holds, rfl⟩
  | cons call rest ih =>
      obtain ⟨between, same⟩ := serve_view holds call
      obtain ⟨kept, others⟩ := ih between
      refine ⟨kept, ?_⟩
      unfold AbiCall.requestsAll RingView.answerAll
      dsimp only
      rw [← same, ← others]
      rfl

/-- The endpoint calls of a run keep to the bounds, and make of the ring what the run
makes of it. -/
theorem serveAll_requests (calls : List (AbiCall F)) (host : Host F S W) :
    (∀ call ∈ (AbiCall.requestsAll adapter geometry calls host).flatMap (·.getD []),
      InBounds geometry call) ∧
    (AbiCall.serveAll adapter geometry calls host).2.ring = (host.ring.performAll adapter geometry
      ((AbiCall.requestsAll adapter geometry calls host).flatMap (·.getD []))).2 := by
  induction calls generalizing host with
  | nil => exact ⟨fun _ member => (nomatch member), rfl⟩
  | cons call rest ih =>
      have forwarded : Forwards adapter geometry host (call.serve adapter geometry host)
          (call.requests geometry host.memory) := forwards call
      obtain ⟨bounded, ringEq⟩ := ih (call.serve adapter geometry host).2
      unfold AbiCall.requestsAll
      rw [List.flatMap_cons, Ring.performAll_append, ← forwarded.ring_eq]
      refine ⟨fun made member => ?_, ringEq⟩
      rcases List.mem_append.mp member with first | later
      · cases requested : call.requests geometry host.memory with
        | none =>
            rw [requested] at first
            cases first
        | some calls =>
            rw [requested] at first
            exact forwarded.bounded calls requested made first
      · exact bounded made later

omit [Widening F W] in
/-- Only a validated configuration makes a ring, and its handle is published. -/
theorem ringCreate_created {adapter : Option (Adapter F W S)} {allocated : Bool}
    {config output : Pointer} {memory memory' : CallerMemory F} {code : Int}
    {geometry : Geometry} {ring : Ring F S W}
    (made : ringCreate adapter allocated config output memory =
      ((code, memory'), some (geometry, ring))) :
    ∃ used settings, adapter = some used ∧ checkedConfig W memory config = .ok settings ∧
      Ring.create used settings = .ok (geometry, ring) ∧ code = resultOk ∧
      ∃ address, output = some address ∧ memory'.handles address = .ring := by
  unfold ringCreate at made
  split at made
  · cases made
  rename_i address
  split at made
  · cases made
  rename_i settings checked
  dsimp only at made
  split at made
  · cases made
  rename_i used
  split at made
  · cases made
  · cases made
  rename_i created built
  split at made
  · cases made
    exact ⟨used, settings, rfl, checked, built, rfl, address, rfl, Function.update_self ..⟩
  · cases made

/-- From the creation of a ring on: every run through the descriptor is, call for
call, a run of a bounded queue with one producer and one consumer, and a schedule
of the endpoints within their block bounds. -/
theorem descriptor_runs {adapter : Adapter F W S} {allocated : Bool} {config output : Pointer}
    {memory memory' : CallerMemory F} {code : Int} {geometry : Geometry} {ring : Ring F S W}
    (made : ringCreate (some adapter) allocated config output memory =
      ((code, memory'), some (geometry, ring)))
    (calls : List (AbiCall F)) :
    let served := AbiCall.serveAll adapter geometry calls ⟨memory', ring⟩
    let requested := AbiCall.requestsAll adapter geometry calls ⟨memory', ring⟩
    let performed := requested.flatMap (·.getD [])
    (served.1, served.2.ring.view geometry) =
      (ring.view geometry).answerAll adapter geometry requested ∧
    ((∀ call ∈ performed, InBounds geometry call) ∧
      served.2.ring.view geometry =
        ((ring.view geometry).performAll adapter geometry performed).2) ∧
    (∃ settings, checkedConfig W memory config = .ok settings ∧
      ∃ config, RingReachable adapter settings (fun party call => InBounds geometry ⟨party, call⟩)
        geometry config ∧ config.memory = served.2.ring ∧ ∀ party, config.thread party = .idle) ∧
    ∀ code ∈ served.1,
      code = resultOk ∨ code = resultInvalidArgument ∨ code = resultAdapterError := by
  intro served requested performed
  obtain ⟨used, settings, same, checked, created, -, -⟩ := ringCreate_created made
  cases same
  have holds := producerHolds_created created
  have answered : (served.1, served.2.ring.view geometry) =
      (ring.view geometry).answerAll adapter geometry requested := (serveAll_view calls holds).2
  obtain ⟨bounded, ringEq⟩ : _ ∧ served.2.ring = _ := serveAll_requests calls ⟨memory', ring⟩
  have viewed := (performAll_view adapter holds performed).2
  obtain ⟨config, reached, memoryEq, idle⟩ := @reachable_of_performAll _ _ _ _ _ _ adapter geometry
    (fun party call => InBounds geometry ⟨party, call⟩) ring _ .refl (fun _ => rfl) performed bounded
  refine ⟨answered, ⟨bounded, ?_⟩, ⟨settings, checked, config, ⟨ring, created, reached⟩, ?_, idle⟩,
    fun code member => ?_⟩
  · rw [← viewed, ringEq]
  · exact memoryEq.trans ringEq.symm
  · rw [congrArg Prod.fst answered] at member
    exact answerAll_codes requested member

omit [Binary64 W] [Widening F W] in
/-- A producer call that is turned down leaves the ring as it was. -/
theorem RingView.produce_declined {view : RingView F S W} {call : ProducerCall F}
    (declined : Declined (F := F) ⟨.producer, (view.produce geometry call).1⟩) :
    (view.produce geometry call).2 = view := by
  cases call with
  | pushSample sample =>
      unfold produce at declined
      dsimp only at declined
      split at declined <;> cases declined
  | push input => cases declined
  | gap samples => cases declined
  | pushTagged input generation sourceStart spans =>
      unfold produce at declined ⊢
      dsimp only at declined ⊢
      split
      · rfl
      · rename_i running
        rw [if_neg running] at declined
        split
        · rfl
        · rename_i valid
          rw [if_neg valid] at declined
          split at declined <;> cases declined
  | mute generation spans =>
      unfold produce at declined ⊢
      dsimp only at declined ⊢
      cases stamp : view.account.stamp with
      | none => rfl
      | some current =>
          rw [stamp] at declined
          dsimp only at declined ⊢
          split
          · rfl
          · rename_i valid
            rw [if_neg valid] at declined
            cases declined
  | finish =>
      unfold produce at declined ⊢
      dsimp only at declined ⊢
      split
      · rfl
      · rename_i idle
        rw [if_neg idle] at declined
        split
        · rename_i fits
          rw [if_pos fits] at declined
          cases declined
        · rfl
  | status token => rfl

omit [Binary64 W] [Widening F W] in
/-- The producer writes none of the consumer's diagnostics. -/
theorem producer_diagnostics {ring : Ring F S W} (holds : ProducerHolds geometry True none ring)
    (call : ProducerCall F) :
    let after := ((producerBody geometry call).run (exec geometry) ring).2
    (∀ counter, counter ≠ .discarded → after.counters counter = ring.counters counter) ∧
      after.ratioCorrectionPpm = ring.ratioCorrectionPpm := by
  let keeps (now : Ring F S W) : Prop :=
    (∀ counter, counter ≠ .discarded → now.counters counter = ring.counters counter) ∧
      now.ratioCorrectionPpm = ring.ratioCorrectionPpm
  have kept : keeps ring := ⟨fun _ _ => rfl, rfl⟩
  have access (op : Access F S W) (now : Ring F S W) (promised : ProducerGuar geometry True none op now)
      (holds : keeps now) : keeps (effect geometry op now) := by
    have permitted := promised.permitted
    cases op with
    | pcm access => cases access <;> exact holds
    | mutes access => cases access <;> exact holds
    | loadFinish site => cases site <;> exact holds
    | storeCounter counter value =>
        obtain rfl : counter = .discarded := permitted
        exact ⟨fun other differs => (Function.update_of_ne differs _ _).trans (holds.1 other differs),
          holds.2⟩
    | _ => first | exact permitted.elim | exact holds
  have safe := safe_producerBody call (uniform_none call) holds
  have alone : (producerBody geometry call).Safe (exec geometry) Eq
      (ProducerGuar geometry True none) (fun _ _ => True) ring :=
    (safe.weaken fun same => same ▸ .refl _).mono fun _ _ _ => trivial
  have judged : (producerBody geometry call).Safe (exec geometry) Eq
      (ProducerGuar geometry True none) (fun _ now => True ∧ keeps now) ring := by
    refine alone.keeping ?_ access kept
    rintro first _ rfl holds
    exact holds
  exact judged.run.2

omit [Binary32 F] [Binary64 W] [Widening F W] in
/-- The diagnostics of a ring are in its view, but for those of the consumer. -/
theorem observe_eq_of_view {before after : Ring F S W}
    (holds : ProducerHolds geometry True none before)
    (holds' : ProducerHolds geometry True none after)
    (viewed : after.view geometry = before.view geometry)
    (counted : ∀ counter, counter ≠ .discarded → after.counters counter = before.counters counter)
    (rated : after.ratioCorrectionPpm = before.ratioCorrectionPpm) :
    after.observe geometry = before.observe geometry := by
  have availableEq : ((available geometry).run (exec geometry) after).1 =
      ((available geometry).run (exec geometry) before).1 :=
    calc ((available geometry).run (exec geometry) after).1
        = (after.view geometry).slots.length := congrArg Prod.fst (atomic_available after holds').2
      _ = (before.view geometry).slots.length := by rw [viewed]
      _ = ((available geometry).run (exec geometry) before).1 :=
          (congrArg Prod.fst (atomic_available before holds).2).symm
  have discardedEq : after.counters .discarded = before.counters .discarded :=
    congrArg (fun view => view.account.discarded) viewed
  unfold Ring.observe
  rw [availableEq, discardedEq, rated, counted .filteredOccupancyMilli (by decide),
    counted .missing (by decide), counted .consecutiveShortfall (by decide),
    counted .shortfallAverageMicro (by decide), counted .adapterErrorCount (by decide)]

/-- A call that the ring turns down leaves everything visible as it was. -/
theorem perform_declined {ring : Ring F S W} (holds : ProducerHolds geometry True none ring)
    {call : RingCall F} (declined : Declined (ring.perform adapter geometry call).1) :
    (ring.perform adapter geometry call).2.view geometry = ring.view geometry ∧
      (ring.perform adapter geometry call).2.observe geometry = ring.observe geometry := by
  obtain ⟨kept, viewed⟩ := perform_view adapter holds call
  have declined : Declined ((ring.view geometry).perform adapter geometry call).1 :=
    congrArg Prod.fst viewed ▸ declined
  obtain ⟨party, call⟩ := call
  cases party with
  | producer =>
      have unseen : (ring.perform adapter geometry ⟨.producer, call⟩).2.view geometry =
          ring.view geometry :=
        (congrArg Prod.snd viewed).trans (RingView.produce_declined declined)
      obtain ⟨counted, rated⟩ := producer_diagnostics holds call
      exact ⟨unseen, observe_eq_of_view holds kept unseen counted rated⟩
  | consumer => cases declined

/-- Turned down one after the other, calls leave everything visible as it was. -/
theorem performAll_declined (calls : List (RingCall F)) {ring : Ring F S W}
    (holds : ProducerHolds geometry True none ring)
    (declined : ∀ reply ∈ (ring.performAll adapter geometry calls).1, Declined reply) :
    (ring.performAll adapter geometry calls).2.view geometry = ring.view geometry ∧
      (ring.performAll adapter geometry calls).2.observe geometry = ring.observe geometry := by
  induction calls generalizing ring with
  | nil => exact ⟨rfl, rfl⟩
  | cons call rest ih =>
      have first := perform_declined holds (declined _ List.mem_cons_self)
      have later := ih (perform_view adapter holds call).1
        fun reply member => declined reply (List.mem_cons_of_mem _ member)
      exact ⟨later.1.trans first.1, later.2.trans first.2⟩

/-- After any run from the creation of a ring: a call that returns the code of an
invalid argument changed nothing, neither what the caller nor what an endpoint can
see, nor any of the diagnostics. -/
theorem invalid_call_changes_nothing {adapter : Adapter F W S} {allocated : Bool}
    {config output : Pointer} {memory memory' : CallerMemory F} {code : Int}
    {geometry : Geometry} {ring : Ring F S W}
    (made : ringCreate (some adapter) allocated config output memory =
      ((code, memory'), some (geometry, ring)))
    (calls : List (AbiCall F)) (call : AbiCall F) :
    let host := (AbiCall.serveAll adapter geometry calls ⟨memory', ring⟩).2
    let outcome := call.serve adapter geometry host
    outcome.1 = resultInvalidArgument →
      outcome.2.memory = host.memory ∧
        outcome.2.ring.view geometry = host.ring.view geometry ∧
        outcome.2.ring.observe geometry = host.ring.observe geometry := by
  intro host outcome invalid
  obtain ⟨used, settings, same, -, created, -, -⟩ := ringCreate_created made
  cases same
  have holds : ProducerHolds geometry True none host.ring :=
    (serveAll_view calls (producerHolds_created created)).1
  have forwarded : Forwards adapter geometry host outcome (call.requests geometry host.memory) :=
    forwards call
  obtain ⟨kept, declined⟩ := forwarded.invalid invalid
  refine ⟨kept, ?_⟩
  rw [forwarded.ring_eq]
  exact performAll_declined _ holds declined

end Runs

private theorem one_lt_word : 1 < 2 ^ 32 := by
  decide

/-- A caller whose first two samples lie behind a pointer, with a valid configuration. -/
def smallCaller : CallerMemory ℚ where
  floats index := if index = 0 then 1 / 2 else if index = 1 then 1 / 4 else 0
  flags _ := false
  longs _ := 0
  words _ := 0
  spans _ := ⟨0, 1⟩
  configs _ :=
    { structSize := configSize
      version := abiVersion
      capacitySamples := minimumCapacity
      inputRateHz := 1
      outputRateHz := 1
      reserveSamples := 0
      targetSamples := 0
      maxProducerSamples := 8
      maxOutputSamples := 8
      plcMode := 0
      inputRateHz_lt := one_lt_word
      outputRateHz_lt := one_lt_word }
  observations _ := ⟨0, 0, 0, 0, 0, 0, 0, 0, 0, 0, 0, 0, 0, 0⟩
  handles _ := .null

/-- Two samples are pushed, a push beyond the bound is refused, and both are rendered. -/
def smallCalls : List (AbiCall ℚ) :=
  [.producerPush .ring (some 0) 2 (some 0), .producerPush .ring (some 0) 9 (some 1),
    .consumerRender .ring (some 16) 2 (some 2)]

theorem smallCaller_creates : ∃ memory geometry ring,
    ringCreate (some (unitConverter (F := ℚ) (W := ℚ))) true (some 0) (some 0) smallCaller =
      ((resultOk, memory), some (geometry, ring)) ∧
    (AbiCall.serveAll unitConverter geometry smallCalls ⟨memory, ring⟩).1 =
      [resultOk, resultInvalidArgument, resultOk] ∧
    (AbiCall.requestsAll unitConverter geometry smallCalls ⟨memory, ring⟩).map
      (·.map List.length) = [some 1, none, some 2] := by
  have checked : ((ringCreate (some (unitConverter (F := ℚ) (W := ℚ))) true (some 0) (some 0)
      smallCaller).1.1 == resultOk &&
      (ringCreate (some (unitConverter (F := ℚ) (W := ℚ))) true (some 0) (some 0)
        smallCaller).2.any fun created =>
          (AbiCall.serveAll unitConverter created.1 smallCalls
            ⟨(ringCreate (some (unitConverter (F := ℚ) (W := ℚ))) true (some 0) (some 0)
              smallCaller).1.2, created.2⟩).1 == [resultOk, resultInvalidArgument, resultOk] &&
          (AbiCall.requestsAll unitConverter created.1 smallCalls
            ⟨(ringCreate (some (unitConverter (F := ℚ) (W := ℚ))) true (some 0) (some 0)
              smallCaller).1.2, created.2⟩).map (·.map List.length) == [some 1, none, some 2]) =
      true := by decide +kernel
  revert checked
  generalize ringCreate (some (unitConverter (F := ℚ) (W := ℚ))) true (some 0) (some 0)
    smallCaller = made
  obtain ⟨⟨code, memory⟩, created⟩ := made
  intro checked
  obtain ⟨codeEq, played⟩ := Bool.and_eq_true_iff.mp checked
  obtain ⟨⟨geometry, ring⟩, rfl, shows⟩ := (Option.any_eq_true _ _).mp played
  obtain ⟨codes, requested⟩ := Bool.and_eq_true_iff.mp shows
  have codeEq : code = resultOk := eq_of_beq codeEq
  subst codeEq
  exact ⟨memory, geometry, ring, rfl, eq_of_beq codes, eq_of_beq requested⟩

/-- Two samples are pushed and rendered; a push beyond its bound makes no endpoint call. -/
theorem descriptor_runs_of_two_samples : ∃ (memory : CallerMemory ℚ) (geometry : Geometry)
    (ring : Ring ℚ Unit ℚ),
    ringCreate (some unitConverter) true (some 0) (some 0) smallCaller =
      ((resultOk, memory), some (geometry, ring)) ∧
    let served := AbiCall.serveAll unitConverter geometry smallCalls ⟨memory, ring⟩
    let requested := AbiCall.requestsAll unitConverter geometry smallCalls ⟨memory, ring⟩
    served.1 = [resultOk, resultInvalidArgument, resultOk] ∧
      requested.map (·.map List.length) = [some 1, none, some 2] ∧
      (served.1, served.2.ring.view geometry) =
        (ring.view geometry).answerAll unitConverter geometry requested := by
  obtain ⟨memory, geometry, ring, made, codes, requested⟩ := smallCaller_creates
  exact ⟨memory, geometry, ring, made, codes, requested, (descriptor_runs made smallCalls).1⟩

/-- The refused push behind the accepted one. -/
theorem invalid_call_of_nine_samples : ∃ (memory : CallerMemory ℚ) (geometry : Geometry)
    (ring : Ring ℚ Unit ℚ),
    ringCreate (some unitConverter) true (some 0) (some 0) smallCaller =
      ((resultOk, memory), some (geometry, ring)) ∧
    let host := (AbiCall.serveAll unitConverter geometry
      [.producerPush .ring (some 0) 2 (some 0)] ⟨memory, ring⟩).2
    let outcome := (AbiCall.producerPush .ring (some 0) 9 (some 1)).serve unitConverter geometry host
    outcome.1 = resultInvalidArgument ∧ outcome.2.memory = host.memory ∧
      outcome.2.ring.view geometry = host.ring.view geometry ∧
      outcome.2.ring.observe geometry = host.ring.observe geometry := by
  obtain ⟨memory, geometry, ring, made, codes, -⟩ := smallCaller_creates
  have invalid : ((AbiCall.producerPush .ring (some 0) 9 (some 1)).serve unitConverter geometry
      (AbiCall.serveAll unitConverter geometry [.producerPush .ring (some 0) 2 (some 0)]
        ⟨memory, ring⟩).2).1 = resultInvalidArgument :=
    (List.cons.inj (List.cons.inj codes).2).1
  exact ⟨memory, geometry, ring, made, invalid, invalid_call_changes_nothing made
    [.producerPush .ring (some 0) 2 (some 0)] (.producerPush .ring (some 0) 9 (some 1)) invalid⟩

end PcmRing
