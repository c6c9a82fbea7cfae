import PcmRing.AtomicRefinement

/-!
# Uninterrupted producer calls

An uninterrupted producer call returns what the atomic ring returns and leaves
the view it leaves.
-/

namespace PcmRing

open AtomicProgram TwoLapQueue

variable {F S W : Type} {geometry : Geometry}

namespace ProducerAccount

/-- What fits goes in whole; the rest of the block follows. -/
theorem publishAll_append (first rest : List (SourceSample F)) {free : Nat}
    {account : ProducerAccount F} (fits : first.length ≤ free)
    (within : Within account.stamp first.length) :
    account.publishAll (first ++ rest) free =
      let more := (account.accept first).publishAll rest (free - first.length)
      (more.1 + first.length, more.2) := by
  induction first generalizing free account with
  | nil => simp [accept_nil]
  | cons sample first ih =>
      have free' : ¬free = 0 := by
        simp only [List.length_cons] at fits
        omega
      have one : Within account.stamp 1 := within.mono (by simp)
      have later : Within (account.accept [sample]).stamp first.length := by
        refine .inr fun stamp member => ?_
        obtain ⟨original, originalEq, rfl⟩ := Option.mem_map.mp member
        have := within.resolve_left (by simp) original originalEq
        simp only [List.length_cons] at this
        simp only [Stamp.advance, List.length_singleton]
        omega
      simp only [List.cons_append, publishAll, publishOne, if_neg free', if_pos one, if_true]
      rw [ih (by simp only [List.length_cons] at fits; omega) later, accept_append]
      simp only [List.singleton_append, List.length_cons, Nat.sub_sub, Nat.add_comm 1]
      rfl

theorem publishAll_whole {samples : List (SourceSample F)} {free : Nat}
    {account : ProducerAccount F} (fits : samples.length ≤ free)
    (within : Within account.stamp samples.length) :
    account.publishAll samples free = (samples.length, account.accept samples) := by
  have whole := publishAll_append samples [] fits within
  rw [List.append_nil] at whole
  simpa [publishAll] using whole

theorem publishAll_stopped {samples : List (SourceSample F)} {free count : Nat}
    {account after : ProducerAccount F} (short : count < samples.length) (fits : count ≤ free)
    (within : Within account.stamp count)
    (stops : ∀ sample, (account.accept (samples.take count)).publishOne (free - count) sample =
      (false, after)) :
    account.publishAll samples free = (count, after.discard (samples.length - count - 1)) := by
  have length : (samples.take count).length = count := List.length_take_of_le (by omega)
  have whole : (samples.take count).length ≤ free := by omega
  have before : Within account.stamp (samples.take count).length := by rwa [length]
  have split := publishAll_append (samples.take count) (samples.drop count) whole before
  rw [List.take_append_drop, length, List.drop_eq_getElem_cons short] at split
  rw [split]
  simp only [publishAll, stops, Bool.false_eq_true, if_false, Nat.zero_add, List.length_drop]
  rw [Nat.sub_sub]

/-- A slot that is rejected while no boundary is pending. -/
theorem publishOne_stopped {account after : ProducerAccount F} {free : Nat}
    {moment : Ring F S W} (idle : ¬FinishPending moment.finish)
    (stops : Stops geometry account moment after)
    (freeEq : free = geometry.capacity - (moment.pcm.unread geometry.capacity).length)
    (sample : SourceSample F) : account.publishOne free sample = (false, after) := by
  unfold publishOne
  cases stops with
  | pending pending => exact (idle pending).elim
  | full _ full => rw [if_pos (by omega)]
  | exhausted _ room beyond => rw [if_neg (by omega), if_neg beyond]

end ProducerAccount

/-- The producer touches neither the read cursors nor what the consumer owns. -/
structure Aside (before after : Ring F S W) : Prop where
  passed_eq : after.pcm.passed = before.pcm.passed
  records_passed_eq : after.mutes.passed = before.mutes.passed
  finish_eq : after.finish = before.finish
  consumer_eq : after.consumer = before.consumer
  missing_eq : after.counters .missing = before.counters .missing
  fed_eq : after.ledger.fed = before.ledger.fed

theorem aside_refl (ring : Ring F S W) : Aside ring ring := ⟨rfl, rfl, rfl, rfl, rfl, rfl⟩

theorem Aside.trans {first second third : Ring F S W} (before : Aside first second)
    (after : Aside second third) : Aside first third where
  passed_eq := after.passed_eq.trans before.passed_eq
  records_passed_eq := after.records_passed_eq.trans before.records_passed_eq
  finish_eq := after.finish_eq.trans before.finish_eq
  consumer_eq := after.consumer_eq.trans before.consumer_eq
  missing_eq := after.missing_eq.trans before.missing_eq
  fed_eq := after.fed_eq.trans before.fed_eq

theorem Aside.pending_iff {before after : Ring F S W} (aside : Aside before after) :
    FinishPending after.finish ↔ FinishPending (before.view geometry).finish :=
  iff_of_eq (congrArg FinishPending aside.finish_eq)

/-- An access of the producer other than the store of a finish word. -/
theorem aside_access {op : Access F S W} {ring : Ring F S W}
    (permitted : ProducerPermits geometry op ring) (keeps : op.KeepsFinish) :
    Aside ring (effect geometry op ring) := by
  cases op with
  | pcm access =>
      cases access <;> first
        | exact ⟨rfl, rfl, rfl, rfl, rfl, rfl⟩
        | exact permitted.1.elim
  | mutes access =>
      cases access <;> first
        | exact ⟨rfl, rfl, rfl, rfl, rfl, rfl⟩
        | exact permitted.elim
  | storeFinish word => exact keeps.elim
  | storeCounter counter value =>
      have other : Counter.missing ≠ counter := by
        rw [show counter = .discarded from permitted]
        decide
      exact ⟨rfl, rfl, rfl, rfl, Function.update_of_ne other _ _, rfl⟩
  | loadFinish site => cases site <;> exact ⟨rfl, rfl, rfl, rfl, rfl, rfl⟩
  | _ => first | exact permitted.elim | exact ⟨rfl, rfl, rfl, rfl, rfl, rfl⟩

theorem quietAside (geometry : Geometry) :
    QuietSide geometry (Eq : Ring F S W → Ring F S W → Prop) Aside where
  order := Program.preordered_eq
  keeps := ⟨aside_refl, Aside.trans⟩
  moves same := same ▸ .refl _
  serial_eq same := same ▸ rfl
  still same := same ▸ aside_refl _
  access := aside_access
  passed_le kept _ := Nat.le_of_eq (congrArg List.length kept.passed_eq.symm)
  idle kept idle := kept.finish_eq ▸ idle

section Stand

variable {ring now : Ring F S W} {account : ProducerAccount F}

theorem Stands.view_eq (stands : Stands geometry Aside ring account now)
    (holds : ProducerHolds geometry True none ring)
    (grown : ring.account.published <+: account.published)
    (more : ring.account.records <+: account.records) :
    now.view geometry = (ring.view geometry).produced account := by
  have accountEq := stands.account_eq
  have kept := stands.kept
  have slotsEq : now.pcm.unread geometry.capacity = ring.pcm.unread geometry.capacity ++
      account.published.drop ring.account.published.length := by
    obtain ⟨fresh, freshEq⟩ := grown
    have publishedEq : now.pcm.published = account.published :=
      congrArg ProducerAccount.published accountEq
    rw [stands.pcm.unread_eq_drop, publishedEq, kept.passed_eq, ← freshEq, List.drop_left,
      holds.pcm.unread_eq_drop, List.drop_append_of_le_length]
    · rfl
    · have := holds.pcm.published_length
      change ring.pcm.passed.length ≤ ring.pcm.published.length
      omega
  have recordsEq : now.mutes.unread mailboxQueue = ring.mutes.unread mailboxQueue ++
      account.records.drop ring.account.records.length := by
    obtain ⟨fresh, freshEq⟩ := more
    have publishedEq : now.mutes.published = account.records :=
      congrArg ProducerAccount.records accountEq
    rw [stands.mutes.unread_eq_drop, publishedEq, kept.records_passed_eq, ← freshEq,
      List.drop_left, holds.mutes.unread_eq_drop, List.drop_append_of_le_length]
    · rfl
    · have := holds.mutes.published_length
      change ring.mutes.passed.length ≤ ring.mutes.published.length
      omega
  unfold Ring.view RingView.produced
  rw [slotsEq, recordsEq, accountEq, kept.consumer_eq, kept.finish_eq, kept.missing_eq,
    kept.fed_eq]

theorem Stands.room_eq (stands : Stands geometry Aside ring account now)
    (holds : ProducerHolds geometry True none ring) (count : Nat)
    (grown : account.published.length = ring.pcm.published.length + count) :
    count ≤ (ring.view geometry).room geometry ∧
      geometry.capacity - (now.pcm.unread geometry.capacity).length =
        (ring.view geometry).room geometry - count := by
  have kept : Stands geometry Undrained ring account now :=
    ⟨stands.pcm, stands.mutes, ⟨stands.kept.passed_eq, stands.kept.records_passed_eq,
      stands.kept.finish_eq⟩, stands.account_eq⟩
  have fits := kept.fits holds.pcm grown
  have filled := kept.unread_eq holds.pcm grown
  exact ⟨fits, by
    change _ = geometry.capacity - (ring.pcm.unread geometry.capacity).length - count
    omega⟩

theorem stands_start (holds : ProducerHolds geometry True none ring) :
    Stands geometry Aside ring ring.account ring :=
  ⟨holds.pcm, holds.mutes, aside_refl ring, rfl⟩

theorem producer_after (call : ProducerCall F) [Binary32 F]
    (holds : ProducerHolds geometry True none ring) :
    ProducerHolds geometry True none ((producerBody geometry call).run (exec geometry) ring).2 := by
  have uniform : call.Uniform none := by
    cases call with
    | pushTagged input generation sourceStart spans => exact fun _ none => by cases none
    | _ => trivial
  have safe := safe_producerBody call uniform holds
  exact (safe.weaken fun same => same ▸ .refl _).run.1

end Stand

section Calls

variable {β : Type} {ring now : Ring F S W} {account after : ProducerAccount F}
  {post : β → Ring F S W → Prop}

theorem produced_self (view : RingView F S W) : view.produced view.account = view := by
  simp [RingView.produced]

theorem accept_grows (samples : List (SourceSample F)) :
    account.published <+: (account.accept samples).published :=
  List.prefix_append _ _

/-- A rejection leaves the accepted history alone. -/
theorem Stops.history_eq (stops : Stops geometry account now after) :
    after.published = account.published ∧ after.records = account.records := by
  cases stops <;> exact ⟨rfl, rfl⟩

theorem taggedAccount_records [Binary32 F] (generation sourceStart : Nat) (spans : List Span)
    (input : List F) (room : Nat) (account : ProducerAccount F) : account.records <+:
      (taggedAccount generation sourceStart spans input room account).records := by
  unfold taggedAccount
  dsimp only
  split
  · exact List.prefix_refl _
  · exact List.prefix_append _ _

theorem accept_length (samples : List (SourceSample F)) :
    (ring.account.accept samples).published.length =
      ring.pcm.published.length + samples.length := by
  simp [ProducerAccount.accept, Ring.account]

theorem safe_atomicBlock {samples : List (SourceSample F)}
    (unstamped : ∀ sample ∈ samples, sample.stamp = none)
    (holds : ProducerHolds geometry True none ring) {next : Nat → RingProgram F S W β}
    (safe : ∀ later : Ring F S W,
      later.view geometry = ((ring.view geometry).publishBlock geometry samples).2 →
      (next ((ring.view geometry).publishBlock geometry samples).1).Safe (exec geometry) Eq
        (fun _ _ => True) post later) :
    (publishBlock geometry samples >>= next).Safe (exec geometry) Eq
      (fun _ _ => True) post ring := by
  have side := quietAside (F := F) (S := S) (W := W) geometry
  unfold publishBlock
  unfold RingView.publishBlock at safe
  rw [bind_assoc]
  refine side.safe_gate .gate (stands_start holds) (fun later laterStands pending => ?_)
    fun later laterStands idle _ => ?_
  · have ringPending : FinishPending (ring.view geometry).finish :=
      laterStands.kept.pending_iff.mp pending
    rw [if_pos ringPending] at safe
    refine safe later ?_
    rw [laterStands.view_eq holds (List.prefix_refl _) (List.prefix_refl _)]
    exact produced_self _
  · have ringIdle : ¬FinishPending (ring.view geometry).finish :=
      fun pending => idle (laterStands.kept.pending_iff.mpr pending)
    rw [if_neg ringIdle] at safe
    rw [if_neg (by simp)]
    refine side.safe_publishFrom samples unstamped laterStands ?_ ?_
    · intro count moment after last short within momentStands stops _ lastStands
      have length : (samples.take count).length = count := List.length_take_of_le (by omega)
      have room := momentStands.room_eq holds _ (accept_length _)
      rw [length] at room
      have stopped : (ring.view geometry).account.publishAll samples
          ((ring.view geometry).room geometry) =
            (count, after.discard (samples.length - count - 1)) :=
        ProducerAccount.publishAll_stopped short room.1 within
          (ProducerAccount.publishOne_stopped (fun pending => ringIdle
            (momentStands.kept.pending_iff.mp pending)) stops room.2.symm)
      simp only [stopped] at safe
      have grown : ring.account.published <+: after.published := by
        rw [stops.history_eq.1]
        exact accept_grows _
      have more : ring.account.records <+: after.records := by
        rw [stops.history_eq.2]
        exact List.prefix_refl _
      exact safe last (lastStands.view_eq holds grown more)
    · intro last within lastStands
      have room := lastStands.room_eq holds _ (accept_length _)
      have whole : (ring.view geometry).account.publishAll samples
          ((ring.view geometry).room geometry) = (samples.length, ring.account.accept samples) :=
        ProducerAccount.publishAll_whole room.1 within
      simp only [whole] at safe
      exact safe last (lastStands.view_eq holds (accept_grows _) (List.prefix_refl _))

variable [Binary32 F]

theorem atomic_producer (call : ProducerCall F)
    (shows : ∀ ring : Ring F S W, ProducerHolds geometry True none ring →
      (producerBody geometry call).Safe (exec geometry) Eq (fun _ _ => True)
        (fun result after => (result, after.view geometry) =
          (ring.view geometry).produce geometry call) ring) :
    Atomic (F := F) (S := S) (W := W) geometry (producerBody geometry call)
      (RingView.produce geometry call) :=
  fun ring holds => ⟨producer_after call holds, (shows ring holds).run⟩

theorem atomic_push (input : List F) : Atomic (F := F) (S := S) (W := W) geometry
    (producerBody geometry (.push input)) (RingView.produce geometry (.push input)) := by
  refine atomic_producer _ fun ring holds => ?_
  unfold producerBody
  dsimp only
  rw [producerPush_eq]
  refine safe_atomicBlock ?_ holds fun later viewEq => ?_
  · intro sample member
    obtain ⟨original, -, rfl⟩ := List.mem_map.mp member
    rfl
  · rintro _ rfl
    exact Prod.ext rfl viewEq

theorem atomic_gap (samples : Nat) : Atomic (F := F) (S := S) (W := W) geometry
    (producerBody geometry (.gap samples)) (RingView.produce geometry (.gap samples)) := by
  refine atomic_producer _ fun ring holds => ?_
  unfold producerBody
  dsimp only
  rw [producerGap_eq]
  refine safe_atomicBlock ?_ holds fun later viewEq => ?_
  · intro sample member
    rw [List.eq_of_mem_replicate member]
    rfl
  · rintro _ rfl
    exact Prod.ext rfl viewEq

theorem atomic_pushSample (sample : F) : Atomic (F := F) (S := S) (W := W) geometry
    (producerBody geometry (.pushSample sample))
    (RingView.produce geometry (.pushSample sample)) := by
  have side := quietAside (F := F) (S := S) (W := W) geometry
  refine atomic_producer _ fun ring holds => ?_
  unfold producerBody producerPushSample RingView.produce
  dsimp only
  by_cases pending : FinishPending (ring.view geometry).finish
  · rw [if_pos pending]
    unfold producerPublish
    simp only [bind_assoc]
    refine side.safe_sync (stands_start holds) fun first firstStands _ => ?_
    refine side.safe_gate .publishGate firstStands (fun second secondStands _ => ?_)
      fun second secondStands idle _ => (idle (secondStands.kept.pending_iff.mpr pending)).elim
    rw [if_pos rfl]
    rintro _ rfl
    refine Prod.ext rfl ?_
    rw [secondStands.view_eq holds (List.prefix_refl _) (List.prefix_refl _)]
    exact produced_self _
  · rw [if_neg pending]
    have unstamped : (pcmSlot sample).stamp = none := rfl
    refine side.safe_publish unstamped (stands_start holds) ?_ ?_
    · rintro moment after later momentStands stops - laterStands _ rfl
      have idle : ¬FinishPending moment.finish := fun found =>
        pending (momentStands.kept.pending_iff.mp found)
      have room := momentStands.room_eq holds 0 rfl
      have rejected : (ring.view geometry).account.publishOne ((ring.view geometry).room geometry)
          (pcmSlot sample) = (false, after) :=
        ProducerAccount.publishOne_stopped idle stops room.2.symm _
      have same : ring.account.published <+: after.published ∧
          ring.account.records <+: after.records := by
        rw [stops.history_eq.1, stops.history_eq.2]
        exact ⟨List.prefix_refl _, List.prefix_refl _⟩
      rw [rejected, laterStands.view_eq holds same.1 same.2]
    · rintro later within laterStands _ rfl
      have room := laterStands.room_eq holds _ (accept_length _)
      have accepted : (ring.view geometry).account.publishOne ((ring.view geometry).room geometry)
          (pcmSlot sample) = (true, ring.account.accept [pcmSlot sample]) := by
        unfold ProducerAccount.publishOne
        have free : (ring.view geometry).room geometry ≠ 0 := Nat.ne_of_gt room.1
        rw [if_neg free]
        exact if_pos within
      rw [accepted, laterStands.view_eq holds (accept_grows _) (List.prefix_refl _)]

theorem atomic_pushTagged (input : List F) (generation sourceStart : Nat) (spans : List Span) :
    Atomic (F := F) (S := S) (W := W) geometry
      (producerBody geometry (.pushTagged input generation sourceStart spans))
      (RingView.produce geometry (.pushTagged input generation sourceStart spans)) := by
  have side := quietAside (F := F) (S := S) (W := W) geometry
  refine atomic_producer _ fun ring holds => ?_
  have unmoved {later : Ring F S W} (stands : Stands geometry Aside ring ring.account later) :
      later.view geometry = ring.view geometry := by
    rw [stands.view_eq holds (List.prefix_refl _) (List.prefix_refl _)]
    exact produced_self _
  have mailbox {later : Ring F S W} (stands : Stands geometry Aside ring ring.account later) :
      (later.mutes.unread mailboxQueue).length = (ring.view geometry).records.length :=
    congrArg (List.length ∘ RingView.records) (unmoved stands)
  have fifo {later : Ring F S W} (stands : Stands geometry Aside ring ring.account later) :
      geometry.capacity - (later.pcm.unread geometry.capacity).length =
        (ring.view geometry).room geometry :=
    congrArg (RingView.room geometry) (unmoved stands)
  unfold producerBody RingView.produce
  dsimp only
  refine side.safe_producerPushTagged input generation sourceStart spans (stands_start holds)
    ?_ ?_ ?_ ?_
  · rintro later stands pending _ rfl
    rw [if_pos (stands.kept.pending_iff.mp pending), unmoved stands]
  · rintro later stands idle refused _ rfl
    rw [if_neg (fun pending => idle (stands.kept.pending_iff.mpr pending)),
      if_pos (show _ ∨ Discontinuous (ring.view geometry).account.stamp _ _ from refused),
      unmoved stands]
  · rintro later stands idle valid continues crowded _ rfl
    rw [mailbox stands] at crowded
    rw [if_neg (fun pending => idle (stands.kept.pending_iff.mpr pending)),
      if_neg (show ¬(_ ∨ Discontinuous (ring.view geometry).account.stamp _ _) from
        not_or.mpr ⟨valid, continues⟩), if_pos crowded, unmoved stands]
  · rintro moment later momentStands idle valid continues roomy - laterStands _ rfl
    rw [mailbox momentStands] at roomy
    rw [fifo momentStands] at laterStands ⊢
    rw [if_neg (fun pending => idle (momentStands.kept.pending_iff.mpr pending)),
      if_neg (show ¬(_ ∨ Discontinuous (ring.view geometry).account.stamp _ _) from
        not_or.mpr ⟨valid, continues⟩), if_neg (Nat.not_lt.mpr roomy)]
    have grown := taggedAccount_published generation sourceStart spans input
      ((ring.view geometry).room geometry) ring.account
    have more := taggedAccount_records generation sourceStart spans input
      ((ring.view geometry).room geometry) ring.account
    obtain ⟨stamp, grown⟩ := grown
    refine Prod.ext rfl (laterStands.view_eq holds ?_ more)
    rw [grown]
    exact List.prefix_append _ _

theorem atomic_mute (generation : Nat) (spans : List Span) :
    Atomic (F := F) (S := S) (W := W) geometry (producerBody geometry (.mute generation spans))
      (RingView.produce geometry (.mute generation spans)) := by
  have side := quietAside (F := F) (S := S) (W := W) geometry
  refine atomic_producer _ fun ring holds => ?_
  have unmoved {later : Ring F S W} (stands : Stands geometry Aside ring ring.account later) :
      later.view geometry = ring.view geometry := by
    rw [stands.view_eq holds (List.prefix_refl _) (List.prefix_refl _)]
    exact produced_self _
  unfold producerBody producerMute
  simp only [bind_assoc]
  refine side.safe_sync (stands_start holds) fun first firstStands firstSynced => ?_
  refine safe_answer .loadStamp trivial fun second same => ⟨trivial, ?_⟩
  subst same
  have stampLoaded : answer geometry .loadStamp first = (ring.view geometry).account.stamp := by
    change first.producerStamp = ring.account.stamp
    rw [← firstStands.account_eq]
    exact (if_pos firstSynced).symm
  rw [stampLoaded]
  unfold RingView.produce
  dsimp only
  cases stampEq : (ring.view geometry).account.stamp with
  | none =>
      rintro _ rfl
      exact Prod.ext rfl (unmoved firstStands)
  | some current =>
      dsimp only
      by_cases invalid : MuteInvalid geometry current generation spans
      · rw [if_pos invalid, if_pos invalid]
        rintro _ rfl
        exact Prod.ext rfl (unmoved firstStands)
      · rw [if_neg invalid, if_neg invalid, bind_assoc]
        refine side.safe_mailboxFree firstStands fun second same => ?_
        subst same
        have freeEq : (first.mutes.unread mailboxQueue).length =
            (ring.view geometry).records.length :=
          congrArg (List.length ∘ RingView.records) (unmoved firstStands)
        have bounded := firstStands.mutes.valid.distance_le
        rw [← Channel.unread_length] at bounded
        rw [bind_assoc]
        refine side.safe_mailboxPublish firstStands ?_ fun third thirdStands _ => ?_
        · rw [List.length_take]
          omega
        · rintro _ rfl
          rw [freeEq] at thirdStands ⊢
          rw [← stampEq]
          exact Prod.ext rfl (thirdStands.view_eq holds (List.prefix_refl _)
            (List.prefix_append _ _))

theorem atomic_finish : Atomic (F := F) (S := S) (W := W) geometry
    (producerBody geometry .finish) (RingView.produce geometry .finish) := by
  refine atomic_producer _ fun ring holds => ?_
  unfold producerBody producerFinish RingView.produce
  simp only [bind_assoc]
  refine safe_answer (.loadFinish .request) (by simp [Access.IsLoad]) fun first same =>
    ⟨trivial, ?_⟩
  subst same
  have loaded : answer geometry (.loadFinish .request) ring = (ring.view geometry).finish := rfl
  rw [loaded]
  by_cases pending : FinishPending (ring.view geometry).finish
  · rw [if_pos pending, if_pos pending]
    rintro _ rfl
    rfl
  · rw [if_neg pending, if_neg pending]
    -- Keep the bound from being unfolded.
    generalize 2 ^ 62 = bound
    split
    · rw [bind_assoc]
      refine safe_access.mpr fun second same => ⟨trivial, ?_⟩
      subst same
      rintro _ rfl
      rfl
    · rintro _ rfl
      rfl

theorem atomic_status (token : Nat) : Atomic (F := F) (S := S) (W := W) geometry
    (producerBody geometry (.status token)) (RingView.produce geometry (.status token)) :=
  fun _ holds => ⟨producer_after (.status token) holds, rfl⟩

theorem atomic_producerBody (call : ProducerCall F) :
    Atomic (F := F) (S := S) (W := W) geometry (producerBody geometry call)
      (RingView.produce geometry call) := by
  cases call with
  | pushSample sample => exact atomic_pushSample sample
  | push input => exact atomic_push input
  | pushTagged input generation sourceStart spans =>
      exact atomic_pushTagged input generation sourceStart spans
  | gap samples => exact atomic_gap samples
  | mute generation spans => exact atomic_mute generation spans
  | finish => exact atomic_finish
  | status token => exact atomic_status token

end Calls

end PcmRing
