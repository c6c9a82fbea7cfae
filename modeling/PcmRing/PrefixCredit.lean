import PcmRing.ProducerAccounts
import PcmRing.FinishProtocol

/-!
# Prefix credit and discarded slots

An uninterrupted publishing call accepts a prefix of what it offers, and counts
the rest as discarded when the FIFO was full.  A block that runs out of source
positions counts the slots behind the rejected one, although nothing was full.
-/

namespace PcmRing

open AtomicProgram TwoLapQueue

variable {F S W : Type}

inductive Rejection where
  | boundary
  | argument
  | mailbox
  | full
  | exhausted
deriving DecidableEq

section Offers

variable [Binary32 F]

/-- The slots a publishing call offers; `none` for the other calls. -/
def ProducerCall.offered : ProducerCall F → Option (List (SourceSample F))
  | .pushSample sample => some [pcmSlot sample]
  | .push input => some (input.map pcmSlot)
  | .pushTagged input _ _ _ => some (input.map pcmSlot)
  | .gap samples => some (List.replicate samples gapSlot)
  | .mute .. | .finish | .status _ => none

/-- How many of the offered slots a result credits. -/
def ProducerResult.credited : ProducerResult → Nat
  | .published accepted => if accepted then 1 else 0
  | .count accepted => accepted
  | .credit accepted => accepted.getD 0
  | .token _ | .status _ => 0

/-- Free slots of the FIFO. -/
def Ring.room (geometry : Geometry) (ring : Ring F S W) : Nat :=
  geometry.capacity - (ring.pcm.unread geometry.capacity).length

/-- Why a block of so many slots is not accepted whole. -/
def Ring.blockRejection (geometry : Geometry) (ring : Ring F S W) (count : Nat) :
    Option Rejection :=
  if FinishPending ring.finish then some .boundary
  else if count ≤ ring.room geometry ∧ Within ring.account.stamp count then none
  else if Within ring.account.stamp (ring.room geometry) then some .full
  else some .exhausted

/-- Why a tagged block is not accepted whole; its positions are checked first. -/
def Ring.taggedRejection (geometry : Geometry) (ring : Ring F S W) (input : List F)
    (generation sourceStart : Nat) (spans : List Span) : Option Rejection :=
  if FinishPending ring.finish then some .boundary
  else if TaggedInvalid geometry input sourceStart spans ∨
      Discontinuous ring.account.stamp generation sourceStart then some .argument
  else if mailboxQueue - (ring.mutes.unread mailboxQueue).length < spans.length then
    some .mailbox
  else if input.length ≤ ring.room geometry then none
  else some .full

def Ring.rejection (geometry : Geometry) (ring : Ring F S W) :
    ProducerCall F → Option Rejection
  | .pushSample _ => ring.blockRejection geometry 1
  | .push input => ring.blockRejection geometry input.length
  | .gap samples => ring.blockRejection geometry samples
  | .pushTagged input generation sourceStart spans =>
      ring.taggedRejection geometry input generation sourceStart spans
  | .mute .. | .finish | .status _ => none

/-- An untagged block that offers `samples`. -/
def ProducerCall.IsBlock (samples : List (SourceSample F)) : ProducerCall F → Prop
  | .push input => samples = input.map pcmSlot
  | .gap count => samples = List.replicate count gapSlot
  | _ => False

/-- The uninterrupted call. -/
def Ring.after (geometry : Geometry) (ring : Ring F S W) (call : ProducerCall F) :
    ProducerResult × Ring F S W :=
  (producerBody geometry call).run (exec geometry) ring

/-- Credit and discards of one uninterrupted call. -/
structure PrefixCredit (geometry : Geometry) (ring : Ring F S W) (call : ProducerCall F)
    (samples : List (SourceSample F)) : Prop where
  /-- Exactly the credited prefix was appended, in order. -/
  appended : ∃ slots,
    (ring.after geometry call).2.pcm.published = ring.pcm.published ++ slots ∧
    slots.length = (ring.after geometry call).1.credited ∧
    slots.map SourceSample.content <+: samples.map SourceSample.content
  /-- What a full FIFO rejected was discarded, and nothing else. -/
  counted : (ring.after geometry call).2.counters .discarded =
    if ring.rejection geometry call = some .full then
      min (ring.counters .discarded +
        (samples.length - (ring.after geometry call).1.credited)) (2 ^ 64 - 1)
    else ring.counters .discarded
  /-- A block is its slots one by one, and a full FIFO also discards the rest. -/
  oneByOne : call.IsBlock samples →
    let each := (publishEach geometry samples 0).run (exec geometry) ring
    (ring.after geometry call).1.credited = each.1 ∧
      (ring.after geometry call).2.account =
        if ring.rejection geometry call = some .full then
          each.2.account.discard (samples.length - each.1 - 1)
        else each.2.account

/-- A block runs out of source positions before its last slot, with room left. -/
def Ring.Overruns (geometry : Geometry) (ring : Ring F S W) (samples : List (SourceSample F))
    (call : ProducerCall F) : Prop :=
  call.IsBlock samples ∧ ¬FinishPending ring.finish ∧
    ¬Within ring.account.stamp (ring.room geometry) ∧
    ¬Within ring.account.stamp (samples.length - 1) ∧
    ring.counters .discarded < 2 ^ 64 - 1

end Offers

/-- Nothing moves while a call is uninterrupted, and the call leaves the
consumer's cursors and the finish word alone. -/
structure Undrained (before after : Ring F S W) : Prop where
  passed_eq : after.pcm.passed = before.pcm.passed
  records_passed_eq : after.mutes.passed = before.mutes.passed
  finish_eq : after.finish = before.finish

theorem quietEq (geometry : Geometry) :
    QuietSide geometry (Eq : Ring F S W → Ring F S W → Prop) Undrained where
  order := Program.preordered_eq
  keeps := ⟨fun _ => ⟨rfl, rfl, rfl⟩, fun first second =>
    ⟨second.passed_eq.trans first.passed_eq,
      second.records_passed_eq.trans first.records_passed_eq,
      second.finish_eq.trans first.finish_eq⟩⟩
  moves same := same ▸ .refl _
  serial_eq same := same ▸ rfl
  still same := same ▸ ⟨rfl, rfl, rfl⟩
  access {op ring} permitted keeps := by
    cases op with
    | pcm access =>
        cases access <;> first | exact ⟨rfl, rfl, rfl⟩ | exact permitted.1.elim
    | mutes access =>
        cases access <;> first | exact ⟨rfl, rfl, rfl⟩ | exact permitted.elim
    | storeFinish word => exact keeps.elim
    | _ => exact ⟨rfl, rfl, rfl⟩
  passed_le kept _ := Nat.le_of_eq (congrArg List.length kept.passed_eq.symm)
  idle kept idle := kept.finish_eq ▸ idle

variable {geometry : Geometry} {ring now : Ring F S W} {account : ProducerAccount F}

theorem stands_self (pcm : ring.pcm.Sound geometry.capacity)
    (mutes : ring.mutes.Sound mailboxQueue) :
    Stands geometry Undrained ring ring.account ring :=
  ⟨pcm, mutes, (quietEq geometry).keeps.refl ring, rfl⟩

theorem Stands.unread_eq (stands : Stands geometry Undrained ring account now)
    (pcm : ring.pcm.Sound geometry.capacity) {count : Nat}
    (grown : account.published.length = ring.pcm.published.length + count) :
    (now.pcm.unread geometry.capacity).length =
      (ring.pcm.unread geometry.capacity).length + count := by
  have before := pcm.published_length
  have after := stands.pcm.published_length
  rw [show now.pcm.published = account.published from
    congrArg ProducerAccount.published stands.account_eq, grown,
    stands.kept.passed_eq] at after
  rw [Channel.unread_length, Channel.unread_length]
  omega

theorem Stands.records_unread_eq (stands : Stands geometry Undrained ring account now)
    (mutes : ring.mutes.Sound mailboxQueue) (same : account.records = ring.mutes.published) :
    (now.mutes.unread mailboxQueue).length = (ring.mutes.unread mailboxQueue).length := by
  have before := mutes.published_length
  have after := stands.mutes.published_length
  rw [show now.mutes.published = account.records from
    congrArg ProducerAccount.records stands.account_eq, same,
    stands.kept.records_passed_eq] at after
  rw [Channel.unread_length, Channel.unread_length]
  omega

theorem Stands.fits (stands : Stands geometry Undrained ring account now)
    (pcm : ring.pcm.Sound geometry.capacity) {count : Nat}
    (grown : account.published.length = ring.pcm.published.length + count) :
    count ≤ ring.room geometry := by
  have unread := stands.unread_eq pcm grown
  have bounded := stands.pcm.valid.distance_le
  rw [← Channel.unread_length, unread] at bounded
  unfold Ring.room
  omega

theorem Within.mono {stamp : Option Stamp} {count more : Nat} (within : Within stamp more)
    (le : count ≤ more) : Within stamp count := by
  rcases within with rfl | bounded
  · exact .inl (Nat.le_zero.mp le)
  · exact .inr fun current member =>
      Nat.lt_of_le_of_lt (Nat.add_le_add_left le _) (bounded current member)

theorem accept_published_length (samples : List (SourceSample F)) :
    (ring.account.accept samples).published.length =
      ring.pcm.published.length + samples.length := by
  simp [ProducerAccount.accept, Ring.account]

theorem room_of_full {count : Nat} (full : ring.blockRejection geometry count = some .full) :
    ¬FinishPending ring.finish ∧ Within ring.account.stamp (ring.room geometry) := by
  unfold Ring.blockRejection at full
  split at full
  · cases full
  · rename_i idle
    split at full
    · cases full
    · split at full
      · rename_i reach
        exact ⟨idle, reach⟩
      · cases full

theorem room_of_exhausted {count : Nat}
    (exhausted : ring.blockRejection geometry count = some .exhausted) :
    ¬FinishPending ring.finish ∧ ¬Within ring.account.stamp (ring.room geometry) := by
  unfold Ring.blockRejection at exhausted
  split at exhausted
  · cases exhausted
  · rename_i idle
    split at exhausted
    · cases exhausted
    · split at exhausted
      · cases exhausted
      · rename_i beyond
        exact ⟨idle, beyond⟩

theorem exhausted_of_beyond {count : Nat} (idle : ¬FinishPending ring.finish)
    (room : ¬Within ring.account.stamp (ring.room geometry))
    (beyond : ¬Within ring.account.stamp (count - 1)) :
    ring.blockRejection geometry count = some .exhausted := by
  unfold Ring.blockRejection
  rw [if_neg idle, if_neg fun whole => beyond (whole.2.mono (Nat.sub_le _ _)), if_neg room]

theorem exhausted_of_rest {count : Nat} (idle : ¬FinishPending ring.finish)
    (notWhole : ring.blockRejection geometry count ≠ none)
    (notFull : ring.blockRejection geometry count ≠ some .full) :
    ring.blockRejection geometry count = some .exhausted := by
  unfold Ring.blockRejection at notWhole notFull ⊢
  rw [if_neg idle] at notWhole notFull ⊢
  split at notWhole
  · exact (notWhole rfl).elim
  · rename_i short
    rw [if_neg short] at notFull ⊢
    split at notFull
    · exact (notFull rfl).elim
    · rename_i beyond
      exact if_neg beyond

/-- Slots published one by one: how many, why no more, and the account. -/
structure PublishedEach (geometry : Geometry) (ring : Ring F S W)
    (samples : List (SourceSample F)) (count : Nat) (now : Ring F S W) : Prop where
  count_le : count ≤ samples.length
  whole : count = samples.length → ring.blockRejection geometry samples.length ≠ some .full
  short : count < samples.length → ring.blockRejection geometry samples.length ≠ none
  limit : ring.blockRejection geometry samples.length = some .exhausted →
    count < samples.length ∧ ∀ more, Within ring.account.stamp more ↔ more ≤ count
  account_eq : now.account =
    if ring.blockRejection geometry samples.length = some .full then
      (ring.account.accept (samples.take count)).discard 1
    else ring.account.accept (samples.take count)

theorem publishedEach_of_all (samples : List (SourceSample F))
    (pcm : ring.pcm.Sound geometry.capacity)
    (within : Within ring.account.stamp samples.length)
    (stands : Stands geometry Undrained ring (ring.account.accept samples) now) :
    PublishedEach geometry ring samples samples.length now := by
  have fits := stands.fits pcm (accept_published_length samples)
  have rejection : ring.blockRejection geometry samples.length ≠ some .full ∧
      ring.blockRejection geometry samples.length ≠ some .exhausted := by
    unfold Ring.blockRejection
    split
    · simp
    · rw [if_pos ⟨fits, within⟩]
      simp
  refine ⟨Nat.le_refl _, fun _ => rejection.1, fun short => (Nat.lt_irrefl _ short).elim,
    fun exhausted => (rejection.2 exhausted).elim, ?_⟩
  rw [if_neg rejection.1, List.take_length]
  exact stands.account_eq

theorem publishedEach_of_stopped (samples : List (SourceSample F))
    (pcm : ring.pcm.Sound geometry.capacity) {count : Nat} (countLt : count < samples.length)
    (within : Within ring.account.stamp count) {moment : Ring F S W}
    {after : ProducerAccount F}
    (stands : Stands geometry Undrained ring (ring.account.accept (samples.take count)) moment)
    (stops : Stops geometry (ring.account.accept (samples.take count)) moment after)
    (afterEq : now.account = after) : PublishedEach geometry ring samples count now := by
  have grown : (ring.account.accept (samples.take count)).published.length =
      ring.pcm.published.length + count := by
    rw [accept_published_length, List.length_take, Nat.min_eq_left (Nat.le_of_lt countLt)]
  have unread := stands.unread_eq pcm grown
  have fits := stands.fits pcm grown
  cases stops with
  | pending pending =>
      have rejection : ring.blockRejection geometry samples.length = some .boundary :=
        if_pos (stands.kept.finish_eq ▸ pending)
      refine ⟨Nat.le_of_lt countLt, fun _ => by simp [rejection], fun _ => by simp [rejection],
        fun exhausted => by simp [rejection] at exhausted, ?_⟩
      rw [rejection, if_neg (by simp)]
      exact afterEq
  | full idle full =>
      have room : ring.room geometry = count := by
        unfold Ring.room at fits ⊢
        omega
      have rejection : ring.blockRejection geometry samples.length = some .full := by
        unfold Ring.blockRejection
        rw [if_neg (stands.kept.finish_eq ▸ idle), if_neg (by omega), room, if_pos within]
      refine ⟨Nat.le_of_lt countLt, fun whole => by omega, fun _ => by simp [rejection],
        fun exhausted => by simp [rejection] at exhausted, ?_⟩
      rw [rejection, if_pos rfl]
      exact afterEq
  | exhausted idle room beyond =>
      have overrun : ¬Within ring.account.stamp (count + 1) := by
        intro reach
        refine beyond (.inr fun stamp member => ?_)
        obtain ⟨first, firstEq, rfl⟩ := Option.mem_map.mp member
        have := reach.resolve_left (Nat.succ_ne_zero _) first firstEq
        simp only [Stamp.advance, List.length_take]
        omega
      have spare : count + 1 ≤ ring.room geometry := by
        unfold Ring.room
        omega
      have rejection : ring.blockRejection geometry samples.length = some .exhausted := by
        unfold Ring.blockRejection
        rw [if_neg (stands.kept.finish_eq ▸ idle), if_neg fun whole => overrun (whole.2.mono countLt),
          if_neg fun reach => overrun (reach.mono spare)]
      refine ⟨Nat.le_of_lt countLt, fun whole => by omega, fun _ => by simp [rejection],
        fun _ => ⟨countLt, fun more => ⟨fun reach => ?_, within.mono⟩⟩, ?_⟩
      · by_contra longer
        exact overrun (reach.mono (Nat.not_le.mp longer))
      · rw [rejection, if_neg (by simp)]
        exact afterEq

theorem run_publishEach (samples : List (SourceSample F))
    (unstamped : ∀ sample ∈ samples, sample.stamp = none)
    (pcm : ring.pcm.Sound geometry.capacity) (mutes : ring.mutes.Sound mailboxQueue) :
    PublishedEach geometry ring samples
      ((publishEach geometry samples 0).run (exec geometry) ring).1
      ((publishEach geometry samples 0).run (exec geometry) ring).2 := by
  have safe : (publishEach geometry samples 0 >>= Program.done).Safe (exec geometry) Eq
      (fun _ _ => True) (PublishedEach geometry ring samples) ring :=
    (quietEq geometry).safe_publishEach samples 0 unstamped (stands_self pcm mutes) ?_ ?_
  · have run := safe.run
    rwa [Program.bind_done] at run
  · rintro count moment after later countLt within stands stops kept laterStands _ rfl
    rw [Nat.zero_add]
    exact publishedEach_of_stopped samples pcm countLt within stands stops
      laterStands.account_eq
  · rintro later within stands _ rfl
    rw [Nat.zero_add]
    exact publishedEach_of_all samples pcm within stands

theorem run_publishEach_pending (samples : List (SourceSample F))
    (pcm : ring.pcm.Sound geometry.capacity) (mutes : ring.mutes.Sound mailboxQueue)
    (pending : FinishPending ring.finish) :
    ((publishEach geometry samples 0).run (exec geometry) ring).1 = 0 ∧
      ((publishEach geometry samples 0).run (exec geometry) ring).2.account = ring.account := by
  cases samples with
  | nil => exact ⟨rfl, rfl⟩
  | cons sample rest =>
      have safe : (publishEach geometry (sample :: rest) 0).Safe (exec geometry) Eq
          (fun _ _ => True) (fun count now => count = 0 ∧ now.account = ring.account) ring := by
        simp only [publishEach, producerPublish, bind_assoc]
        refine (quietEq geometry).safe_sync (stands_self pcm mutes) fun first firstStands _ => ?_
        refine (quietEq geometry).safe_gate .publishGate firstStands
          (fun second secondStands _ => ?_) fun second secondStands idle _ => ?_
        · rintro last rfl
          exact ⟨rfl, secondStands.account_eq⟩
        · exact (idle (secondStands.kept.finish_eq ▸ pending)).elim
      exact safe.run

/-- A block is its slots one by one, then the count of those behind a rejected
slot; a pending boundary rejects it as a whole. -/
theorem run_publishBlock (samples : List (SourceSample F))
    (pcm : ring.pcm.Sound geometry.capacity) (mutes : ring.mutes.Sound mailboxQueue) :
    ((publishBlock geometry samples).run (exec geometry) ring).1 =
        ((publishEach geometry samples 0).run (exec geometry) ring).1 ∧
      ((publishBlock geometry samples).run (exec geometry) ring).2.account =
        if ¬FinishPending ring.finish ∧
            ((publishEach geometry samples 0).run (exec geometry) ring).1 < samples.length then
          ((publishEach geometry samples 0).run (exec geometry) ring).2.account.discard
            (samples.length - ((publishEach geometry samples 0).run (exec geometry) ring).1 - 1)
        else ((publishEach geometry samples 0).run (exec geometry) ring).2.account := by
  have gate : (publishBlock geometry samples).run (exec geometry) ring =
      if FinishPending ring.finish then (0, ring)
      else (publishFrom geometry samples 0).run (exec geometry) ring := by
    unfold publishBlock finishPending
    rw [bind_assoc]
    change Program.run (exec geometry) (if decide (FinishPending ring.finish) = true then _ else _)
      ring = _
    simp only [decide_eq_true_eq]
    split <;> rfl
  by_cases pending : FinishPending ring.finish
  · obtain ⟨none, same⟩ := run_publishEach_pending samples pcm mutes pending
    rw [gate, if_pos pending, if_neg fun open' => open'.1 pending]
    exact ⟨none.symm, same.symm⟩
  · rw [gate, if_neg pending, publishFrom_each, Program.run_bind, Nat.zero_add]
    simp only [pending, not_false_eq_true, true_and]
    generalize (publishEach geometry samples 0).run (exec geometry) ring = each
    split
    · refine ⟨rfl, ?_⟩
      simp only [saturatingAddCounter, bind_assoc]
      change (effect geometry (.storeCounter .discarded _) each.2).account = _
      simp only [Ring.account, effect, ProducerAccount.discard, Function.update_self]
      rfl
    · exact ⟨rfl, rfl⟩

theorem discard_discarded (count : Nat) (account : ProducerAccount F) :
    (account.discard count).discarded = min (account.discarded + count) (2 ^ 64 - 1) :=
  rfl

theorem accept_discarded (samples : List (SourceSample F)) :
    (ring.account.accept samples).discarded = ring.counters .discarded :=
  rfl

theorem discard_eq_self {count : Nat} {account : ProducerAccount F}
    (counter : account.discarded ≤ 2 ^ 64 - 1)
    (still : count = 0 ∨ 2 ^ 64 - 1 ≤ account.discarded) : account.discard count = account := by
  have same : min (account.discarded + count) (2 ^ 64 - 1) = account.discarded := by omega
  rw [ProducerAccount.discard, same]

theorem appended_of_account {samples : List (SourceSample F)} {count : Nat}
    {stamp : Option Stamp} (countLe : count ≤ samples.length)
    (publishedEq : now.pcm.published =
      ring.pcm.published ++ ProducerAccount.stamped stamp (samples.take count)) :
    ∃ slots, now.pcm.published = ring.pcm.published ++ slots ∧ slots.length = count ∧
      slots.map SourceSample.content <+: samples.map SourceSample.content := by
  refine ⟨ProducerAccount.stamped stamp (samples.take count), publishedEq, ?_, ?_⟩
  · rw [ProducerAccount.stamped_length, List.length_take, Nat.min_eq_left countLe]
  · rw [ProducerAccount.stamped_content]
    exact (List.take_prefix _ _).map _

section Calls

variable [Binary32 F] {call : ProducerCall F} {samples : List (SourceSample F)}

theorem after_block (geometry : Geometry) (ring : Ring F S W) (block : call.IsBlock samples) :
    (ring.after geometry call).1.credited =
        ((publishBlock geometry samples).run (exec geometry) ring).1 ∧
      (ring.after geometry call).2 =
        ((publishBlock geometry samples).run (exec geometry) ring).2 := by
  cases call with
  | push input =>
      obtain rfl : samples = input.map pcmSlot := block
      rw [← producerPush_eq]
      exact ⟨by simp [Ring.after, producerBody, ProducerResult.credited],
        by simp [Ring.after, producerBody]⟩
  | gap count =>
      obtain rfl : samples = List.replicate count gapSlot := block
      rw [← producerGap_eq]
      exact ⟨by simp [Ring.after, producerBody, ProducerResult.credited],
        by simp [Ring.after, producerBody]⟩
  | _ => exact block.elim

theorem block_unstamped (block : call.IsBlock samples) :
    ∀ sample ∈ samples, sample.stamp = none := by
  intro sample member
  cases call with
  | push input =>
      obtain rfl : samples = input.map pcmSlot := block
      obtain ⟨original, -, rfl⟩ := List.mem_map.mp member
      rfl
  | gap count =>
      obtain rfl : samples = List.replicate count gapSlot := block
      rw [List.eq_of_mem_replicate member]
      rfl
  | _ => exact block.elim

theorem block_rejection (geometry : Geometry) (ring : Ring F S W)
    (block : call.IsBlock samples) :
    ring.rejection geometry call = ring.blockRejection geometry samples.length := by
  cases call with
  | push input =>
      obtain rfl : samples = input.map pcmSlot := block
      simp [Ring.rejection]
  | gap count =>
      obtain rfl : samples = List.replicate count gapSlot := block
      simp [Ring.rejection]
  | _ => exact block.elim

/-- A block is credited as it should be unless it runs out of source positions
before its last slot. -/
theorem prefixCredit_block (block : call.IsBlock samples)
    (pcm : ring.pcm.Sound geometry.capacity) (mutes : ring.mutes.Sound mailboxQueue)
    (counter : ring.counters .discarded ≤ 2 ^ 64 - 1) :
    PrefixCredit geometry ring call samples ↔ ¬ring.Overruns geometry samples call := by
  have each := run_publishEach samples (block_unstamped block) pcm mutes
  obtain ⟨credited, accountEq⟩ := run_publishBlock samples pcm mutes
  obtain ⟨creditedEq, afterEq⟩ := after_block geometry ring block
  rw [← creditedEq] at credited
  rw [← afterEq] at accountEq
  have rejectionEq := block_rejection geometry ring block
  have appended := appended_of_account each.count_le
    (show (ring.after geometry call).2.pcm.published = ring.pcm.published ++
        ProducerAccount.stamped ring.account.stamp (samples.take _) by
      change (ring.after geometry call).2.account.published = _
      rw [accountEq, each.account_eq]
      split <;> split <;> rfl)
  have countedEq : (ring.after geometry call).2.counters .discarded =
      (ring.after geometry call).2.account.discarded := rfl
  rw [← credited] at each accountEq appended
  by_cases full : ring.blockRejection geometry samples.length = some .full
  · obtain ⟨idle, reach⟩ := room_of_full full
    have short : (ring.after geometry call).1.credited < samples.length :=
      Nat.lt_of_le_of_ne each.count_le fun whole => each.whole whole full
    rw [if_pos ⟨idle, short⟩] at accountEq
    refine iff_of_true ⟨appended, ?_, fun _ => ⟨credited, ?_⟩⟩ fun overruns => overruns.2.2.1 reach
    · rw [rejectionEq, if_pos full, countedEq, accountEq, each.account_eq, if_pos full,
        ProducerAccount.discard_discard, discard_discarded, accept_discarded]
      congr 2
      omega
    · rw [rejectionEq, if_pos full, ← credited]
      exact accountEq
  · have unfilled := each.account_eq
    rw [if_neg full] at unfilled
    by_cases overruns : ring.Overruns geometry samples call
    · refine iff_of_false (fun credit => ?_) (not_not.mpr overruns)
      obtain ⟨-, idle, noRoom, beyond, unsaturated⟩ := overruns
      obtain ⟨short, limit⟩ := each.limit (exhausted_of_beyond idle noRoom beyond)
      have counted := credit.counted
      rw [limit] at beyond
      rw [rejectionEq, if_neg full, countedEq, accountEq, if_pos ⟨idle, short⟩, unfilled,
        discard_discarded, accept_discarded] at counted
      omega
    · refine iff_of_true ?_ overruns
      have same : (ring.after geometry call).2.account =
          ((publishEach geometry samples 0).run (exec geometry) ring).2.account := by
        rw [accountEq]
        split
        · rename_i short
          obtain ⟨-, limit⟩ := each.limit
            (exhausted_of_rest short.1 (each.short short.2) full)
          have noRoom := (room_of_exhausted (exhausted_of_rest short.1 (each.short short.2)
            full)).2
          refine discard_eq_self ?_ ?_ <;> rw [unfilled, accept_discarded]
          · exact counter
          by_contra grows
          refine overruns ⟨block, short.1, noRoom, fun reach => ?_, by omega⟩
          have := (limit _).mp reach
          omega
        · rfl
      refine ⟨appended, ?_, fun _ => ⟨credited, ?_⟩⟩
      · rw [rejectionEq, if_neg full, countedEq, same, unfilled, accept_discarded]
      · rw [rejectionEq, if_neg full]
        exact same

theorem prefixCredit_sample (sample : F) (pcm : ring.pcm.Sound geometry.capacity)
    (mutes : ring.mutes.Sound mailboxQueue) :
    PrefixCredit geometry ring (.pushSample sample) [pcmSlot sample] := by
  have each := run_publishEach [pcmSlot sample] (by simp [pcmSlot]) pcm mutes
  have eachEq : (publishEach geometry [pcmSlot sample] 0).run (exec geometry) ring =
      ((ring.after geometry (.pushSample sample)).1.credited,
        (ring.after geometry (.pushSample sample)).2) := by
    simp only [publishEach, Ring.after, producerBody, producerPushSample, pcmSlot,
      Program.run_bind, ProducerResult.credited]
    split
    · rename_i accepted
      simp [accepted]
    · rename_i rejected
      simp [rejected]
  rw [eachEq] at each
  have appended := appended_of_account each.count_le
    (show (ring.after geometry (.pushSample sample)).2.pcm.published = ring.pcm.published ++
        ProducerAccount.stamped ring.account.stamp ([pcmSlot sample].take _) by
      change (ring.after geometry (.pushSample sample)).2.account.published = _
      rw [each.account_eq]
      split <;> rfl)
  refine ⟨appended, ?_, fun block => block.elim⟩
  change (ring.after geometry (.pushSample sample)).2.account.discarded =
    if ring.blockRejection geometry 1 = some .full then _ else _
  rw [each.account_eq]
  split
  · rename_i full
    have short : (ring.after geometry (.pushSample sample)).1.credited = 0 :=
      Nat.lt_one_iff.mp (Nat.lt_of_le_of_ne each.count_le fun whole => each.whole whole full)
    change ring.blockRejection geometry 1 = some .full at full
    rw [if_pos full, discard_discarded, accept_discarded, short]
    rfl
  · rename_i other
    change ¬ring.blockRejection geometry 1 = some .full at other
    rw [if_neg other, accept_discarded]

theorem prefixCredit_tagged (input : List F) (generation sourceStart : Nat)
    (spans : List Span) (pcm : ring.pcm.Sound geometry.capacity)
    (mutes : ring.mutes.Sound mailboxQueue)
    (counter : ring.counters .discarded ≤ 2 ^ 64 - 1) :
    PrefixCredit geometry ring (.pushTagged input generation sourceStart spans)
      (input.map pcmSlot) := by
  have safe : (producerBody geometry (.pushTagged input generation sourceStart spans)).Safe
      (exec geometry) Eq (fun _ _ => True)
      (fun result now => result.credited ≤ input.length ∧
        (∃ stamp, now.pcm.published = ring.pcm.published ++
          ProducerAccount.stamped stamp ((input.map pcmSlot).take result.credited)) ∧
        now.counters .discarded =
          if ring.taggedRejection geometry input generation sourceStart spans = some .full then
            min (ring.counters .discarded + (input.length - result.credited)) (2 ^ 64 - 1)
          else ring.counters .discarded) ring := by
    have refused {now : Ring F S W} {credit : Option Nat}
        (stands : Stands geometry Undrained ring ring.account now) (zero : credit.getD 0 = 0)
        (other : ring.taggedRejection geometry input generation sourceStart spans ≠
          some .full) :
        (ProducerResult.credit credit).credited ≤ input.length ∧
        (∃ stamp, now.pcm.published = ring.pcm.published ++ ProducerAccount.stamped stamp
          ((input.map pcmSlot).take (ProducerResult.credit credit).credited)) ∧
        now.counters .discarded =
          if ring.taggedRejection geometry input generation sourceStart spans = some .full then
            min (ring.counters .discarded + (input.length -
              (ProducerResult.credit credit).credited)) (2 ^ 64 - 1)
          else ring.counters .discarded := by
      have same : now.account = ring.account := stands.account_eq
      rw [if_neg other, ProducerResult.credited, zero]
      exact ⟨Nat.zero_le _, ⟨none, (congrArg ProducerAccount.published same).trans
        (List.append_nil _).symm⟩, congrArg ProducerAccount.discarded same⟩
    simp only [producerBody]
    refine (quietEq geometry).safe_producerPushTagged input generation sourceStart spans
      (stands_self pcm mutes) ?_ ?_ ?_ ?_
    · rintro later stands pending _ rfl
      refine refused stands rfl ?_
      unfold Ring.taggedRejection
      rw [if_pos (stands.kept.finish_eq ▸ pending)]
      simp
    · rintro later stands idle invalid _ rfl
      refine refused stands rfl ?_
      unfold Ring.taggedRejection
      rw [if_neg (stands.kept.finish_eq ▸ idle), if_pos invalid]
      simp
    · rintro later stands idle valid continues crowded _ rfl
      refine refused stands rfl ?_
      rw [stands.records_unread_eq mutes rfl] at crowded
      unfold Ring.taggedRejection
      rw [if_neg (stands.kept.finish_eq ▸ idle), if_neg (not_or.mpr ⟨valid, continues⟩),
        if_pos crowded]
      simp
    · rintro moment later momentStands idle valid continues roomy kept stands _ rfl
      rw [momentStands.records_unread_eq mutes rfl] at roomy
      have unread : (moment.pcm.unread geometry.capacity).length =
          (ring.pcm.unread geometry.capacity).length :=
        momentStands.unread_eq pcm (Nat.add_zero _).symm
      have rejection : ring.taggedRejection geometry input generation sourceStart spans =
          if input.length ≤ ring.room geometry then none else some .full := by
        unfold Ring.taggedRejection
        rw [if_neg (momentStands.kept.finish_eq ▸ idle),
          if_neg (not_or.mpr ⟨valid, continues⟩), if_neg (Nat.not_lt.mpr roomy)]
      rw [rejection]
      rw [unread] at stands ⊢
      change Stands geometry Undrained ring (taggedAccount generation sourceStart spans input
        (ring.room geometry) ring.account) later at stands
      change (min input.length (ring.room geometry)) ≤ input.length ∧ _ ∧ _
      refine ⟨Nat.min_le_left _ _, ?_, ?_⟩
      · obtain ⟨stamp, publishedEq⟩ := taggedAccount_published generation sourceStart spans
          input (ring.room geometry) ring.account
        exact ⟨stamp, (congrArg ProducerAccount.published stands.account_eq).trans publishedEq⟩
      · rw [show later.counters .discarded = _ from
          congrArg ProducerAccount.discarded stands.account_eq, taggedAccount_discarded]
        change min (ring.counters .discarded + _) _ = _
        split
        · rename_i whole
          rw [if_neg (by simp), Nat.min_eq_left whole, Nat.sub_self, Nat.add_zero,
            Nat.min_eq_left counter]
        · rw [if_pos rfl]
          rfl
  obtain ⟨countLe, ⟨stamp, publishedEq⟩, discardedEq⟩ := safe.run
  refine ⟨appended_of_account (by rw [List.length_map]; exact countLe) publishedEq, ?_, fun block => block.elim⟩
  rw [List.length_map]
  exact discardedEq

end Calls

section Reachable

variable [Binary32 F] [Binary64 W] [Widening F W] {adapter : Adapter F W S}
  {settings : Settings} {config : RingConfig F S W}

theorem producerHolds_of_idle
    (reached : RingReachable adapter settings (fun _ _ => True) geometry config)
    (idle : config.thread .producer = .idle) :
    ProducerHolds geometry True none config.memory :=
  Outline.inv_of_idle _ (drain_holds reached .producer) idle

/-- In every reachable state, a publishing call that nothing interrupts is
credited and discarded as it should be, unless it is a block that runs out of
source positions before its last slot. -/
theorem prefixCredit_iff
    (reached : RingReachable adapter settings (fun _ _ => True) geometry config)
    (idle : config.thread .producer = .idle) {call : ProducerCall F}
    {samples : List (SourceSample F)} (offers : call.offered = some samples) :
    PrefixCredit geometry config.memory call samples ↔
      ¬config.memory.Overruns geometry samples call := by
  have holds := producerHolds_of_idle reached idle
  have counter := discarded_le reached
  cases call with
  | pushSample sample =>
      obtain rfl := Option.some.inj offers
      exact iff_of_true (prefixCredit_sample sample holds.pcm holds.mutes) fun overruns => overruns.1
  | push input =>
      obtain rfl := Option.some.inj offers
      exact prefixCredit_block (by exact rfl) holds.pcm holds.mutes counter
  | pushTagged input generation sourceStart spans =>
      obtain rfl := Option.some.inj offers
      exact iff_of_true (prefixCredit_tagged input generation sourceStart spans holds.pcm
        holds.mutes counter) fun overruns => overruns.1
  | gap count =>
      obtain rfl := Option.some.inj offers
      exact prefixCredit_block (by exact rfl) holds.pcm holds.mutes counter
  | mute | finish | status => cases offers

end Reachable

/-- Two slots of the queue are left. -/
def crampedSchedule : List (Choice (Party.Call ℚ)) :=
  [.invoke .producer (.push (List.replicate 510 (1 / 2))), .complete .producer 20000]

/-- Two of three samples are credited, and the last one is counted as discarded. -/
theorem prefixCredit_cramped :
    ∃ (geometry : Geometry) (config : RingConfig ℚ Unit ℚ),
      RingReachable unitConverter smallSettings (fun _ _ => True) geometry config ∧
      config.memory.rejection geometry (.push [1 / 2, 1 / 4, 1 / 8]) = some .full ∧
      (config.memory.after geometry (.push [1 / 2, 1 / 4, 1 / 8])).1 = .count 2 ∧
      (config.memory.after geometry (.push [1 / 2, 1 / 4, 1 / 8])).2.counters .discarded = 1 ∧
      PrefixCredit geometry config.memory (.push [1 / 2, 1 / 4, 1 / 8])
        [pcmSlot (1 / 2), pcmSlot (1 / 4), pcmSlot (1 / 8)] := by
  let shown (geometry : Geometry) (config : RingConfig ℚ Unit ℚ) : Bool :=
    config.resting .producer && decide (config.memory.account.stamp = none ∧
      config.memory.rejection geometry (.push [1 / 2, 1 / 4, 1 / 8]) = some .full ∧
      (config.memory.after geometry (.push [1 / 2, 1 / 4, 1 / 8])).1 = .count 2 ∧
      (config.memory.after geometry (.push [1 / 2, 1 / 4, 1 / 8])).2.counters .discarded = 1)
  have played : (playRing unitConverter smallSettings crampedSchedule).any
      (fun played => shown played.1 played.2) = true := by decide +kernel
  obtain ⟨geometry, config, reached, shows⟩ :=
    reachable_of_plays _ _ _ shown (admitted_any crampedSchedule) played
  simp only [Bool.and_eq_true, decide_eq_true_eq, shown] at shows
  obtain ⟨resting, unstamped, full, credited, discarded⟩ := shows
  refine ⟨geometry, config, reached, full, credited, discarded,
    (prefixCredit_iff reached (Config.idle_of_resting resting) rfl).mpr fun overruns => ?_⟩
  obtain ⟨-, -, beyond, -⟩ := overruns
  exact beyond (.inr fun mark member => by rw [unstamped] at member; cases member)

/-- One sample carries the last source position but one. -/
def lastPositionSchedule : List (Choice (Party.Call ℚ)) :=
  uninterrupted .producer (.pushTagged [1 / 2] 1 (2 ^ 64 - 2) [])

/-- Two more samples: none is accepted, nothing is full, and one is counted. -/
theorem tail_discarded :
    ∃ (geometry : Geometry) (config : RingConfig ℚ Unit ℚ),
      RingReachable unitConverter smallSettings (fun _ _ => True) geometry config ∧
      config.thread .producer = .idle ∧
      config.memory.rejection geometry (.push [1 / 2, 1 / 2]) = some .exhausted ∧
      (config.memory.after geometry (.push [1 / 2, 1 / 2])).1 = .count 0 ∧
      config.memory.counters .discarded = 0 ∧
      (config.memory.after geometry (.push [1 / 2, 1 / 2])).2.counters .discarded = 1 ∧
      ¬PrefixCredit geometry config.memory (.push [1 / 2, 1 / 2])
        [pcmSlot (1 / 2), pcmSlot (1 / 2)] := by
  let shown (geometry : Geometry) (config : RingConfig ℚ Unit ℚ) : Bool :=
    config.resting .producer &&
      decide (config.memory.rejection geometry (.push [1 / 2, 1 / 2]) = some .exhausted) &&
      decide ((config.memory.after geometry (.push [1 / 2, 1 / 2])).1 = .count 0) &&
      decide (config.memory.counters .discarded = 0) &&
      decide ((config.memory.after geometry (.push [1 / 2, 1 / 2])).2.counters .discarded = 1)
  have played : (playRing unitConverter smallSettings lastPositionSchedule).any
      (fun played => shown played.1 played.2) = true := by decide +kernel
  obtain ⟨geometry, config, reached, shows⟩ :=
    reachable_of_plays _ _ _ shown (admitted_any lastPositionSchedule) played
  simp only [Bool.and_eq_true, decide_eq_true_eq, shown] at shows
  obtain ⟨⟨⟨⟨resting, rejection⟩, credited⟩, before⟩, after⟩ := shows
  refine ⟨geometry, config, reached, Config.idle_of_resting resting, rejection, credited, before,
    after, fun credit => ?_⟩
  have counted := credit.counted
  rw [rejection, if_neg (by simp), after, before] at counted
  exact absurd counted (by decide)

end PcmRing
