import PcmRing.ProducerPosts

/-!
# The producer's account

What a publishing call does, as long as no boundary completes and nothing is
reset while it runs: the slots and records it appends, the stamp it continues
from and the slots it counts as discarded.  The consumer may only make room.
The same rules serve an uninterrupted call, where nothing moves at all.
-/

namespace PcmRing

open AtomicProgram TwoLapQueue

variable {F S W β : Type}

/-- Everything accepted and counted so far, and the stamp that the next slot
continues: none when the stream was reset since. -/
structure ProducerAccount (F : Type) where
  published : List (SourceSample F)
  records : List Interval
  stamp : Option Stamp
  discarded : Nat

def Ring.account (ring : Ring F S W) : ProducerAccount F where
  published := ring.pcm.published
  records := ring.mutes.published
  stamp := if ring.producerEpoch = ring.resetSerial then ring.producerStamp else none
  discarded := ring.counters .discarded

/-- So many more slots can continue a stamp before the source positions run out. -/
def Within (stamp : Option Stamp) (count : Nat) : Prop :=
  count = 0 ∨ ∀ current ∈ stamp, current.source + count < 2 ^ 64

instance (stamp : Option Stamp) (count : Nat) : Decidable (Within stamp count) :=
  inferInstanceAs (Decidable (_ ∨ _))

/-- The slot of one input sample. -/
def pcmSlot [Binary32 F] (sample : F) : SourceSample F :=
  ⟨canonicalize sample, false, none⟩

namespace ProducerAccount

def discard (count : Nat) (account : ProducerAccount F) : ProducerAccount F :=
  { account with discarded := min (account.discarded + count) (2 ^ 64 - 1) }

/-- The stamps of a block that continues a stamp. -/
def stamped (stamp : Option Stamp) (samples : List (SourceSample F)) : List (SourceSample F) :=
  samples.mapIdx fun index sample => { sample with stamp := stamp.map (Stamp.advance index) }

def accept (samples : List (SourceSample F)) (account : ProducerAccount F) :
    ProducerAccount F :=
  { account with
    published := account.published ++ stamped account.stamp samples
    stamp := account.stamp.map (Stamp.advance samples.length) }

def tag (intervals : List Interval) (stamp : Stamp) (account : ProducerAccount F) :
    ProducerAccount F :=
  { account with
    records := account.records ++ intervals
    stamp := some stamp }

@[simp]
theorem stamped_length (stamp : Option Stamp) (samples : List (SourceSample F)) :
    (stamped stamp samples).length = samples.length :=
  List.length_mapIdx

theorem stamped_content (stamp : Option Stamp) (samples : List (SourceSample F)) :
    (stamped stamp samples).map SourceSample.content = samples.map SourceSample.content := by
  apply List.ext_getElem?
  intro index
  simp only [stamped, List.getElem?_map, List.getElem?_mapIdx, Option.map_map]
  rfl

theorem map_advance_advance (stamp : Option Stamp) (first second : Nat) :
    (stamp.map (Stamp.advance first)).map (Stamp.advance second) =
      stamp.map (Stamp.advance (first + second)) := by
  cases stamp with
  | none => rfl
  | some stamp => simp [Stamp.advance, Nat.add_assoc]

theorem accept_nil (account : ProducerAccount F) : account.accept [] = account := by
  cases account with
  | mk published records stamp discarded =>
      cases stamp with
      | none => simp [accept, stamped]
      | some stamp => simp [accept, stamped, Stamp.advance]

theorem accept_singleton (sample : SourceSample F) (account : ProducerAccount F) :
    account.accept [sample] =
      { account with
        published := account.published ++ [{ sample with stamp := account.stamp }]
        stamp := account.stamp.map (Stamp.advance 1) } := by
  cases stampEq : account.stamp <;> simp [accept, stamped, stampEq, Stamp.advance]

theorem accept_append (first second : List (SourceSample F)) (account : ProducerAccount F) :
    (account.accept first).accept second = account.accept (first ++ second) := by
  simp only [accept, stamped, map_advance_advance, List.mapIdx_append, List.append_assoc,
    List.length_append, Nat.add_comm]

theorem discard_discard (first second : Nat) (account : ProducerAccount F) :
    (account.discard first).discard second = account.discard (first + second) := by
  simp only [discard]
  congr 1
  omega

end ProducerAccount

/-- What a valid tagged block makes of the account when this many slots are free. -/
def taggedAccount [Binary32 F] (generation sourceStart : Nat) (spans : List Span)
    (input : List F) (room : Nat) (account : ProducerAccount F) : ProducerAccount F :=
  let count := min input.length room
  if count = 0 then account.discard input.length
  else
    ((account.tag (clippedIntervals generation spans (sourceStart + count))
      ⟨generation, sourceStart⟩).accept ((input.take count).map pcmSlot)).discard
        (input.length - count)

section Tagged

variable [Binary32 F] (generation sourceStart : Nat) (spans : List Span) (input : List F)
  (room : Nat) (account : ProducerAccount F)

theorem taggedAccount_published : ∃ stamp,
    (taggedAccount generation sourceStart spans input room account).published =
      account.published ++
        ProducerAccount.stamped stamp ((input.map pcmSlot).take (min input.length room)) := by
  unfold taggedAccount
  dsimp only
  split
  · rename_i none
    rw [none]
    exact ⟨Option.none, (List.append_nil _).symm⟩
  · rw [← List.map_take]
    exact ⟨_, rfl⟩

theorem taggedAccount_discarded :
    (taggedAccount generation sourceStart spans input room account).discarded =
      min (account.discarded + (input.length - min input.length room)) (2 ^ 64 - 1) := by
  unfold taggedAccount
  dsimp only
  split
  · rename_i none
    rw [none]
    rfl
  · rfl

end Tagged

/-- While a call runs the consumer only makes room.  What the whole call keeps
of its first memory is left to its instances. -/
structure QuietSide (geometry : Geometry) (rely kept : Ring F S W → Ring F S W → Prop) :
    Prop where
  order : Program.Preordered rely
  keeps : Program.Preordered kept
  moves : ∀ {before after}, rely before after → ConsumerMoves geometry True before after
  serial_eq : ∀ {before after}, rely before after → after.resetSerial = before.resetSerial
  still : ∀ {before after}, rely before after → kept before after
  access : ∀ {op ring}, ProducerPermits geometry op ring → op.KeepsFinish →
    kept ring (effect geometry op ring)
  passed_le : ∀ {before after}, kept before after → before.pcm.Sound geometry.capacity →
    before.pcm.passed.length ≤ after.pcm.passed.length
  idle : ∀ {before after}, kept before after → ¬FinishPending before.finish →
    ¬FinishPending after.finish

/-- From `ring`, the call has come to `now` with this account. -/
structure Stands (geometry : Geometry) (kept : Ring F S W → Ring F S W → Prop)
    (ring : Ring F S W) (account : ProducerAccount F) (now : Ring F S W) : Prop where
  pcm : now.pcm.Sound geometry.capacity
  mutes : now.mutes.Sound mailboxQueue
  kept : kept ring now
  account_eq : now.account = account

/-- How a publication is rejected, and what the account becomes. -/
inductive Stops (geometry : Geometry) (account : ProducerAccount F) (moment : Ring F S W) :
    ProducerAccount F → Prop where
  | pending : FinishPending moment.finish → Stops geometry account moment account
  | full : ¬FinishPending moment.finish →
      geometry.capacity ≤ (moment.pcm.unread geometry.capacity).length →
      Stops geometry account moment (account.discard 1)
  | exhausted : ¬FinishPending moment.finish →
      (moment.pcm.unread geometry.capacity).length < geometry.capacity →
      ¬Within account.stamp 1 → Stops geometry account moment account

/-- Publish a block unless a boundary is pending. -/
def publishBlock (geometry : Geometry) (samples : List (SourceSample F)) :
    RingProgram F S W Nat := do
  let pending ← finishPending .gate
  if pending then return 0 else publishFrom geometry samples 0

theorem producerPush_eq [Binary32 F] (geometry : Geometry) (input : List F) :
    (producerPush geometry input : RingProgram F S W Nat) =
      publishBlock geometry (input.map pcmSlot) := by
  unfold producerPush publishBlock
  rw [producerPushFrom_eq]
  rfl

theorem producerGap_eq [Zero F] (geometry : Geometry) (samples : Nat) :
    (producerGap geometry samples : RingProgram F S W Nat) =
      publishBlock geometry (List.replicate samples gapSlot) := by
  unfold producerGap publishBlock
  rw [producerGapFrom_eq]

/-- Publish slot by slot until one is rejected. -/
def publishEach (geometry : Geometry) : List (SourceSample F) → (accepted : Nat) →
    RingProgram F S W Nat
  | [], accepted => return accepted
  | sample :: rest, accepted => do
      let published ← producerPublish geometry sample
      if published then publishEach geometry rest (accepted + 1) else return accepted

/-- A block counts the slots behind its first rejected one. -/
theorem publishFrom_each (geometry : Geometry) (samples : List (SourceSample F))
    (accepted : Nat) :
    (publishFrom geometry samples accepted : RingProgram F S W Nat) =
      publishEach geometry samples accepted >>= fun total =>
        if total < accepted + samples.length then
          saturatingAddCounter .discarded (accepted + samples.length - total - 1) >>=
            fun _ => pure total
        else pure total := by
  induction samples generalizing accepted with
  | nil => simp [publishFrom, publishEach]
  | cons sample rest ih =>
      unfold publishFrom publishEach
      rw [bind_assoc]
      congr 1
      funext published
      cases published with
      | true =>
          simp only [if_true, ih, List.length_cons]
          rw [Nat.add_assoc accepted 1, Nat.add_comm 1]
      | false =>
          have tail : accepted + (sample :: rest).length - accepted - 1 = rest.length := by
            simp
          have short : accepted < accepted + (sample :: rest).length := by simp
          simp only [Bool.false_eq_true, if_false, pure_bind, if_pos short, tail]

namespace QuietSide

variable {geometry : Geometry} {rely kept : Ring F S W → Ring F S W → Prop}
  (side : QuietSide geometry rely kept) {ring now later : Ring F S W}
  {account : ProducerAccount F}

include side

theorem account_eq (moves : rely now later) : later.account = now.account := by
  have moved := side.moves moves
  simp only [Ring.account, moved.published_eq, moved.records_published_eq, moved.stamp_eq,
    moved.epoch_eq, moved.discarded_eq, side.serial_eq moves]

theorem stable (stands : Stands geometry kept ring account now) (moves : rely now later) :
    Stands geometry kept ring account later where
  pcm := ((side.moves moves).pcm stands.pcm).1
  mutes := ((side.moves moves).mutes stands.mutes).1
  kept := side.keeps.trans stands.kept (side.still moves)
  account_eq := (side.account_eq moves).trans stands.account_eq

/-- An access of the producer that leaves both queues alone. -/
theorem step (stands : Stands geometry kept ring account now) (op : Access F S W)
    (permitted : ProducerPermits geometry op now) (keeps : op.KeepsFinish)
    (pcmEq : (effect geometry op now).pcm = now.pcm)
    (mutesEq : (effect geometry op now).mutes = now.mutes) :
    Stands geometry kept ring (effect geometry op now).account
      (effect geometry op now) where
  pcm := pcmEq ▸ stands.pcm
  mutes := mutesEq ▸ stands.mutes
  kept := side.keeps.trans stands.kept (side.access permitted keeps)
  account_eq := rfl

variable {post : β → Ring F S W → Prop}

theorem safe_discard (count : Nat) (stands : Stands geometry kept ring account now)
    {next : Nat → RingProgram F S W β}
    (safe : ∀ total later, Stands geometry kept ring (account.discard count) later →
      (next total).Safe (exec geometry) rely (fun _ _ => True) post later) :
    (saturatingAddCounter .discarded count >>= next).Safe (exec geometry) rely
      (fun _ _ => True) post now := by
  unfold saturatingAddCounter
  simp only [bind_assoc]
  refine safe_answer (.loadCounter .discarded) trivial fun first firstMoves => ⟨trivial, ?_⟩
  refine safe_access.mpr fun second secondMoves => ⟨trivial, ?_⟩
  have firstStands := side.stable stands firstMoves
  have secondStands := side.stable firstStands secondMoves
  have loaded : answer geometry (.loadCounter .discarded) first = second.counters .discarded :=
    congrArg ProducerAccount.discarded (side.account_eq secondMoves).symm
  rw [loaded]
  refine safe _ _ { side.step secondStands (.storeCounter .discarded
    (min (second.counters .discarded + count) (2 ^ 64 - 1))) rfl trivial rfl rfl with account_eq := ?_ }
  rw [← secondStands.account_eq]
  simp only [Ring.account, effect, ProducerAccount.discard, Function.update_self]
  rfl

theorem synced (moves : rely now later) (current : now.producerEpoch = now.resetSerial) :
    later.producerEpoch = later.resetSerial := by
  rw [(side.moves moves).epoch_eq, side.serial_eq moves, current]

/-- The account already counts a stale stamp as forgotten. -/
theorem safe_sync (stands : Stands geometry kept ring account now)
    {next : Unit → RingProgram F S W β}
    (safe : ∀ later, Stands geometry kept ring account later →
      later.producerEpoch = later.resetSerial →
      (next ()).Safe (exec geometry) rely (fun _ _ => True) post later) :
    (syncProducerEpoch >>= next).Safe (exec geometry) rely (fun _ _ => True) post now := by
  unfold syncProducerEpoch
  simp only [bind_assoc]
  refine safe_answer .loadResetSerial trivial fun first firstMoves => ⟨trivial, ?_⟩
  refine safe_answer .loadEpoch trivial fun second secondMoves => ⟨trivial, ?_⟩
  have secondStands := side.stable (side.stable stands firstMoves) secondMoves
  have loaded : answer geometry .loadResetSerial first = second.resetSerial :=
    (side.serial_eq secondMoves).symm
  rw [loaded]
  change Program.Safe (exec geometry) rely _ post
    ((if second.producerEpoch ≠ second.resetSerial then _ else _) >>= next) second
  split
  · rename_i stale
    rw [bind_assoc]
    refine safe_access.mpr fun third thirdMoves => ⟨trivial, ?_⟩
    refine safe_access.mpr fun fourth fourthMoves => ⟨trivial, ?_⟩
    have thirdStands := side.stable secondStands thirdMoves
    have forgotten : account.stamp = none := by
      rw [← secondStands.account_eq]
      exact if_neg stale
    have third' : Stands geometry kept ring account (effect geometry (.setStamp none) third) := by
      refine { side.step thirdStands (.setStamp none) trivial trivial rfl rfl with
        account_eq := ?_ }
      rw [← thirdStands.account_eq] at forgotten ⊢
      simp only [Ring.account, effect] at forgotten ⊢
      rw [forgotten]
      exact congrArg (fun stamp => ProducerAccount.mk _ _ stamp _) (ite_self _)
    have fourthStands := side.stable third' fourthMoves
    have thirdSerial := side.serial_eq thirdMoves
    have serialEq : second.resetSerial = fourth.resetSerial :=
      ((side.serial_eq fourthMoves).trans thirdSerial).symm
    have stampEq : fourth.producerStamp = none := (side.moves fourthMoves).stamp_eq
    refine safe _ { side.step fourthStands (.storeEpoch second.resetSerial) trivial trivial rfl rfl
      with account_eq := ?_ } serialEq
    rw [← fourthStands.account_eq] at forgotten ⊢
    simp only [Ring.account, effect, stampEq, ite_self]
  · rename_i current
    exact safe second secondStands (not_not.mp current)

theorem safe_gate (site : FinishSite) (stands : Stands geometry kept ring account now)
    {next : Bool → RingProgram F S W β}
    (pending : ∀ later, Stands geometry kept ring account later → FinishPending later.finish →
      (next true).Safe (exec geometry) rely (fun _ _ => True) post later)
    (opened : ∀ later, Stands geometry kept ring account later → ¬FinishPending later.finish →
      (now.producerEpoch = now.resetSerial → later.producerEpoch = later.resetSerial) →
      (next false).Safe (exec geometry) rely (fun _ _ => True) post later) :
    (finishPending site >>= next).Safe (exec geometry) rely (fun _ _ => True) post now := by
  unfold finishPending
  simp only [bind_assoc]
  refine safe_access.mpr fun first firstMoves => ⟨trivial, ?_⟩
  have firstStands := side.stable stands firstMoves
  have gated : Stands geometry kept ring account (effect geometry (.loadFinish site) first) :=
    { side.step firstStands (.loadFinish site) trivial trivial rfl rfl with
      account_eq := firstStands.account_eq }
  change Program.Safe (exec geometry) rely _ post
    (next (decide (FinishPending first.finish))) (effect geometry (.loadFinish site) first)
  by_cases found : FinishPending first.finish
  · rw [decide_eq_true found]
    exact pending _ gated found
  · have synced := side.synced firstMoves
    rw [decide_eq_false found]
    exact opened _ gated found synced

/-- Writing a slot under the write cursor and publishing it. -/
theorem safe_storeSlot {slot : SourceSample F} (stands : Stands geometry kept ring account now)
    (idle : ¬FinishPending now.finish)
    (room : distance geometry.capacity now.pcm.queue.written now.pcm.queue.read <
      geometry.capacity) {next : Bool → RingProgram F S W β}
    (safe : ∀ later, Stands geometry kept ring
        { account with published := account.published ++ [slot] } later →
      (next true).Safe (exec geometry) rely (fun _ _ => True) post later) :
    (storeSlot geometry now.pcm.queue.written slot >>= next).Safe (exec geometry) rely
      (fun _ _ => True) post now := by
  unfold storeSlot
  simp only [bind_assoc]
  refine safe_access.mpr fun first firstMoves => ⟨trivial, ?_⟩
  have firstStands := side.stable stands firstMoves
  have firstReads := ((side.moves firstMoves).pcm stands.pcm).2
  have firstRoom := firstReads.distance_le
  have firstIdle := side.idle (side.still firstMoves) idle
  rw [← firstReads.written_eq]
  have cellPermitted : first.pcm.WriterPermits geometry.capacity
      (.storeCell (first.pcm.queue.written % geometry.capacity) slot) :=
    ⟨0, by rw [Nat.add_zero], by rw [firstReads.written_eq] at firstRoom ⊢; omega⟩
  have stored : Stands geometry kept ring account (effect geometry (.pcm (.storeCell
      (first.pcm.queue.written % geometry.capacity) slot)) first) :=
    ⟨Channel.sound_writer firstStands.pcm cellPermitted, firstStands.mutes,
      side.keeps.trans firstStands.kept (side.access ⟨cellPermitted, .inr firstIdle⟩ trivial),
      firstStands.account_eq⟩
  refine safe_access.mpr fun second secondMoves => ⟨trivial, ?_⟩
  have secondStands := side.stable stored secondMoves
  have secondReads := ((side.moves secondMoves).pcm stored.pcm).2
  have secondRoom := secondReads.distance_le
  have secondIdle : ¬FinishPending second.finish := side.idle (side.still secondMoves) firstIdle
  have writtenEq : second.pcm.queue.written = first.pcm.queue.written := secondReads.written_eq
  have cellEq : second.pcm.queue.cells (second.pcm.queue.written % geometry.capacity) = slot := by
    rw [secondReads.cells_eq, writtenEq]
    exact Function.update_self _ _ _
  have permitted : second.pcm.WriterPermits geometry.capacity
      (.storeWritten ((second.pcm.queue.written + 1) % (geometry.capacity * 2))) := by
    refine ⟨1, rfl, ?_⟩
    change distance _ second.pcm.queue.written second.pcm.queue.read ≤
      distance _ first.pcm.queue.written first.pcm.queue.read at secondRoom
    rw [firstReads.written_eq] at firstRoom secondRoom
    omega
  rw [← writtenEq]
  refine safe _ ⟨Channel.sound_writer secondStands.pcm permitted, secondStands.mutes,
    side.keeps.trans secondStands.kept (side.access ⟨permitted, .inr secondIdle⟩ trivial), ?_⟩
  have publishedEq := exec_storeWritten_one secondStands.pcm
  rw [cellEq] at publishedEq
  rw [← secondStands.account_eq]
  simp only [Ring.account, effect, publishedEq]
  rfl

/-- A later moment of the call is a first memory of its own. -/
theorem restart (stands : Stands geometry kept ring account now) :
    Stands geometry kept now account now :=
  { stands with kept := side.keeps.refl now }

theorem safe_publish {sample : SourceSample F} (unstamped : sample.stamp = none)
    (stands : Stands geometry kept ring account now) {next : Bool → RingProgram F S W β}
    (stopped : ∀ moment after later, Stands geometry kept ring account moment →
      Stops geometry account moment after → kept moment later →
      Stands geometry kept ring after later →
      (next false).Safe (exec geometry) rely (fun _ _ => True) post later)
    (accepted : ∀ later, Within account.stamp 1 →
      Stands geometry kept ring (account.accept [sample]) later →
      (next true).Safe (exec geometry) rely (fun _ _ => True) post later) :
    (producerPublish geometry sample >>= next).Safe (exec geometry) rely
      (fun _ _ => True) post now := by
  unfold producerPublish
  simp only [bind_assoc]
  refine side.safe_sync stands fun first firstStands firstSynced => ?_
  refine side.safe_gate .publishGate firstStands
    (fun second secondStands found =>
      stopped second _ second secondStands (.pending found) (side.keeps.refl _) secondStands)
    fun second secondStands secondIdle secondSynced => ?_
  rw [if_neg (by simp)]
  simp only [bind_assoc]
  refine safe_answer (.pcm .loadWritten) trivial fun third thirdMoves => ⟨trivial, ?_⟩
  refine safe_answer (.pcm .loadRead) trivial fun fourth fourthMoves => ⟨trivial, ?_⟩
  have thirdStands := side.stable secondStands thirdMoves
  have fourthStands := side.stable thirdStands fourthMoves
  have fourthIdle := side.idle (side.still fourthMoves) (side.idle (side.still thirdMoves) secondIdle)
  have writtenEq := ((side.moves fourthMoves).pcm thirdStands.pcm).2.written_eq
  have loaded : answer geometry (.pcm .loadWritten) third = fourth.pcm.queue.written :=
    writtenEq.symm
  rw [loaded]
  change Program.Safe (exec geometry) rely _ post
    ((if geometry.capacity ≤ distance geometry.capacity fourth.pcm.queue.written
      fourth.pcm.queue.read then _ else _) >>= next) fourth
  rw [← Channel.unread_length]
  split
  · rename_i crowded
    rw [bind_assoc]
    refine side.safe_discard 1 (side.restart fourthStands) fun _ last lastStands => ?_
    exact stopped fourth _ last fourthStands (.full fourthIdle crowded) lastStands.kept
      { lastStands with kept := side.keeps.trans fourthStands.kept lastStands.kept }
  · rename_i room
    rw [bind_assoc]
    refine safe_answer .loadStamp trivial fun fifth fifthMoves => ⟨trivial, ?_⟩
    have fifthStands := side.stable fourthStands fifthMoves
    have fifthIdle := side.idle (side.still fifthMoves) fourthIdle
    have fifthReads := ((side.moves fifthMoves).pcm fourthStands.pcm).2
    have fifthRoom : (fifth.pcm.unread geometry.capacity).length < geometry.capacity := by
      rw [Channel.unread_length] at room ⊢
      exact Nat.lt_of_le_of_lt fifthReads.distance_le (Nat.not_le.mp room)
    have stampLoaded : answer geometry .loadStamp fifth = account.stamp := by
      rw [← fifthStands.account_eq]
      exact (if_pos (side.synced fifthMoves (side.synced fourthMoves
        (side.synced thirdMoves (secondSynced firstSynced))))).symm
    rw [stampLoaded, ← fifthReads.written_eq]
    cases stampEq : account.stamp with
    | none =>
        refine side.safe_storeSlot (side.restart fifthStands) fifthIdle
          (Channel.unread_length ▸ fifthRoom) fun last lastStands => ?_
        refine accepted last (.inr fun _ member => by rw [stampEq] at member; cases member) ?_
        refine { lastStands with
          kept := side.keeps.trans fifthStands.kept lastStands.kept, account_eq := ?_ }
        have same : ({ sample with stamp := none } : SourceSample F) = sample := by
          rw [← unstamped]
        rw [lastStands.account_eq, ProducerAccount.accept_singleton, stampEq, same]
        rfl
    | some current =>
        -- Keep the bound from being unfolded.
        have within : current.source + 1 < 2 ^ 64 → Within account.stamp 1 := fun lt =>
          .inr fun stamp member => by
            rw [stampEq] at member
            exact Option.mem_some.mp member ▸ lt
        have beyond : 2 ^ 64 ≤ current.source + 1 → ¬Within account.stamp 1 := fun le holds =>
          Nat.not_lt.mpr le (holds.resolve_left (by decide) current (by rw [stampEq]; rfl))
        dsimp only
        revert within beyond
        generalize 2 ^ 64 = bound
        intro within beyond
        split
        · rename_i le
          exact stopped fifth _ fifth fifthStands (.exhausted fifthIdle fifthRoom (beyond le))
            (side.keeps.refl _) fifthStands
        · rename_i lt
          rw [bind_assoc]
          refine safe_access.mpr fun sixth sixthMoves => ⟨trivial, ?_⟩
          have sixthStands := side.stable (side.restart fifthStands) sixthMoves
          have sixthReads := ((side.moves sixthMoves).pcm fifthStands.pcm).2
          have sixthSynced := side.synced sixthMoves (side.synced fifthMoves (side.synced
            fourthMoves (side.synced thirdMoves (secondSynced firstSynced))))
          have advanced : Stands geometry kept fifth
              { account with stamp := account.stamp.map (Stamp.advance 1) }
              (effect geometry
                (.advanceStamp { current with source := current.source + 1 }) sixth) := by
            refine { side.step sixthStands (.advanceStamp
              { current with source := current.source + 1 }) trivial trivial rfl rfl with
                account_eq := ?_ }
            rw [← sixthStands.account_eq] at stampEq ⊢
            simp only [Ring.account, effect, sixthSynced, if_true] at stampEq ⊢
            rw [stampEq]
            rfl
          rw [← sixthReads.written_eq]
          have sixthIdle := side.idle (side.still sixthMoves) fifthIdle
          refine side.safe_storeSlot advanced sixthIdle
            (Nat.lt_of_le_of_lt sixthReads.distance_le (Channel.unread_length ▸ fifthRoom))
            fun last lastStands => ?_
          refine accepted last (within (Nat.not_le.mp lt)) ?_
          refine { lastStands with
            kept := side.keeps.trans fifthStands.kept lastStands.kept, account_eq := ?_ }
          rw [lastStands.account_eq, ProducerAccount.accept_singleton, stampEq]

theorem safe_publishEach (samples : List (SourceSample F)) (accepted : Nat)
    (unstamped : ∀ sample ∈ samples, sample.stamp = none)
    (stands : Stands geometry kept ring account now) {next : Nat → RingProgram F S W β}
    (stopped : ∀ count moment after later, count < samples.length →
      Within account.stamp count →
      Stands geometry kept ring (account.accept (samples.take count)) moment →
      Stops geometry (account.accept (samples.take count)) moment after → kept moment later →
      Stands geometry kept ring after later →
      (next (accepted + count)).Safe (exec geometry) rely (fun _ _ => True) post later)
    (all : ∀ later, Within account.stamp samples.length →
      Stands geometry kept ring (account.accept samples) later →
      (next (accepted + samples.length)).Safe (exec geometry) rely (fun _ _ => True) post
        later) :
    (publishEach geometry samples accepted >>= next).Safe (exec geometry) rely
      (fun _ _ => True) post now := by
  induction samples generalizing accepted account now with
  | nil => exact all now (.inl rfl) (account.accept_nil.symm ▸ stands)
  | cons sample rest ih =>
      unfold publishEach
      rw [bind_assoc]
      refine side.safe_publish (unstamped sample (by simp)) stands ?_ ?_
      · intro moment after later momentStands stops kept laterStands
        rw [if_neg (by simp)]
        refine stopped 0 moment after later (by simp) (.inl rfl) ?_ ?_ kept laterStands <;>
          rw [List.take_zero, ProducerAccount.accept_nil]
        · exact momentStands
        · exact stops
      · intro later one laterStands
        rw [if_pos rfl]
        have within {count : Nat} (rest : Within (account.accept [sample]).stamp count) :
            Within account.stamp (count + 1) := by
          refine .inr fun stamp member => ?_
          rcases rest with rfl | bounded
          · exact one.resolve_left (by decide) stamp member
          · have := bounded (stamp.advance 1) (Option.mem_map_of_mem _ member)
            simp only [Stamp.advance] at this
            omega
        have join (samples : List (SourceSample F)) :
            (account.accept [sample]).accept samples = account.accept (sample :: samples) :=
          ProducerAccount.accept_append [sample] samples account
        refine ih (accepted + 1) (fun other member => unstamped other (by simp [member]))
          laterStands ?_ ?_
        · intro count moment after last countLt bounded momentStands stops kept lastStands
          rw [Nat.add_assoc, Nat.add_comm 1]
          rw [join] at momentStands stops
          exact stopped (count + 1) moment after last (Nat.succ_lt_succ countLt)
            (within bounded) momentStands stops kept lastStands
        · intro last bounded lastStands
          rw [Nat.add_assoc, Nat.add_comm 1]
          rw [join] at lastStands
          exact all last (within bounded) lastStands

theorem safe_publishFrom (samples : List (SourceSample F))
    (unstamped : ∀ sample ∈ samples, sample.stamp = none)
    (stands : Stands geometry kept ring account now) {next : Nat → RingProgram F S W β}
    (stopped : ∀ count moment after later, count < samples.length →
      Within account.stamp count →
      Stands geometry kept ring (account.accept (samples.take count)) moment →
      Stops geometry (account.accept (samples.take count)) moment after → kept moment later →
      Stands geometry kept ring (after.discard (samples.length - count - 1)) later →
      (next count).Safe (exec geometry) rely (fun _ _ => True) post later)
    (all : ∀ later, Within account.stamp samples.length →
      Stands geometry kept ring (account.accept samples) later →
      (next samples.length).Safe (exec geometry) rely (fun _ _ => True) post later) :
    (publishFrom geometry samples 0 >>= next).Safe (exec geometry) rely
      (fun _ _ => True) post now := by
  rw [publishFrom_each, bind_assoc]
  refine side.safe_publishEach samples 0 unstamped stands ?_ ?_ <;> simp only [Nat.zero_add]
  · intro count moment after later countLt bounded momentStands stops kept laterStands
    rw [if_pos countLt, bind_assoc]
    refine side.safe_discard _ (side.restart laterStands) fun _ last lastStands => ?_
    exact stopped count moment after last countLt bounded momentStands stops
      (side.keeps.trans kept lastStands.kept)
      { lastStands with kept := side.keeps.trans laterStands.kept lastStands.kept }
  · intro later bounded laterStands
    rw [if_neg (Nat.lt_irrefl _)]
    exact all later bounded laterStands

theorem safe_publishBlock (samples : List (SourceSample F))
    (unstamped : ∀ sample ∈ samples, sample.stamp = none)
    (stands : Stands geometry kept ring account now) {next : Nat → RingProgram F S W β}
    (pending : ∀ later, Stands geometry kept ring account later → FinishPending later.finish →
      (next 0).Safe (exec geometry) rely (fun _ _ => True) post later)
    (stopped : ∀ count moment after later, count < samples.length →
      Within account.stamp count →
      Stands geometry kept ring (account.accept (samples.take count)) moment →
      Stops geometry (account.accept (samples.take count)) moment after → kept moment later →
      Stands geometry kept ring (after.discard (samples.length - count - 1)) later →
      (next count).Safe (exec geometry) rely (fun _ _ => True) post later)
    (all : ∀ moment later, kept ring moment → ¬FinishPending moment.finish →
      Within account.stamp samples.length →
      Stands geometry kept ring (account.accept samples) later →
      (next samples.length).Safe (exec geometry) rely (fun _ _ => True) post later) :
    (publishBlock geometry samples >>= next).Safe (exec geometry) rely
      (fun _ _ => True) post now := by
  unfold publishBlock
  rw [bind_assoc]
  refine side.safe_gate .gate stands (fun later laterStands found => ?_)
    fun later laterStands idle _ => ?_
  · exact pending later laterStands found
  · rw [if_neg (by simp)]
    refine side.safe_publishFrom samples unstamped laterStands stopped ?_
    exact fun last => all later last laterStands.kept idle

theorem muteWriter : (mutePort (F := F) (S := S) (W := W)).WriterSide mailboxQueue Ring.mutes
    rely (fun _ _ => True) where
  order := side.order
  reads moves := (side.moves moves).mutes
  permits _ _ _ := trivial

theorem safe_mailboxFree (stands : Stands geometry kept ring account now)
    {next : Nat → RingProgram F S W β}
    (safe : ∀ later, rely now later →
      (next (mailboxQueue - (later.mutes.unread mailboxQueue).length)).Safe (exec geometry) rely
        (fun _ _ => True) post later) :
    (mailboxFree mutePort >>= next).Safe (exec geometry) rely (fun _ _ => True) post now := by
  unfold mailboxFree
  rw [bind_assoc]
  exact Port.safe_occupied_writer (mute_lawful geometry) side.muteWriter.filler stands.mutes safe

theorem safe_available (stands : Stands geometry kept ring account now)
    {next : Nat → RingProgram F S W β}
    (safe : ∀ later, rely now later →
      (next (later.pcm.unread geometry.capacity).length).Safe (exec geometry) rely
        (fun _ _ => True) post later) :
    (available geometry >>= next).Safe (exec geometry) rely (fun _ _ => True) post now := by
  unfold available
  rw [bind_assoc]
  have pcmWriter : (pcmPort (F := F) (S := S) (W := W)).WriterSide geometry.capacity Ring.pcm
      rely (fun _ _ => True) := ⟨side.order, fun moves => (side.moves moves).pcm,
        fun _ _ _ => trivial⟩
  refine Port.safe_occupied_writer (pcm_lawful geometry) pcmWriter.filler stands.pcm
    fun later moves => ?_
  have bounded := (side.stable stands moves).pcm.valid.distance_le
  rw [← Channel.unread_length] at bounded
  change Program.Safe (exec geometry) rely _ post (next (min _ geometry.capacity)) later
  rw [Nat.min_eq_left bounded]
  exact safe later moves

theorem safe_mailboxPublish {generation stop : Nat} {spans : List Span}
    (stands : Stands geometry kept ring account now)
    (room : (now.mutes.unread mailboxQueue).length + spans.length ≤ mailboxQueue)
    {next : Unit → RingProgram F S W β}
    (safe : ∀ later, Stands geometry kept ring
        { account with records := account.records ++ clippedIntervals generation spans stop }
        later →
      (now.producerEpoch = now.resetSerial → later.producerEpoch = later.resetSerial) →
      (next ()).Safe (exec geometry) rely (fun _ _ => True) post later) :
    (mailboxPublish mutePort generation spans stop >>= next).Safe (exec geometry) rely
      (fun _ _ => True) post now := by
  unfold mailboxPublish
  have clippedLe : (clippedIntervals generation spans stop).length ≤ spans.length :=
    List.length_filterMap_le _ _
  generalize clippedIntervals generation spans stop = intervals at clippedLe safe ⊢
  rw [Channel.unread_length] at room
  refine Port.safe_append (mute_lawful geometry) side.muteWriter
    (fun current => Stands geometry kept ring account current ∧
      (now.producerEpoch = now.resetSerial → current.producerEpoch = current.resetSerial))
    (fun moves stands => ⟨side.stable stands.1 moves,
      fun synced => side.synced moves (stands.2 synced)⟩) ?_
    (fun _ stands => stands.1.mutes) intervals ⟨stands, id⟩ (by omega) ?_
  · rintro memory index value ⟨memoryStands, synced⟩ permitted
    have stored : kept memory (effect geometry (.mutes (.storeCell index value)) memory) :=
      side.access permitted trivial
    exact ⟨⟨memoryStands.pcm, Channel.sound_writer memoryStands.mutes permitted,
      side.keeps.trans memoryStands.kept stored, memoryStands.account_eq⟩, synced⟩
  · rintro current ⟨currentStands, synced⟩ _ currentRoom segmentEq
    have positive : intervals.length < mailboxQueue * 2 := by
      have : 0 < mailboxQueue := by decide
      omega
    have countEq : distance mailboxQueue ((current.mutes.queue.written + intervals.length) %
        (mailboxQueue * 2)) current.mutes.queue.written = intervals.length :=
      distance_advance currentStands.mutes.valid.written_lt positive
    have permitted : current.mutes.WriterPermits mailboxQueue (.storeWritten
        ((current.mutes.queue.written + intervals.length) % (mailboxQueue * 2))) :=
      ⟨intervals.length, rfl, currentRoom⟩
    have stored : kept current (effect geometry (.mutes (.storeWritten
        ((current.mutes.queue.written + intervals.length) % (mailboxQueue * 2)))) current) :=
      side.access permitted trivial
    refine safe _ ⟨currentStands.pcm, Channel.sound_writer currentStands.mutes permitted,
      side.keeps.trans currentStands.kept stored, ?_⟩ synced
    rw [← currentStands.account_eq]
    change (effect geometry (.mutes (.storeWritten ((current.mutes.queue.written +
      intervals.length) % (mailboxQueue * 2)))) current).account = _
    simp only [Ring.account, effect, Channel.exec, countEq, segmentEq]

/-- Only what the producer published since can fill the FIFO further. -/
theorem unread_le (stands : Stands geometry kept ring account now)
    (sound : ring.pcm.Sound geometry.capacity) (count : Nat)
    (grown : account.published.length = ring.pcm.published.length + count) :
    (now.pcm.unread geometry.capacity).length ≤
      (ring.pcm.unread geometry.capacity).length + count := by
  have passedLe := side.passed_le stands.kept sound
  have before := sound.published_length
  have after := stands.pcm.published_length
  rw [show now.pcm.published = account.published from
    congrArg ProducerAccount.published stands.account_eq, grown] at after
  rw [Channel.unread_length, Channel.unread_length]
  omega

/-- While the producer has room, no boundary is pending and the positions are
representable, a block goes in whole. -/
theorem safe_publishWhole (samples : List (SourceSample F))
    (unstamped : ∀ sample ∈ samples, sample.stamp = none)
    (stands : Stands geometry kept ring account now) (idle : ¬FinishPending now.finish)
    (room : (now.pcm.unread geometry.capacity).length + samples.length ≤ geometry.capacity)
    (within : Within account.stamp samples.length) {next : Nat → RingProgram F S W β}
    (safe : ∀ later, Stands geometry kept ring (account.accept samples) later →
      (next samples.length).Safe (exec geometry) rely (fun _ _ => True) post later) :
    (publishBlock geometry samples >>= next).Safe (exec geometry) rely
      (fun _ _ => True) post now := by
  have join {account' : ProducerAccount F} {later : Ring F S W}
      (laterStands : Stands geometry kept now account' later) :
      Stands geometry kept ring account' later :=
    { laterStands with kept := side.keeps.trans stands.kept laterStands.kept }
  refine side.safe_publishBlock samples unstamped (side.restart stands) ?_ ?_ ?_
  · exact fun later laterStands pending => (side.idle laterStands.kept idle pending).elim
  · intro count moment after later countLt _ momentStands stops _ _
    exfalso
    cases stops with
    | pending pending => exact side.idle momentStands.kept idle pending
    | full _ full =>
        have bounded := side.unread_le momentStands stands.pcm count (by
          rw [← stands.account_eq]
          simp [ProducerAccount.accept, Ring.account, Nat.min_eq_left (Nat.le_of_lt countLt)])
        omega
    | exhausted _ _ beyond =>
        refine beyond (.inr fun stamp member => ?_)
        obtain ⟨first, firstEq, rfl⟩ := Option.mem_map.mp member
        have := within.resolve_left (Nat.ne_of_gt (Nat.zero_lt_of_lt countLt)) first firstEq
        simp only [Stamp.advance, List.length_take]
        omega
  · exact fun _ later _ _ _ laterStands => safe later (join laterStands)

/-- A tagged block: refused as a whole, or credited with what fits. -/
theorem safe_producerPushTagged [Binary32 F] (input : List F)
    (generation sourceStart : Nat) (spans : List Span)
    (stands : Stands geometry kept ring account now)
    {next : Option Nat → RingProgram F S W β}
    (pending : ∀ later, Stands geometry kept ring account later → FinishPending later.finish →
      (next (some 0)).Safe (exec geometry) rely (fun _ _ => True) post later)
    (invalid : ∀ later, Stands geometry kept ring account later →
      ¬FinishPending later.finish →
      (TaggedInvalid geometry input sourceStart spans ∨
        Discontinuous account.stamp generation sourceStart) →
      (next none).Safe (exec geometry) rely (fun _ _ => True) post later)
    (crowded : ∀ later, Stands geometry kept ring account later →
      ¬FinishPending later.finish →
      ¬TaggedInvalid geometry input sourceStart spans →
      ¬Discontinuous account.stamp generation sourceStart →
      mailboxQueue - (later.mutes.unread mailboxQueue).length < spans.length →
      (next (some 0)).Safe (exec geometry) rely (fun _ _ => True) post later)
    (credited : ∀ moment later, Stands geometry kept ring account moment →
      ¬FinishPending moment.finish →
      ¬TaggedInvalid geometry input sourceStart spans →
      ¬Discontinuous account.stamp generation sourceStart →
      spans.length ≤ mailboxQueue - (moment.mutes.unread mailboxQueue).length → kept moment later →
      Stands geometry kept ring (taggedAccount generation sourceStart spans input
        (geometry.capacity - (moment.pcm.unread geometry.capacity).length) account) later →
      (next (some (min input.length
        (geometry.capacity - (moment.pcm.unread geometry.capacity).length)))).Safe
          (exec geometry) rely (fun _ _ => True) post later) :
    (producerPushTagged geometry input generation sourceStart spans >>= next).Safe
      (exec geometry) rely (fun _ _ => True) post now := by
  unfold producerPushTagged
  simp only [bind_assoc]
  refine side.safe_sync stands fun first firstStands firstSynced => ?_
  refine side.safe_gate .publishGate firstStands
    (fun second secondStands found => pending second secondStands found)
    fun second secondStands secondIdle secondSynced => ?_
  rw [if_neg (by simp)]
  split
  · rename_i refused
    exact invalid second secondStands secondIdle (.inl refused)
  · rename_i valid
    rw [bind_assoc]
    refine safe_answer .loadStamp trivial fun third thirdMoves => ⟨trivial, ?_⟩
    have thirdStands := side.stable secondStands thirdMoves
    have thirdIdle := side.idle (side.still thirdMoves) secondIdle
    have stampLoaded : answer geometry .loadStamp third = account.stamp := by
      rw [← thirdStands.account_eq]
      exact (if_pos (side.synced thirdMoves (secondSynced firstSynced))).symm
    rw [stampLoaded]
    split
    · rename_i refused
      exact invalid third thirdStands thirdIdle (.inr refused)
    · rename_i continues
      rw [bind_assoc]
      refine side.safe_mailboxFree thirdStands fun fourth fourthMoves => ?_
      have fourthStands := side.stable thirdStands fourthMoves
      have fourthIdle := side.idle (side.still fourthMoves) thirdIdle
      split
      · rename_i short
        exact crowded fourth fourthStands fourthIdle valid continues short
      · rename_i roomy
        rw [bind_assoc]
        refine side.safe_available fourthStands fun fifth fifthMoves => ?_
        have fifthStands := side.stable fourthStands fifthMoves
        have fifthIdle := side.idle (side.still fifthMoves) fourthIdle
        have fifthRoomy : spans.length ≤
            mailboxQueue - (fifth.mutes.unread mailboxQueue).length := by
          have reads := ((side.moves fifthMoves).mutes fourthStands.mutes).2.distance_le
          rw [← Channel.unread_length, ← Channel.unread_length] at reads
          omega
        have done (later : Ring F S W) (laterStands : Stands geometry kept fifth
            (taggedAccount generation sourceStart spans input
              (geometry.capacity - (fifth.pcm.unread geometry.capacity).length) account) later) :=
          credited fifth later fifthStands fifthIdle valid continues fifthRoomy laterStands.kept
            { laterStands with kept := side.keeps.trans fifthStands.kept laterStands.kept }
        unfold taggedAccount at done
        have fits : min input.length
            (geometry.capacity - (fifth.pcm.unread geometry.capacity).length) ≤ input.length ∧
            (fifth.pcm.unread geometry.capacity).length + min input.length
              (geometry.capacity - (fifth.pcm.unread geometry.capacity).length) ≤
                geometry.capacity := by
          have := fifthStands.pcm.valid.distance_le
          rw [Channel.unread_length]
          omega
        generalize min input.length
          (geometry.capacity - (fifth.pcm.unread geometry.capacity).length) = count at done fits ⊢
        dsimp only at done
        split
        · rename_i zero
          subst zero
          rw [bind_assoc]
          exact side.safe_discard _ (side.restart fifthStands) fun _ last lastStands =>
            done last lastStands
        · rename_i nonzero
          rw [if_neg nonzero] at done
          simp only [bind_assoc]
          have mailboxLe := fifthStands.mutes.valid.distance_le
          rw [← Channel.unread_length] at mailboxLe
          refine side.safe_mailboxPublish (side.restart fifthStands) (by omega)
            fun sixth sixthStands sixthSynced => ?_
          refine safe_access.mpr fun seventh seventhMoves => ⟨trivial, ?_⟩
          have seventhStands := side.stable sixthStands seventhMoves
          have seventhSynced := side.synced seventhMoves (sixthSynced (side.synced fifthMoves
            (side.synced fourthMoves (side.synced thirdMoves (secondSynced firstSynced)))))
          have tagged : Stands geometry kept fifth (account.tag
              (clippedIntervals generation spans (sourceStart + count))
                ⟨generation, sourceStart⟩)
              (effect geometry (.setStamp (some ⟨generation, sourceStart⟩)) seventh) := by
            refine { side.step seventhStands
              (.setStamp (some ⟨generation, sourceStart⟩)) trivial trivial rfl rfl with
                account_eq := ?_ }
            have recordsEq : seventh.mutes.published = account.records ++ _ :=
              congrArg ProducerAccount.records seventhStands.account_eq
            have publishedEq : seventh.pcm.published = account.published :=
              congrArg ProducerAccount.published seventhStands.account_eq
            have discardedEq : seventh.counters .discarded = account.discarded :=
              congrArg ProducerAccount.discarded seventhStands.account_eq
            simp only [Ring.account, effect, recordsEq, publishedEq, discardedEq, seventhSynced,
              if_true, ProducerAccount.tag]
          have representable : Within (some ⟨generation, sourceStart⟩) count := by
            refine .inr fun stamp member => ?_
            obtain rfl := Option.mem_some.mp member
            have := Nat.not_le.mp fun le => valid (.inl le)
            dsimp only
            omega
          have takeLength : ((input.take count).map pcmSlot).length = count := by
            rw [List.length_map, List.length_take, Nat.min_eq_left fits.1]
          have unread := side.unread_le tagged fifthStands.pcm 0 (by
            rw [← fifthStands.account_eq]
            rfl)
          rw [producerPush_eq]
          refine side.safe_publishWhole _ ?_ tagged (side.idle tagged.kept fifthIdle) ?_ ?_
            fun eighth eighthStands => ?_
          · intro sample member
            obtain ⟨original, -, rfl⟩ := List.mem_map.mp member
            rfl
          · rw [takeLength]
            omega
          · rw [takeLength]
            exact representable
          · rw [takeLength]
            refine side.safe_discard _ (side.restart eighthStands) fun _ last lastStands => ?_
            exact done last
              { lastStands with kept := side.keeps.trans eighthStands.kept lastStands.kept }

end QuietSide

end PcmRing
