import PcmRing.DrainedBoundary

/-!
# The finish-token protocol

The finish word is written by both threads: the producer requests a boundary,
the consumer settles it.  Each store is made from a word loaded before, so the
protocol rests on who may store when: the producer only while nothing is
pending, the consumer only for the pending token.
-/

namespace PcmRing

open AtomicProgram TwoLapQueue

/-- What can become of a finish word: its pending boundary is settled, or later
tokens replace it. -/
def FinishLater (before after : Nat) : Prop :=
  after = before ∨ (FinishPending before ∧ after / 4 = before / 4 ∧ after % 4 ≠ 0) ∨
    before / 4 < after / 4

namespace FinishLater

theorem refl (word : Nat) : FinishLater word word :=
  .inl rfl

theorem token_le {before after : Nat} (later : FinishLater before after) :
    before / 4 ≤ after / 4 := by
  rcases later with rfl | ⟨-, same, -⟩ | grown
  · exact Nat.le_refl _
  · exact Nat.le_of_eq same.symm
  · exact Nat.le_of_lt grown

theorem trans {first middle last : Nat} (before : FinishLater first middle)
    (after : FinishLater middle last) : FinishLater first last := by
  have reached := before.token_le
  rcases after with rfl | ⟨pending, same, settled⟩ | grown
  · exact before
  · rcases before with rfl | ⟨-, -, terminal⟩ | earlier
    · exact .inr (.inl ⟨pending, same, settled⟩)
    · exact (terminal pending.2).elim
    · exact .inr (.inr (same ▸ earlier))
  · exact .inr (.inr (Nat.lt_of_le_of_lt reached grown))

/-- A word that is back is a word that never changed. -/
theorem antisymm {before middle : Nat} (earlier : FinishLater before middle)
    (back : FinishLater middle before) : middle = before := by
  rcases earlier with same | ⟨-, same, terminal⟩ | grown
  · exact same
  · rcases back with same' | ⟨pending, -, -⟩ | grown'
    · exact same'.symm
    · exact (terminal pending.2).elim
    · omega
  · have := back.token_le
    omega

theorem settled {before after token : Nat} (later : FinishLater before after)
    {status status' : FinishStatus} (beforeEq : FinishStatus.ofToken before token = some status)
    (afterEq : FinishStatus.ofToken after token = some status') :
    status = .pending ∨ status' = status := by
  unfold FinishStatus.ofToken at beforeEq afterEq
  split at beforeEq <;> split at afterEq <;>
    simp only [Option.some.injEq, reduceCtorEq] at beforeEq afterEq
  rename_i latest latest'
  rcases later with rfl | ⟨pending, -, -⟩ | grown
  · exact .inr (afterEq.symm.trans beforeEq)
  · left
    rw [← beforeEq, FinishStatus.ofWord, pending.2]
    rfl
  · omega

end FinishLater

theorem FinishStatus.ofToken_eq_none {word token : Nat} :
    FinishStatus.ofToken word token = none ↔ token = 0 ∨ token ≠ word / 4 := by
  unfold FinishStatus.ofToken
  split
  · rename_i other
    exact ⟨fun _ => other.imp_right Ne.symm, fun _ => rfl⟩
  · rename_i latest
    exact ⟨fun none => (by cases none), fun other => (latest (other.imp_right Ne.symm)).elim⟩

variable {F S W : Type}

/-- What every run keeps: the finish word only moves on, and while it stays a
pending word no slot is accepted. -/
structure FinishKept (before after : Ring F S W) : Prop where
  finish : FinishLater before.finish after.finish
  published_eq : FinishPending before.finish → after.finish = before.finish →
    after.pcm.published = before.pcm.published

theorem preordered_finishKept : Program.Preordered (FinishKept (F := F) (S := S) (W := W)) where
  refl ring := ⟨.refl _, fun _ _ => rfl⟩
  trans {first middle last} before after := by
    refine ⟨before.finish.trans after.finish, fun pending same => ?_⟩
    have middleEq : middle.finish = first.finish :=
      before.finish.antisymm (same ▸ after.finish)
    rw [after.published_eq (middleEq ▸ pending) (same.trans middleEq.symm),
      before.published_eq pending middleEq]

variable {geometry : Geometry} {resets : Prop}

theorem finishKept_producer {op : Access F S W} {ring : Ring F S W}
    (permitted : ProducerPermits geometry op ring) :
    FinishKept ring (effect geometry op ring) := by
  have moves : ProducerMoves geometry (fun _ _ => True) ring (effect geometry op ring) :=
    .of_permits permitted fun _ => trivial
  refine ⟨?_, fun pending _ => moves.published_fixed pending⟩
  cases op with
  | storeFinish word =>
      obtain ⟨-, rfl⟩ := permitted
      refine .inr (.inr ?_)
      change ring.finish / 4 < (ring.finish / 4 + 1) * 4 / 4
      omega
  | _ => exact .refl _

theorem finishLater_consumer {before after : Ring F S W}
    (moves : ConsumerMoves geometry resets before after) :
    FinishLater before.finish after.finish := by
  rcases moves.finish with same | ⟨pending, done, token⟩
  · exact .inl same
  · refine .inr (.inl ⟨pending, token, fun zero => done ⟨fun none => ?_, zero⟩⟩)
    have := pending.1
    have := pending.2
    omega

theorem finishKept_consumer {before after : Ring F S W}
    (moves : ConsumerMoves geometry resets before after) : FinishKept before after :=
  ⟨finishLater_consumer moves, fun _ _ => moves.published_eq⟩

/-- What publishing calls perform: no store of a finish word, and counters that
do not wrap. -/
def Access.Publishes : Access F S W → Prop
  | .storeFinish _ => False
  | .storeCounter _ value => value ≤ 2 ^ 64 - 1
  | _ => True

/-- What publishing a slot performs: it touches no mute record either. -/
def Access.PublishesSlots : Access F S W → Prop
  | .storeFinish _ | .mutes _ => False
  | .storeCounter _ value => value ≤ 2 ^ 64 - 1
  | _ => True

/-- Counters that do not wrap. -/
def Access.Saturates : Access F S W → Prop
  | .storeCounter _ value => value ≤ 2 ^ 64 - 1
  | _ => True

section Performs

variable {α : Type}

theorem performs_publishes {program : RingProgram F S W α}
    (performs : program.Performs Access.PublishesSlots) : program.Performs Access.Publishes := by
  refine performs.mono fun op slots => ?_
  cases op with
  | mutes access => trivial
  | _ => exact slots

theorem performs_saturatingAddCounter (counter : Counter) (value : Nat) :
    (saturatingAddCounter counter value : RingProgram F S W Nat).Performs Access.PublishesSlots :=
  ⟨trivial, fun _ => ⟨Nat.min_le_right _ _, fun _ => trivial⟩⟩

theorem performs_finishPending (site : FinishSite) :
    (finishPending site : RingProgram F S W Bool).Performs Access.PublishesSlots :=
  ⟨trivial, fun _ => trivial⟩

theorem performs_syncProducerEpoch :
    (syncProducerEpoch : RingProgram F S W Unit).Performs Access.PublishesSlots := by
  refine ⟨trivial, fun reset => ⟨trivial, fun epoch => ?_⟩⟩
  change Program.Performs _ (if epoch ≠ reset then _ else _)
  split
  · exact ⟨trivial, fun _ => ⟨trivial, fun _ => trivial⟩⟩
  · trivial

theorem performs_storeSlot (written : Nat) (sample : SourceSample F) :
    (storeSlot geometry written sample : RingProgram F S W Bool).Performs Access.PublishesSlots :=
  ⟨trivial, fun _ => ⟨trivial, fun _ => trivial⟩⟩

theorem performs_producerPublish (sample : SourceSample F) :
    (producerPublish geometry sample : RingProgram F S W Bool).Performs Access.PublishesSlots := by
  unfold producerPublish
  refine performs_syncProducerEpoch.bind fun _ => (performs_finishPending _).bind fun pending => ?_
  split
  · trivial
  · refine ⟨trivial, fun written => ⟨trivial, fun read => ?_⟩⟩
    change Program.Performs _ (if geometry.capacity ≤ distance geometry.capacity written read
      then _ else _)
    split
    · exact (performs_saturatingAddCounter _ _).bind fun _ => trivial
    · refine ⟨trivial, fun stamp => ?_⟩
      cases stamp with
      | none => exact performs_storeSlot _ _
      | some current =>
          generalize 2 ^ 64 = bound
          change Program.Performs _ (if bound ≤ current.source + 1 then _ else _)
          split
          · trivial
          · exact ⟨trivial, fun _ => performs_storeSlot _ _⟩

theorem performs_producerGapFrom [Zero F] (remaining accepted : Nat) :
    (producerGapFrom geometry remaining accepted : RingProgram F S W Nat).Performs
      Access.PublishesSlots := by
  induction remaining generalizing accepted with
  | zero => trivial
  | succ remaining ih =>
      refine (performs_producerPublish _).bind fun published => ?_
      split
      · exact ih _
      · exact (performs_saturatingAddCounter _ _).bind fun _ => trivial

theorem performs_producerPushFrom [Binary32 F] (input : List F) (accepted : Nat) :
    (producerPushFrom geometry input accepted : RingProgram F S W Nat).Performs
      Access.PublishesSlots := by
  induction input generalizing accepted with
  | nil => trivial
  | cons sample rest ih =>
      refine (performs_producerPublish _).bind fun published => ?_
      split
      · exact ih _
      · exact (performs_saturatingAddCounter _ _).bind fun _ => trivial

theorem performs_producerPush [Binary32 F] (input : List F) :
    (producerPush geometry input : RingProgram F S W Nat).Performs Access.PublishesSlots := by
  refine (performs_finishPending _).bind fun pending => ?_
  split
  · trivial
  · exact performs_producerPushFrom _ _

theorem performs_producerGap [Zero F] (samples : Nat) :
    (producerGap geometry samples : RingProgram F S W Nat).Performs Access.PublishesSlots := by
  refine (performs_finishPending _).bind fun pending => ?_
  split
  · trivial
  · exact performs_producerGapFrom _ _

theorem performs_mailboxFree :
    (mailboxFree mutePort : RingProgram F S W Nat).Performs Access.Publishes :=
  ⟨trivial, fun _ => ⟨trivial, fun _ => trivial⟩⟩

theorem performs_fill (intervals : List Interval) (written : Nat) :
    (mutePort.fill mailboxQueue intervals written : RingProgram F S W Nat).Performs
      Access.Publishes := by
  induction intervals generalizing written with
  | nil => trivial
  | cons interval rest ih => exact ⟨trivial, fun _ => ih _⟩

theorem performs_mailboxPublish (generation : Nat) (spans : List Span) (stop : Nat) :
    (mailboxPublish mutePort generation spans stop : RingProgram F S W Unit).Performs
      Access.Publishes :=
  ⟨trivial, fun _ => (performs_fill _ _).bind fun _ => ⟨trivial, fun _ => trivial⟩⟩

theorem performs_producerPushTagged [Binary32 F] (input : List F)
    (generation sourceStart : Nat) (spans : List Span) :
    (producerPushTagged geometry input generation sourceStart spans :
      RingProgram F S W (Option Nat)).Performs Access.Publishes := by
  unfold producerPushTagged
  refine (performs_publishes performs_syncProducerEpoch).bind fun _ =>
    (performs_publishes (performs_finishPending _)).bind fun pending => ?_
  split
  · trivial
  · split
    · trivial
    · refine ⟨trivial, fun previous => ?_⟩
      change Program.Performs _ (if Discontinuous previous generation sourceStart then _ else _)
      split
      · trivial
      · refine performs_mailboxFree.bind fun free => ?_
        split
        · trivial
        · have occupies : (available geometry : RingProgram F S W Nat).Performs
              Access.Publishes := ⟨trivial, fun _ => ⟨trivial, fun _ => trivial⟩⟩
          refine occupies.bind fun occupied => ?_
          dsimp only
          split
          · exact (performs_publishes (performs_saturatingAddCounter _ _)).bind fun _ => trivial
          · refine (performs_mailboxPublish _ _ _).bind fun _ => ⟨trivial, fun _ => ?_⟩
            exact (performs_publishes (performs_producerPush _)).bind fun _ =>
              (performs_publishes (performs_saturatingAddCounter _ _)).bind fun _ => trivial

theorem performs_producerMute (generation : Nat) (spans : List Span) :
    (producerMute geometry generation spans : RingProgram F S W (Option Nat)).Performs
      Access.Publishes := by
  unfold producerMute
  refine (performs_publishes performs_syncProducerEpoch).bind fun _ =>
    ⟨trivial, fun stamp => ?_⟩
  cases stamp with
  | none => trivial
  | some current =>
      change Program.Performs _ (if MuteInvalid geometry current generation spans then _ else _)
      split
      · trivial
      · refine performs_mailboxFree.bind fun free => ?_
        exact (performs_mailboxPublish _ _ _).bind fun _ => trivial

end Performs

/-- What a call makes of the latest token. -/
def FinishPost (call : ProducerCall F) (entry : Ring F S W) (result : ProducerResult)
    (exit : Ring F S W) : Prop :=
  match call with
  | .finish =>
      (∃ token, result = .token (some token) ∧ token = entry.finish / 4 + 1 ∧ token < 2 ^ 62 ∧
        exit.finish / 4 = token) ∨
      (result = .token none ∧ exit.finish / 4 = entry.finish / 4 ∧
        (FinishPending entry.finish ∨ 2 ^ 62 ≤ entry.finish / 4 + 1))
  | .status token => ∃ word, result = .status (FinishStatus.ofToken word token) ∧
      FinishLater entry.finish word ∧ FinishLater word exit.finish ∧
      word / 4 = entry.finish / 4 ∧ exit.finish / 4 = entry.finish / 4
  | _ => exit.finish / 4 = entry.finish / 4 ∧ ∀ token, result ≠ .token (some token)

theorem ConsumerMoves.token_eq {before after : Ring F S W}
    (moves : ConsumerMoves geometry resets before after) : after.finish / 4 = before.finish / 4 := by
  rcases moves.finish with same | ⟨-, -, token⟩
  · rw [same]
  · exact token

section Calls

variable {ring : Ring F S W}

/-- A call that stores no finish word keeps the latest token. -/
theorem safe_keepsToken {α : Type} {program : RingProgram F S W α}
    (performs : program.Performs Access.Publishes) {result : α → ProducerResult}
    (other : ∀ value token, result value ≠ .token (some token)) :
    (program >>= fun value => pure (result value)).Safe (exec geometry)
      (ConsumerMoves geometry resets) (fun op _ => op.Saturates)
      (fun result exit => exit.finish / 4 = ring.finish / 4 ∧
        ∀ token, result ≠ .token (some token)) ring := by
  have stable {before after : Ring F S W} (moves : ConsumerMoves geometry resets before after)
      (same : before.finish / 4 = ring.finish / 4) : after.finish / 4 = ring.finish / 4 :=
    moves.token_eq.trans same
  refine Program.Safe.bind preordered_consumerMoves (Program.Safe.mono ?_
    (performs.safe (fun now => now.finish / 4 = ring.finish / 4)
      (fun op _ publishes => ?_) ?_ stable rfl))
  · exact fun value now same exit moves => ⟨stable moves same, other value⟩
  · cases op with
    | storeFinish word => exact publishes.elim
    | _ => exact publishes
  · intro op now publishes same
    cases op with
    | storeFinish word => exact publishes.elim
    | _ => exact same

theorem safe_finishPost [Binary32 F] (call : ProducerCall F) :
    (producerBody geometry call).Safe (exec geometry) (ConsumerMoves geometry resets)
      (fun op _ => op.Saturates) (FinishPost call ring) ring := by
  cases call with
  | pushSample sample =>
      exact safe_keepsToken (performs_publishes (performs_producerPublish _))
        fun _ _ => by simp
  | push input =>
      exact safe_keepsToken (performs_publishes (performs_producerPush input)) fun _ _ => by simp
  | pushTagged input generation sourceStart spans =>
      exact safe_keepsToken (performs_producerPushTagged input generation sourceStart spans)
        fun _ _ => by simp
  | gap samples =>
      exact safe_keepsToken (performs_publishes (performs_producerGap samples))
        fun _ _ => by simp
  | mute generation spans =>
      exact safe_keepsToken (performs_producerMute generation spans) fun _ _ => by simp
  | finish =>
      simp only [producerBody, producerFinish, bind_assoc]
      refine safe_answer (.loadFinish .request) (by simp [Access.IsLoad])
        fun first firstMoves => ⟨trivial, ?_⟩
      have wordLoaded : answer geometry (.loadFinish .request) first = first.finish := rfl
      have tokenEq := firstMoves.token_eq
      rw [wordLoaded]
      -- Keep the bound from being unfolded.
      have refused (why : FinishPending ring.finish ∨ 2 ^ 62 ≤ ring.finish / 4 + 1) :
          ∀ exit, ConsumerMoves geometry resets first exit →
            FinishPost .finish ring (.token none) exit := fun exit moves =>
        .inr ⟨rfl, moves.token_eq.trans tokenEq, why⟩
      have granted (bounded : first.finish / 4 + 1 < 2 ^ 62) : ∀ second exit,
          ConsumerMoves geometry resets first second →
          ConsumerMoves geometry resets
            (effect geometry (.storeFinish ((first.finish / 4 + 1) * 4)) second) exit →
          FinishPost .finish ring (.token (some (first.finish / 4 + 1))) exit := by
        intro second exit _ moves
        refine .inl ⟨_, rfl, congrArg (· + 1) tokenEq, bounded, moves.token_eq.trans ?_⟩
        exact Nat.mul_div_cancel _ (by decide)
      revert refused granted
      generalize 2 ^ 62 = bound
      intro refused granted
      split
      · rename_i pending
        refine fun exit moves => refused (.inl ?_) exit moves
        rcases firstMoves.finish with same | ⟨before, -, -⟩
        · exact same ▸ pending
        · exact before
      · split
        · rename_i bounded
          simp only [bind_assoc]
          exact safe_access.mpr fun second secondMoves =>
            ⟨trivial, fun exit moves => granted bounded second exit secondMoves moves⟩
        · rename_i exhausted
          exact fun exit moves => refused (.inr (tokenEq ▸ Nat.not_lt.mp exhausted)) exit moves
  | status token =>
      simp only [producerBody, finishStatus, bind_assoc]
      refine safe_answer (.loadFinish .status) (by simp [Access.IsLoad])
        fun first firstMoves => ⟨trivial, fun exit moves => ?_⟩
      exact ⟨first.finish, rfl, finishLater_consumer firstMoves, finishLater_consumer moves,
        firstMoves.token_eq, moves.token_eq.trans firstMoves.token_eq⟩

end Calls

/-- The token a call granted. -/
def ProducerResult.granted : ProducerResult → List Nat
  | .token (some latest) => [latest]
  | _ => []

/-- The tokens that the returned calls granted, in order. -/
def grantedTokens (returned : List (Returned (Ring F S W) (ProducerCall F) ProducerResult)) :
    List Nat :=
  returned.flatMap fun record => record.result.granted

theorem granted_of_not {result : ProducerResult}
    (other : ∀ token, result ≠ .token (some token)) : result.granted = [] := by
  unfold ProducerResult.granted
  split
  · exact (other _ rfl).elim
  · rfl

theorem FinishPost.bounded {call : ProducerCall F} {entry exit : Ring F S W}
    {result : ProducerResult} (post : FinishPost call entry result exit) {token : Nat}
    (member : token ∈ result.granted) : 0 < token ∧ token < 2 ^ 62 := by
  have kept (other : ∀ token, result ≠ .token (some token)) : 0 < token ∧ token < 2 ^ 62 := by
    rw [granted_of_not other] at member
    cases member
  cases call with
  | finish =>
      rcases post with ⟨latest, rfl, latestEq, bounded, -⟩ | ⟨rfl, -⟩
      · obtain rfl := List.mem_singleton.mp member
        exact ⟨latestEq ▸ Nat.succ_pos _, bounded⟩
      · exact kept (by simp)
  | status token =>
      obtain ⟨word, rfl, -⟩ := post
      exact kept (by simp)
  | pushSample | push | pushTagged | gap | mute => exact kept post.2

/-- The tokens up to the latest one, extended by what a call grants. -/
theorem FinishPost.granted {call : ProducerCall F} {entry exit : Ring F S W}
    {result : ProducerResult} (post : FinishPost call entry result exit) :
    List.range' 1 (exit.finish / 4) = List.range' 1 (entry.finish / 4) ++ result.granted := by
  have kept (same : exit.finish / 4 = entry.finish / 4)
      (other : ∀ token, result ≠ .token (some token)) :
      List.range' 1 (exit.finish / 4) = List.range' 1 (entry.finish / 4) ++ result.granted := by
    rw [same, granted_of_not other, List.append_nil]
  cases call with
  | finish =>
      rcases post with ⟨token, rfl, tokenEq, -, exitEq⟩ | ⟨rfl, same, -⟩
      · rw [exitEq, tokenEq, List.range'_concat]
        simp [ProducerResult.granted, Nat.add_comm]
      · exact kept same (by simp)
  | status token =>
      obtain ⟨word, rfl, -, -, -, same⟩ := post
      exact kept same (by simp)
  | pushSample | push | pushTagged | gap | mute => exact kept post.1 post.2

theorem flatten_of_forall₂ {ρ : Type} {granted : ρ → List Nat} {records : List ρ}
    {blocks : List (List Nat)}
    (matched : List.Forall₂ (fun record block => granted record = block) records blocks) :
    blocks.flatten = records.flatMap granted := by
  induction matched with
  | nil => rfl
  | cons head _ ih => rw [List.flatten_cons, List.flatMap_cons, head, ih]

variable [Binary32 F] [Binary64 W] [Widening F W]

/-- What holds of the finish word and of the calls about it in one state of a
run, and of every later one. -/
structure FinishProtocol (adapter : Adapter F W S) (geometry : Geometry)
    (config : RingConfig F S W) : Prop where
  increasing : (grantedTokens (config.returned .producer)).Pairwise (· < ·)
  bounded : ∀ token ∈ grantedTokens (config.returned .producer), 0 < token ∧ token < 2 ^ 62
  /-- The finish word holds the last token that was granted. -/
  latest : (config.settled .producer).finish / 4 =
    (grantedTokens (config.returned .producer)).getLast?.getD 0
  /-- A request is refused only while a boundary is pending or when the tokens
  are used up. -/
  refused : ∀ record ∈ config.returned .producer, record.call = .finish →
    record.result = .token none →
      FinishPending record.entry.finish ∨ 2 ^ 62 ≤ record.entry.finish / 4 + 1
  /-- A boundary is requested only while none is outstanding. -/
  outstanding : ∀ word, storedWord config .producer = some word →
    ¬FinishPending config.memory.finish ∧ word = (config.memory.finish / 4 + 1) * 4
  /-- The consumer's copy is the outstanding boundary. -/
  copied : config.thread .consumer = .idle → ∀ boundary ∈ config.memory.consumer.finite,
    FinishPending config.memory.finish ∧ boundary.token = config.memory.finish / 4
  /-- The consumer settles the outstanding boundary and no other. -/
  settles : ∀ word, storedWord config .consumer = some word →
    FinishPending config.memory.finish ∧ word / 4 = config.memory.finish / 4 ∧ word % 4 ≠ 0
  /-- A status is read off a finish word of the time of the call. -/
  answered : ∀ record ∈ config.returned .producer, ∀ token, record.call = .status token →
    ∃ word, record.result = .status (FinishStatus.ofToken word token) ∧
      FinishLater record.entry.finish word ∧ FinishLater word record.exit.finish
  rejected : ∀ record ∈ config.returned .producer, ∀ token, record.call = .status token →
    (record.result = .status none ↔ token = 0 ∨ token ≠ record.entry.finish / 4)
  /-- An answer that is not `Pending` stays while the token is accepted. -/
  permanent : (config.returned .producer).Pairwise fun earlier later =>
    ∀ token first last, earlier.call = .status token → later.call = .status token →
      earlier.result = .status (some first) → later.result = .status (some last) →
      first = .pending ∨ last = first
  later : ∀ last, Relation.ReflTransGen (Step (body adapter geometry) (exec geometry)
    fun _ _ => True) config last → FinishLater config.memory.finish last.memory.finish
  /-- No slot is accepted while a boundary is pending. -/
  closed : ∀ last, Relation.ReflTransGen (Step (body adapter geometry) (exec geometry)
    fun _ _ => True) config last → FinishPending config.memory.finish →
      last.memory.finish = config.memory.finish →
      last.memory.pcm.published = config.memory.pcm.published

/-- The outline of the drained boundary, with what the producer's calls make of
the latest token. -/
def finishOutline (adapter : Adapter F W S) (geometry : Geometry) :
    Outline (body adapter geometry) (exec geometry) (fun _ _ => True) :=
  ((drainSpec adapter geometry True (fun _ _ => True) id).outline
    fun call _ => uniform_none call).also
    (fun party op _ => match party with
      | .producer => op.Saturates
      | .consumer => True)
    (fun party => match party with
      | .producer => FinishPost
      | .consumer => fun _ _ _ _ => True)
    (fun party call _ _ _ => match party with
      | .producer => safe_finishPost call
      | .consumer => Program.safe_trivial _ _)

variable {adapter : Adapter F W S} {geometry : Geometry} {settings : Settings}

theorem finishOutline_created {ring : Ring F S W}
    (created : Ring.create adapter settings = .ok (geometry, ring)) (party : Party) :
    (finishOutline adapter geometry).inv party ring := by
  have positive : 0 < geometry.capacity :=
    Nat.lt_of_lt_of_le (by decide) (create_capacity created)
  obtain ⟨-, outputDelay, delay, converter, -, initial⟩ := create_cases created
  exact (drainSpec adapter geometry True (fun _ _ => True) id).initially
    (fun call _ => uniform_none call) positive initial (initial ▸ drainInv_initial positive) party

theorem discarded_le {config : RingConfig F S W}
    (reached : RingReachable adapter settings (fun _ _ => True) geometry config) :
    config.memory.counters .discarded ≤ 2 ^ 64 - 1 := by
  obtain ⟨ring, created, steps⟩ := reached
  obtain ⟨-, outputDelay, delay, converter, -, initial⟩ := create_cases created
  refine (finishOutline adapter geometry).memory_of_reachable (finishOutline_created created)
    (fun ring => ring.counters .discarded ≤ 2 ^ 64 - 1) ?_ ?_ steps
  · rw [initial]
    exact Nat.zero_le _
  · intro party op current promised bounded
    cases party with
    | producer =>
        cases op with
        | storeCounter counter value =>
            obtain rfl : counter = .discarded := promised.1.permitted
            change Function.update current.counters .discarded value .discarded ≤ _
            rw [Function.update_self]
            exact promised.2
        | _ => exact bounded
    | consumer =>
        change (effect geometry op current).counters .discarded ≤ _
        have moves : ConsumerMoves geometry True current (effect geometry op current) :=
          .of_permits promised.1.1
        rw [moves.discarded_eq]
        exact bounded

/-- Whatever the converter answers and whoever runs when, the threads keep the
protocol. -/
theorem finish_protocol {config : RingConfig F S W}
    (reached : RingReachable adapter settings (fun _ _ => True) geometry config) :
    FinishProtocol adapter geometry config := by
  obtain ⟨ring, created, steps⟩ := reached
  obtain ⟨-, outputDelay, delay, converter, -, initial⟩ := create_cases created
  let outline := finishOutline adapter geometry
  have start := finishOutline_created created
  have holds := outline.holds_of_reachable start steps
  have posts {record} (member : record ∈ config.returned .producer) :
      FinishPost record.call record.entry record.result record.exit :=
    (outline.post_of_returned (holds .producer) member).2
  have kept (party : Party) (op : Access F S W) (current : Ring F S W)
      (promised : outline.guar party op current) :
      FinishKept current (exec geometry op current).2 := by
    cases party with
    | producer => exact finishKept_producer promised.1.permitted
    | consumer => exact finishKept_consumer (ConsumerMoves.of_permits promised.1.1)
  obtain ⟨blocks, matched, tokens⟩ := outline.log_of_settled start .producer (fun _ => True)
    (fun _ => trivial) (fun ring => List.range' 1 (ring.finish / 4))
    (fun _ moves => by rw [ConsumerMoves.token_eq moves])
    (fun record block => record.result.granted = block)
    (fun record post => ⟨_, FinishPost.granted post.2, rfl⟩) steps
  have granted : grantedTokens (config.returned .producer) =
      List.range' 1 ((config.settled .producer).finish / 4) := by
    rw [grantedTokens, ← flatten_of_forall₂ matched, tokens, initial]
    simp [Ring.initial]
  constructor
  case increasing =>
    rw [granted]
    exact List.pairwise_lt_range'
  case bounded =>
    intro token member
    obtain ⟨record, member, granted⟩ := List.mem_flatMap.mp member
    exact (posts member).bounded granted
  case latest =>
    rw [granted]
    cases (config.settled .producer).finish / 4 with
    | zero => rfl
    | succ count =>
        rw [List.range'_concat, List.getLast?_concat, Nat.one_mul, Nat.add_comm]
        rfl
  case refused =>
    intro record member callEq resultEq
    have post := posts member
    rw [callEq, resultEq] at post
    rcases post with ⟨token, absurd, -⟩ | ⟨-, -, why⟩
    · cases absurd
    · exact why
  case outstanding =>
    intro word stored
    obtain ⟨call, entry, next, running⟩ := running_of_storedWord stored
    exact (outline.guar_of_running (holds .producer) running).1.permitted
  case copied =>
    intro idle boundary member
    have accounts := (outline.inv_of_idle (holds .consumer) idle).left
    exact ⟨(accounts.boundary boundary member).1, (accounts.boundary boundary member).2.1⟩
  case settles =>
    intro word stored
    obtain ⟨call, entry, next, running⟩ := running_of_storedWord stored
    exact (outline.guar_of_running (holds .consumer) running).1.1
  case answered =>
    intro record member token callEq
    have post := posts member
    rw [callEq] at post
    obtain ⟨word, resultEq, before, after, -, -⟩ := post
    exact ⟨word, resultEq, before, after⟩
  case rejected =>
    intro record member token callEq
    have post := posts member
    rw [callEq] at post
    obtain ⟨word, resultEq, -, -, same, -⟩ := post
    rw [resultEq, ← same, ← FinishStatus.ofToken_eq_none]
    exact ⟨ProducerResult.status.inj, congrArg ProducerResult.status⟩
  case permanent =>
    have pairs := (outline.pairwise_of_returned start _ preordered_finishKept kept steps
      .producer).1
    refine pairs.imp_of_mem fun {earlier later} member member' moved => ?_
    intro token first last callEq callEq' resultEq resultEq'
    have post := posts member
    have post' := posts member'
    rw [callEq, resultEq] at post
    rw [callEq', resultEq'] at post'
    obtain ⟨word, wordEq, -, after, -, -⟩ := post
    obtain ⟨word', wordEq', before, -, -, -⟩ := post'
    exact ((after.trans moved.finish).trans before).settled
      (ProducerResult.status.inj wordEq).symm (ProducerResult.status.inj wordEq').symm
  case later =>
    intro last more
    exact (outline.related_of_steps start _ preordered_finishKept kept steps more).finish
  case closed =>
    intro last more
    exact (outline.related_of_steps start _ preordered_finishKept kept steps more).published_eq

/-- A boundary is drained and the next one is cancelled by a reset. -/
def twoBoundaries : List (Choice (Party.Call ℚ)) :=
  uninterrupted .producer (.push [1 / 2]) ++ uninterrupted .producer .finish ++
    uninterrupted .producer (.status 1) ++ uninterrupted .consumer .render ++
    uninterrupted .consumer .render ++ uninterrupted .producer (.status 1) ++
    uninterrupted .producer .finish ++ uninterrupted .consumer .reset ++
    uninterrupted .producer (.status 2) ++ uninterrupted .producer (.status 1)

theorem finish_protocol_twoBoundaries :
    ∃ (geometry : Geometry) (config : RingConfig ℚ Unit ℚ),
      RingReachable unitConverter smallSettings (fun _ _ => True) geometry config ∧
      (config.returned .producer).map Returned.result =
        [.count 1, .token (some 1), .status (some .pending), .status (some .drained),
          .token (some 2), .status (some .cancelled), .status none] ∧
      FinishProtocol unitConverter geometry config := by
  let shown (_ : Geometry) (config : RingConfig ℚ Unit ℚ) : Bool :=
    decide ((config.returned .producer).map Returned.result =
      [.count 1, .token (some 1), .status (some .pending), .status (some .drained),
        .token (some 2), .status (some .cancelled), .status none])
  have played : (playRing unitConverter smallSettings twoBoundaries).any
      (fun played => shown played.1 played.2) = true := by decide +kernel
  obtain ⟨geometry, config, reached, shows⟩ :=
    reachable_of_plays _ _ _ shown (admitted_any twoBoundaries) played
  exact ⟨geometry, config, reached, of_decide_eq_true shows, finish_protocol reached⟩

end PcmRing
