import PcmRing.RingOutline

/-!
# The history of the FIFO

One producer that publishes slots and one consumer that takes them, or drops
what a snapshot of the write cursor covers, in every schedule of their single
cursor loads, slot accesses and cursor stores.  Whatever the capacity, cursors
stay in their two laps, no slot is touched by both sides, and the results of
the calls are those of one queue.
-/

namespace PcmRing

open AtomicProgram TwoLapQueue

variable {F S W : Type}

inductive FifoRead where
  | take
  | reset

inductive FifoTaken (F : Type) where
  | taken (slot : Option (SourceSample F))
  | reset

/-- The producer is given the PCM of a slot and whether it is missing. -/
@[reducible]
def Party.FifoCall (F : Type) : Party → Type
  | producer => F × Bool
  | consumer => FifoRead

@[reducible]
def Party.FifoRet (F : Type) : Party → Type
  | producer => Bool
  | consumer => FifoTaken F

/-- What each thread runs. -/
def fifoBody (geometry : Geometry) :
    (party : Party) → party.FifoCall F → RingProgram F S W (party.FifoRet F)
  | .producer, content => producerPublish geometry ⟨content.1, content.2, none⟩
  | .consumer, .take => return .taken (← consumerTakeSourceSample geometry)
  | .consumer, .reset => do
      pcmPort.discard
      return .reset

abbrev FifoConfig (F S W : Type) : Type :=
  Config (Access.Resp (F := F) (S := S) (W := W)) (Ring F S W) (Party.FifoCall F)
    (Party.FifoRet F)

/-- Every schedule from a created ring, whose producer may carry a stamp. -/
def FifoReachable [Binary32 F] [Binary64 W] (adapter : Adapter F W S) (settings : Settings)
    (geometry : Geometry) (config : FifoConfig F S W) : Prop :=
  ∃ ring stamp, Ring.create adapter settings = .ok (geometry, ring) ∧
    Reachable (fifoBody geometry) (exec geometry) (fun _ _ => True)
      { ring with producerStamp := stamp } config

/-- The slots one publication appends. -/
def Accepted (record : Returned (Ring F S W) (F × Bool) Bool)
    (slots : List (SourceSample F)) : Prop :=
  slots.map SourceSample.content = if record.result then [record.call] else []

/-- The moves of the read cursor one take or reset makes. -/
def Consumed (record : Returned (Ring F S W) FifoRead (FifoTaken F))
    (moves : List (Consumption (SourceSample F))) : Prop :=
  match record.call, record.result with
  | .take, .taken (some slot) => moves = [.took slot]
  -- A take that finds nothing found everything passed that was published before it.
  | .take, .taken none =>
      moves = [] ∧ record.entry.pcm.published <+: record.exit.pcm.passed
  | .reset, .reset => ∃ snapshot values, moves = [.dropped snapshot values] ∧
      record.entry.pcm.published.length ≤ snapshot ∧
      snapshot ≤ record.exit.pcm.published.length
  | _, _ => False

/-- The FIFO behaves as one queue. -/
structure Linearized (geometry : Geometry) (config : FifoConfig F S W) : Prop where
  written_lt : config.memory.pcm.queue.written < geometry.capacity * 2
  read_lt : config.memory.pcm.queue.read < geometry.capacity * 2
  distance_le : distance geometry.capacity config.memory.pcm.queue.written
    config.memory.pcm.queue.read ≤ geometry.capacity
  /-- A slot about to be written is not one of the unread ones. -/
  stores : ∀ party index slot, config.nextAccess party = some (.pcm (.storeCell index slot)) →
    ∀ offset < distance geometry.capacity config.memory.pcm.queue.written
      config.memory.pcm.queue.read,
    (config.memory.pcm.queue.read + offset) % geometry.capacity ≠ index
  /-- A slot about to be read is one of them. -/
  loads : ∀ party index, config.nextAccess party = some (.pcm (.loadCell index)) →
    ∃ offset < distance geometry.capacity config.memory.pcm.queue.written
      config.memory.pcm.queue.read,
    index = (config.memory.pcm.queue.read + offset) % geometry.capacity
  /-- Takes between two resets are a segment of what was published. -/
  segment : ∀ before values after,
    config.memory.pcm.consumption = before ++ values.map .took ++ after → ∃ rest,
      config.memory.pcm.published = before.flatMap Consumption.cells ++ values ++ rest
  /-- A reset drops what was published before its snapshot and not passed. -/
  dropped : ∀ before snapshot values after,
    config.memory.pcm.consumption = before ++ .dropped snapshot values :: after →
      config.memory.pcm.published.take snapshot =
        before.flatMap Consumption.cells ++ values
  /-- What was published are the accepted contents, in order. -/
  accepted : config.thread .producer = .idle → ∃ blocks,
    List.Forall₂ Accepted (config.returned .producer) blocks ∧
    config.memory.pcm.published = blocks.flatten
  /-- What was taken and dropped are the results of the consumer, in order. -/
  consumed : config.thread .consumer = .idle → ∃ blocks,
    List.Forall₂ Consumed (config.returned .consumer) blocks ∧
    config.memory.pcm.consumption = blocks.flatten

variable {geometry : Geometry}

/-- What a thread's call appended between two memories. -/
def FifoPost : (party : Party) → party.FifoCall F → Ring F S W → party.FifoRet F →
    Ring F S W → Prop
  | .producer, call, entry, result, exit => ∃ slots,
      exit.pcm.published = entry.pcm.published ++ slots ∧
      Accepted ⟨call, entry, result, exit⟩ slots
  | .consumer, call, entry, result, exit => ∃ moves,
      exit.pcm.consumption = entry.pcm.consumption ++ moves ∧
      Consumed ⟨call, entry, result, exit⟩ moves

private theorem fifoReader : (pcmPort (F := F) (S := S) (W := W)).ReaderSide geometry.capacity
    Ring.pcm (ProducerMoves geometry (SingleLine none)) (ConsumerPermits geometry True) where
  order := ⟨.refl, .trans⟩
  writes moves := moves.pcm
  permits _ _ permitted := permitted

theorem safe_fifoPublish {ring : Ring F S W} (content : F × Bool)
    (holds : ProducerHolds geometry True none ring) :
    (producerPublish geometry ⟨content.1, content.2, none⟩).Safe (exec geometry)
      (ConsumerMoves geometry True) (ProducerGuar geometry True none)
      (fun result exit => ProducerHolds geometry True none exit ∧
        FifoPost .producer content ring result exit) ring := by
  rw [← bind_pure (producerPublish geometry _)]
  refine safe_producerPublish rfl holds ?_ ?_
  · intro now nowHolds accepts exit moves
    refine ⟨nowHolds.stable moves, [], ?_, rfl⟩
    exact (accepts.stable moves).published_eq
  · intro slot now nowHolds accepts pcmEq missingEq exit moves
    refine ⟨nowHolds.stable moves, [slot], (accepts.stable moves).published_eq, ?_⟩
    simp [Accepted, SourceSample.content, pcmEq, missingEq]

theorem safe_fifoRead {ring : Ring F S W} (call : FifoRead)
    (sound : ring.pcm.Sound geometry.capacity) :
    (fifoBody geometry .consumer call).Safe (exec geometry)
      (ProducerMoves geometry (SingleLine none)) (ConsumerPermits geometry True)
      (fun result exit => exit.pcm.Sound geometry.capacity ∧
        FifoPost .consumer call ring result exit) ring := by
  cases call with
  | take =>
      refine Port.safe_take (pcm_lawful geometry) fifoReader sound ?_ ?_
      · intro current moves empty exit later
        obtain ⟨currentSound, writes⟩ := moves.pcm sound
        obtain ⟨exitSound, laterWrites⟩ := later.pcm currentSound
        refine ⟨exitSound, [], ?_, rfl, ?_⟩
        · rw [laterWrites.consumption_eq, writes.consumption_eq, List.append_nil]
        · rw [laterWrites.passed_eq, ← List.append_nil current.pcm.passed, ← empty,
            ← currentSound.published_eq]
          exact moves.published_prefix
      · intro current slot rest moves unreadEq exit later
        obtain ⟨currentSound, writes⟩ := moves.pcm sound
        obtain ⟨exitSound, laterWrites⟩ := later.pcm
          (Channel.sound_reader currentSound ⟨rfl, rest, unreadEq⟩)
        refine ⟨exitSound, [.took slot], ?_, rfl⟩
        rw [laterWrites.consumption_eq, ← writes.consumption_eq]
        rfl
  | reset =>
      refine Port.safe_discard (pcm_lawful geometry) fifoReader sound ?_
      intro early current moves between permitted exit later
      obtain ⟨earlySound, writes⟩ := moves.pcm sound
      have snapped : (early.pcm.exec geometry.capacity .snapshotWritten).2.Sound
          geometry.capacity := Channel.sound_reader earlySound trivial
      obtain ⟨currentSound, betweenWrites⟩ := between.pcm snapped
      obtain ⟨exitSound, laterWrites⟩ := later.pcm (Channel.sound_reader currentSound permitted)
      have snapshotEq : current.pcm.snapshot = early.pcm.published.length :=
        betweenWrites.snapshot_eq
      have consumptionEq : current.pcm.consumption = ring.pcm.consumption :=
        betweenWrites.consumption_eq.trans writes.consumption_eq
      have appended : exit.pcm.consumption = ring.pcm.consumption ++
          [.dropped early.pcm.published.length (Queue.segment geometry.capacity
            current.pcm.queue.cells current.pcm.queue.read (distance geometry.capacity
              early.pcm.queue.written current.pcm.queue.read))] := by
        rw [laterWrites.consumption_eq, ← consumptionEq, ← snapshotEq]
        rfl
      refine ⟨exitSound, _, appended, _, _, rfl, ?_, ?_⟩
      · exact moves.published_prefix.length_le
      · exact Nat.le_trans between.published_prefix.length_le later.published_prefix.length_le

/-- The outline of both threads. -/
def fifoOutline (geometry : Geometry) :
    Outline (fifoBody (F := F) (S := S) (W := W) geometry) (exec geometry) fun _ _ => True where
  rely := MethodRely geometry
  guar := MethodGuar geometry
  inv
    | .producer => ProducerHolds geometry True none
    | .consumer => fun ring => ring.pcm.Sound geometry.capacity
  post := FifoPost
  order := methodRely_preordered geometry
  stable {i} := by
    cases i with
    | producer => exact fun moves holds => holds.stable moves
    | consumer => exact fun moves sound => (moves.pcm sound).1
  compatible := methodRely_of_guar geometry
  safe
    | .producer, call, _, _, holds => safe_fifoPublish call holds
    | .consumer, call, _, _, sound => safe_fifoRead call sound

theorem fifo_sound (party : Party) (op : Access F S W) (ring : Ring F S W)
    (promised : (fifoOutline geometry).guar party op ring)
    (sound : ring.pcm.Sound geometry.capacity) :
    (effect geometry op ring).pcm.Sound geometry.capacity := by
  cases party with
  | producer => exact ((ProducerMoves.of_permits promised.permitted promised.line).pcm sound).1
  | consumer => exact ((ConsumerMoves.of_permits promised).pcm sound).1

/-- A thread that is about to perform an access has promised it. -/
theorem guar_of_nextAccess {config : FifoConfig F S W} {party : Party} {op : Access F S W}
    (holds : (fifoOutline geometry).Holds config party)
    (next : config.nextAccess party = some op) :
    (fifoOutline geometry).guar party op config.memory := by
  obtain ⟨call, entry, rest, running⟩ := Config.running_of_nextAccess next
  exact Outline.guar_of_running _ holds running

theorem linearized_of_start {first : Ring F S W}
    (start : ∀ party, (fifoOutline geometry).inv party first)
    (published : first.pcm.published = []) (consumption : first.pcm.consumption = [])
    {config : FifoConfig F S W}
    (steps : Reachable (fifoBody geometry) (exec geometry) (fun _ _ => True) first config) :
    Linearized geometry config := by
  have holds := (fifoOutline geometry).holds_of_reachable start steps
  have sounds {config : FifoConfig F S W}
      (steps : Reachable (fifoBody geometry) (exec geometry) (fun _ _ => True) first config) :
      config.memory.pcm.Sound geometry.capacity :=
    (fifoOutline geometry).memory_of_reachable start
      (fun ring => ring.pcm.Sound geometry.capacity) (start .consumer) fifo_sound steps
  have sound := sounds steps
  constructor
  case written_lt => exact sound.valid.written_lt
  case read_lt => exact sound.valid.read_lt
  case distance_le => exact sound.valid.distance_le
  case stores =>
    intro party index slot next offset offsetLt
    have promised := guar_of_nextAccess (holds party) next
    cases party with
    | producer =>
        obtain ⟨count, rfl, room⟩ := promised.permitted.1
        exact Queue.stage_index_ne _ sound.valid room offsetLt
    | consumer => exact promised.elim
  case loads =>
    intro party index next
    have promised := guar_of_nextAccess (holds party) next
    cases party with
    | producer => exact promised.permitted.1.elim
    | consumer =>
        obtain ⟨offset, indexEq, offsetLt⟩ := promised
        exact ⟨offset, offsetLt, indexEq⟩
  case segment => exact fun before values after => sound.taken_segment
  case dropped => exact fun before snapshot values after => sound.dropped_segment
  case accepted =>
    intro idle
    have log := (fifoOutline geometry).log_of_idle start .producer
      (fun ring => ring.pcm.Sound geometry.capacity) sounds (fun ring => ring.pcm.published)
      (fun _ moves => moves.published_eq) Accepted (fun record post => post) steps idle
    simpa only [published, List.nil_append] using log
  case consumed =>
    intro idle
    have log := (fifoOutline geometry).log_of_idle start .consumer
      (fun ring => ring.pcm.Sound geometry.capacity) sounds (fun ring => ring.pcm.consumption)
      (fun sound moves => (moves.pcm sound).2.consumption_eq) Consumed
      (fun record post => post) steps idle
    simpa only [consumption, List.nil_append] using log

variable [Binary32 F] [Binary64 W] {adapter : Adapter F W S}

/-- For every capacity that is accepted and every schedule the FIFO is one
queue. -/
theorem fifo_linearized {settings : Settings} {config : FifoConfig F S W}
    (reached : FifoReachable adapter settings geometry config) :
    Linearized geometry config := by
  obtain ⟨ring, stamp, created, steps⟩ := reached
  have positive : 0 < geometry.capacity :=
    Nat.lt_of_lt_of_le (by decide) (create_capacity created)
  obtain ⟨-, outputDelay, delay, converter, -, initial⟩ := create_cases created
  have unstamped : ProducerHolds geometry True none ring :=
    initial ▸ producerHolds_initial positive
  have holds : ProducerHolds geometry True none { ring with producerStamp := stamp } :=
    { unstamped with
      traced := { unstamped.traced with
        stampBorn_eq := fun still => (still trivial).elim
        line := fun generation member => by cases member } }
  refine linearized_of_start (fun party => ?_) ?_ ?_ steps
  · cases party with
    | producer => exact holds
    | consumer => exact holds.pcm
  · subst initial
    rfl
  · subst initial
    rfl

/-- One slot is taken, and a reset drops one of two others: the last is
published after its snapshot. -/
def overtakenReset : List (Choice (Party.FifoCall ℚ)) :=
  [.invoke .producer (1 / 2, false), .complete .producer 20,
    .invoke .producer (1 / 4, false), .complete .producer 20,
    .invoke .consumer .take, .complete .consumer 20,
    .invoke .consumer .reset, .advance .consumer 1,
    .invoke .producer (1 / 8, false), .complete .producer 20, .complete .consumer 20]

theorem fifo_linearized_overtakenReset :
    ∃ (geometry : Geometry) (config : FifoConfig ℚ Unit ℚ),
      FifoReachable unitConverter { smallSettings with capacity := 600 } geometry config ∧
      config.memory.pcm.published.map SourceSample.content =
        [(1 / 2, false), (1 / 4, false), (1 / 8, false)] ∧
      config.memory.pcm.passed.map SourceSample.content = [(1 / 2, false), (1 / 4, false)] ∧
      Linearized geometry config := by
  have created : ((Ring.create (unitConverter : Adapter ℚ ℚ Unit)
      { smallSettings with capacity := 600 }).toOption.bind fun created =>
        (playAll (fifoBody created.1) (exec created.1) overtakenReset
          (Config.start created.2)).map fun config =>
            (config.memory.pcm.published.map SourceSample.content,
              config.memory.pcm.passed.map SourceSample.content)) =
      some ([(1 / 2, false), (1 / 4, false), (1 / 8, false)],
        [(1 / 2, false), (1 / 4, false)]) := by decide +kernel
  obtain ⟨⟨geometry, ring⟩, created, played⟩ := Option.bind_eq_some_iff.mp created
  obtain ⟨config, played, facts⟩ := Option.map_eq_some_iff.mp played
  obtain ⟨published, passed⟩ := Prod.mk.inj facts
  have reached : FifoReachable unitConverter { smallSettings with capacity := 600 } geometry
      config := by
    refine ⟨ring, ring.producerStamp, ?_, reachable_of_playAll _ _ overtakenReset
      (by simp [overtakenReset, Choice.Admitted]) .refl played⟩
    generalize Ring.create (unitConverter : Adapter ℚ ℚ Unit) _ = result at created
    cases result with
    | error => cases created
    | ok value => exact congrArg Except.ok (Option.some.inj created)
  exact ⟨geometry, config, reached, published, passed, fifo_linearized reached⟩

end PcmRing
