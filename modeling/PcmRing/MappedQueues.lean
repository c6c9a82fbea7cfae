import PcmRing.MirroredPrograms
import PcmRing.TwoLapMethods

/-!
# Queues of projected values

A queue that holds the images of another one's values goes through the same
states, and every method of the one does what the method of the other does.
-/

namespace TwoLapQueue

open AtomicProgram

variable {α β : Type} (f : α → β)

/-- The same cursors over the images. -/
def Queue.map (queue : Queue α) : Queue β where
  cells index := f (queue.cells index)
  written := queue.written
  read := queue.read

def Consumption.map : Consumption α → Consumption β
  | took value => .took (f value)
  | dropped snapshot values => .dropped snapshot (values.map f)

/-- The same history of the images. -/
def Channel.map (channel : Channel α) : Channel β where
  queue := channel.queue.map f
  published := channel.published.map f
  snapshot := channel.snapshot
  consumption := channel.consumption.map (Consumption.map f)

namespace QueueAccess

/-- The same access of the images. -/
def map : QueueAccess α → QueueAccess β
  | loadWritten => .loadWritten
  | snapshotWritten => .snapshotWritten
  | loadRead => .loadRead
  | loadCell index => .loadCell index
  | storeCell index value => .storeCell index (f value)
  | storeWritten cursor => .storeWritten cursor
  | advanceRead cursor value => .advanceRead cursor (f value)
  | discardTo cursor => .discardTo cursor

def mapResponse : (access : QueueAccess α) → access.Resp → (access.map f).Resp
  | loadWritten, response | snapshotWritten, response | loadRead, response
  | storeCell .., response | storeWritten _, response | advanceRead .., response
  | discardTo _, response => response
  | loadCell _, response => f response

end QueueAccess

namespace Channel

theorem segment_map (capacity : Nat) (cells : Nat → α) (cursor count : Nat) :
    Queue.segment capacity (fun index => f (cells index)) cursor count =
      (Queue.segment capacity cells cursor count).map f := by
  unfold Queue.segment
  rw [List.map_map]
  rfl

theorem passed_map (channel : Channel α) : (channel.map f).passed = channel.passed.map f := by
  unfold passed map
  dsimp only
  rw [List.flatMap_map, List.map_flatMap]
  apply List.flatMap_congr
  intro consumption _
  cases consumption <;> rfl

theorem unread_map (capacity : Nat) (channel : Channel α) :
    (channel.map f).unread capacity = (channel.unread capacity).map f :=
  segment_map f capacity _ _ _

theorem exec_map (capacity : Nat) (access : QueueAccess α) (channel : Channel α) :
    (channel.map f).exec capacity (access.map f) =
      (access.mapResponse f (channel.exec capacity access).1,
        (channel.exec capacity access).2.map f) := by
  cases access with
  | storeCell index value =>
      have stored : Function.update (fun other => f (channel.queue.cells other)) index (f value) =
          fun other => f (Function.update channel.queue.cells index value other) := by
        funext other
        exact (Function.apply_update (fun _ => f) channel.queue.cells index value other).symm
      exact Prod.ext rfl (congrArg (fun cells => ({ channel.map f with
        queue := { (channel.map f).queue with cells := cells } } : Channel β)) stored)
  | storeWritten cursor =>
      refine Prod.ext rfl ?_
      unfold exec map
      dsimp only
      rw [List.map_append, ← segment_map]
      rfl
  | advanceRead cursor value =>
      refine Prod.ext rfl ?_
      unfold exec map
      dsimp only
      rw [List.map_append]
      rfl
  | discardTo cursor =>
      have dropped : (channel.consumption ++ [Consumption.dropped channel.snapshot
            (Queue.segment capacity channel.queue.cells channel.queue.read
              (distance capacity cursor channel.queue.read))]).map (Consumption.map f) =
          (channel.map f).consumption ++ [Consumption.dropped channel.snapshot
            (Queue.segment capacity (fun index => f (channel.queue.cells index))
              channel.queue.read (distance capacity cursor channel.queue.read))] := by
        rw [List.map_append, segment_map f]
        rfl
      exact Prod.ext rfl (congrArg (fun consumption => ({ channel.map f with
        queue := { (channel.map f).queue with read := cursor }
        consumption := consumption } : Channel β)) dropped.symm)
  | snapshotWritten =>
      exact Prod.ext rfl (congrArg (fun snapshot => ({ channel.map f with
        snapshot := snapshot } : Channel β)) (List.length_map f))
  | loadWritten | loadRead | loadCell index => rfl

end Channel

section Methods

variable {Op Op' : Type} {Resp : Op → Type} {Resp' : Op' → Type} {σ σ' : Type}
  {exec : Semantics Resp σ} {exec' : Semantics Resp' σ'}

/-- One host performs the accesses of its queue as the other one does on the images. -/
structure Port.Mirrored (mirror : Mirror exec exec') (port : Port Resp α) (port' : Port Resp' β) :
    Prop where
  perform : ∀ access : QueueAccess α, Program.Mirrors mirror
    (fun response image => image = access.mapResponse f response) (port.perform access)
    (port'.perform (access.map f))

namespace Port.Mirrored

variable {f} {mirror : Mirror exec exec'} {port : Port Resp α} {port' : Port Resp' β}
  (ports : Port.Mirrored f mirror port port') (capacity : Nat)

include ports

theorem take : Program.Mirrors mirror (fun value image => image = value.map f)
    (port.take capacity) (port'.take capacity) := by
  refine (ports.perform .loadRead).bind ?_
  rintro _ (read : Nat) rfl
  refine (ports.perform .loadWritten).bind ?_
  rintro _ (written : Nat) rfl
  apply Program.Mirrors.ite Iff.rfl
  · exact fun _ => .done rfl
  intro _
  refine (ports.perform (.loadCell (read % capacity))).bind ?_
  rintro value _ rfl
  refine (ports.perform (.advanceRead ((read + 1) % (capacity * 2)) value)).bind ?_
  exact fun _ _ _ => .done rfl

theorem occupied : Program.Mirrors mirror (fun count image => image = count)
    (port.occupied capacity) (port'.occupied capacity) := by
  refine (ports.perform .loadWritten).bind ?_
  rintro _ (written : Nat) rfl
  refine (ports.perform .loadRead).bind ?_
  rintro _ (read : Nat) rfl
  exact .done rfl

theorem discard : Program.Mirrors mirror (fun _ _ => True) port.discard port'.discard := by
  refine (ports.perform .snapshotWritten).bind ?_
  rintro _ (written : Nat) rfl
  exact (ports.perform (.discardTo written)).mono fun _ _ _ => trivial

theorem fill (values : List α) (written : Nat) :
    Program.Mirrors mirror (fun cursor image => image = cursor)
      (port.fill capacity values written) (port'.fill capacity (values.map f) written) := by
  induction values generalizing written with
  | nil => exact .done rfl
  | cons value values ih =>
      refine (ports.perform (.storeCell (written % capacity) value)).bind ?_
      exact fun _ _ _ => ih _

theorem append (values : List α) : Program.Mirrors mirror (fun _ _ => True)
    (port.append capacity values) (port'.append capacity (values.map f)) := by
  refine (ports.perform .loadWritten).bind ?_
  rintro _ (written : Nat) rfl
  refine (ports.fill capacity values written).bind ?_
  rintro _ (cursor : Nat) rfl
  exact (ports.perform (.storeWritten cursor)).mono fun _ _ _ => trivial

end Port.Mirrored

end Methods

end TwoLapQueue
