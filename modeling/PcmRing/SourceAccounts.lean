import PcmRing.RenderRules

/-!
# Source accounts of the consumer

Whatever the converter answers, the consumer's counts stay tied to the FIFO:
what was taken is accepted or waits in the workspace, zero extension starts only
behind an exhausted boundary, and a cached batch never reaches past what the
converter accepted.  `slack` is one while a slot was dropped by a fault that the
render has not reported yet.
-/

namespace PcmRing

open AtomicProgram TwoLapQueue

variable {F S W : Type}

structure Accounts (geometry : Geometry) (slack : Nat) (state : ConsumerState F S W)
    (ring : Ring F S W) : Prop where
  pcm : ring.pcm.Sound geometry.capacity
  mutes : ring.mutes.Sound mailboxQueue
  taken_le : ring.ledger.streamStart + state.sourceTaken ≤ ring.pcm.passed.length
  dropped_le : ring.pcm.passed.length ≤
    ring.ledger.streamStart + state.sourceTaken + ring.ledger.errors + slack
  unpadded : state.inputPadding = false →
    state.sourceAccepted + state.inputPending = state.sourceTaken ∧ state.paddingAccepted = 0
  padded : state.inputPadding = true → state.sourceAccepted = state.sourceTaken ∧
    state.finite.isSome ∧ ring.pcm.unread geometry.capacity = []
  cached : state.outputPending ≠ 0 →
    state.outputOffset + state.outputPending = state.cacheCount ∧
      state.cacheStart ≤ state.cacheEnd ∧
      state.cacheEnd ≤ (state.converterAccepted : Int) * frameUnit
  boundary : ∀ boundary ∈ state.finite, FinishPending ring.finish ∧
    boundary.token = ring.finish / 4 ∧
    state.sourceTaken + (ring.pcm.unread geometry.capacity).length ≤ boundary.stop ∧
    boundary.stop ≤ state.sourceTaken + (ring.pcm.unread geometry.capacity).length + slack
  released : ring.ledger.released +
    (state.finite.bind Finite.plcRemaining).getD geometry.lookahead = geometry.lookahead
  awake : state.finite.isSome → state.quiet = false

namespace Accounts

variable {geometry : Geometry} {slack : Nat} {state : ConsumerState F S W} {ring : Ring F S W}

theorem stable {shape : List (SourceSample F) → List SlotNote → Prop} {after : Ring F S W}
    (accounts : Accounts geometry slack state ring)
    (moves : ProducerMoves geometry shape ring after) : Accounts geometry slack state after := by
  have passedEq := moves.passed_eq accounts.pcm
  have fixed (boundary : Finite) (member : boundary ∈ state.finite) :
      after.finish = ring.finish ∧
        after.pcm.unread geometry.capacity = ring.pcm.unread geometry.capacity :=
    have pending := (accounts.boundary boundary member).1
    ⟨moves.finish pending, moves.unread_fixed accounts.pcm pending⟩
  refine
    { accounts with
      pcm := (moves.pcm accounts.pcm).1
      mutes := (moves.mutes accounts.mutes).1
      taken_le := ?_, dropped_le := ?_, padded := fun padding => ?_
      boundary := fun boundary member => ?_, released := ?_ }
  · rw [moves.streamStart_eq, passedEq]
    exact accounts.taken_le
  · rw [moves.streamStart_eq, passedEq, moves.errors_eq]
    exact accounts.dropped_le
  · obtain ⟨accepted, pending, empty⟩ := accounts.padded padding
    obtain ⟨boundary, member⟩ := Option.isSome_iff_exists.mp pending
    exact ⟨accepted, pending, (fixed boundary member).2.trans empty⟩
  · rw [(fixed boundary member).1, (fixed boundary member).2]
    exact accounts.boundary boundary member
  · rw [moves.released_eq]
    exact accounts.released

theorem mono {more : Nat} (accounts : Accounts geometry slack state ring)
    (le : slack ≤ more) : Accounts geometry more state ring :=
  { accounts with
    dropped_le := Nat.le_trans accounts.dropped_le (Nat.add_le_add_left le _)
    boundary := fun boundary member => by
      obtain ⟨pending, token, low, high⟩ := accounts.boundary boundary member
      exact ⟨pending, token, low, Nat.le_trans high (Nat.add_le_add_left le _)⟩ }

theorem makeInputSpace (accounts : Accounts geometry slack state ring) (additional : Nat) :
    Accounts geometry slack (state.makeInputSpace additional geometry.capacity) ring := by
  unfold ConsumerState.makeInputSpace
  split
  · exact accounts
  · exact { accounts with }

theorem fence (accounts : Accounts geometry slack state ring) (stamp : Option Stamp) :
    Accounts geometry slack (state.fence stamp).2 ring := by
  rcases state.fence_cases stamp with
    ⟨_, fenced⟩ | ⟨mark, _, _, fenced⟩ | ⟨mark, _, _, fenced⟩ <;> rw [fenced]
  · exact accounts
  · exact { accounts with }
  · exact { accounts with }

/-- A taken slot that is dropped is owed a report. -/
theorem drop {slot : SourceSample F} {rest : List (SourceSample F)}
    (accounts : Accounts geometry 0 state ring) (unpadded : state.inputPadding = false)
    (unreadEq : ring.pcm.unread geometry.capacity = slot :: rest) :
    Accounts geometry 1 state (takeSlot geometry slot ring) := by
  have passedEq : (takeSlot geometry slot ring).pcm.passed.length =
      ring.pcm.passed.length + 1 := by
    rw [takeSlot_passed, List.length_append, List.length_singleton]
  have restEq := takeSlot_unread accounts.pcm unreadEq
  refine
    { accounts with
      pcm := takeSlot_sound accounts.pcm unreadEq
      taken_le := ?_, dropped_le := ?_
      padded := fun padding => (Bool.noConfusion (unpadded.symm.trans padding))
      boundary := fun boundary member => ?_ }
  · rw [passedEq]
    exact Nat.le_succ_of_le accounts.taken_le
  · rw [passedEq]
    exact Nat.succ_le_succ accounts.dropped_le
  · obtain ⟨pending, token, low, high⟩ := accounts.boundary boundary member
    rw [unreadEq, List.length_cons] at low high
    rw [restEq]
    exact ⟨pending, token, by omega, by omega⟩

theorem keep {slot : SourceSample F} {rest : List (SourceSample F)}
    (accounts : Accounts geometry 0 state ring) (unpadded : state.inputPadding = false)
    (unreadEq : ring.pcm.unread geometry.capacity = slot :: rest) (gaps : List GapSpan)
    (pcm : F) :
    Accounts geometry 0 ({ state with gaps := gaps }.appendInput pcm)
      (takeSlot geometry slot ring) := by
  have dropped := accounts.drop unpadded unreadEq
  have passedEq : (takeSlot geometry slot ring).pcm.passed.length =
      ring.pcm.passed.length + 1 := by
    rw [takeSlot_passed, List.length_append, List.length_singleton]
  refine
    { dropped with
      taken_le := ?_, dropped_le := ?_, unpadded := fun _ => ?_, cached := accounts.cached
      padded := fun padding => (Bool.noConfusion (unpadded.symm.trans padding))
      boundary := fun boundary member => ?_ }
  · rw [passedEq]
    exact Nat.succ_le_succ accounts.taken_le
  · have bound := dropped.dropped_le
    simp only [ConsumerState.appendInput]
    omega
  · obtain ⟨sum, none⟩ := accounts.unpadded unpadded
    exact ⟨congrArg (· + 1) sum, none⟩
  · obtain ⟨pending, token, low, high⟩ := accounts.boundary boundary member
    rw [unreadEq, List.length_cons] at low high
    rw [takeSlot_unread accounts.pcm unreadEq]
    simp only [ConsumerState.appendInput]
    exact ⟨pending, token, by omega, by omega⟩

theorem fence_inputPadding (state : ConsumerState F S W) (stamp : Option Stamp) :
    (state.fence stamp).2.inputPadding = state.inputPadding := by
  rcases state.fence_cases stamp with
    ⟨_, fenced⟩ | ⟨mark, _, _, fenced⟩ | ⟨mark, _, _, fenced⟩ <;> rw [fenced]

theorem acceptSource {slot : SourceSample F} {rest : List (SourceSample F)}
    (accounts : Accounts geometry 0 state ring) (unpadded : state.inputPadding = false)
    (unreadEq : ring.pcm.unread geometry.capacity = slot :: rest) :
    Accounts geometry
      (if (state.acceptSource geometry.gapCapacity slot).1 then 0 else 1)
      (state.acceptSource geometry.gapCapacity slot).2 (takeSlot geometry slot ring) := by
  have fenced := accounts.fence slot.stamp
  have still := (fence_inputPadding state slot.stamp).trans unpadded
  rcases state.acceptSource_cases geometry.gapCapacity slot with
    ⟨gaps, _, _, accepted⟩ | ⟨_, accepted⟩ | ⟨_, _, _, accepted⟩ <;> rw [accepted]
  · exact fenced.keep still unreadEq gaps slot.pcm
  · exact { fenced.drop still unreadEq with }
  · exact { fenced.drop still unreadEq with }

/-- Zero extension starts when everything taken was accepted and nothing is left
to take. -/
theorem padInput [Zero F] (accounts : Accounts geometry slack state ring)
    (exhausted : 0 < state.inputPending ∨ state.inputPadding = true ∨
      ring.pcm.unread geometry.capacity = []) (quantum : Nat) :
    Accounts geometry slack (state.padInput quantum) ring := by
  unfold ConsumerState.padInput
  split
  · rename_i padding
    obtain ⟨empty, pending⟩ := padding
    have done : state.sourceAccepted = state.sourceTaken ∧
        ring.pcm.unread geometry.capacity = [] := by
      cases already : state.inputPadding with
      | true => exact ⟨(accounts.padded already).1, (accounts.padded already).2.2⟩
      | false =>
          have sum := (accounts.unpadded already).1
          rw [empty, Nat.add_zero] at sum
          refine ⟨sum, ?_⟩
          rcases exhausted with waiting | padding | empty'
          · omega
          · exact Bool.noConfusion (already.symm.trans padding)
          · exact empty'
    exact { accounts with
      unpadded := fun unpadded => Bool.noConfusion unpadded
      padded := fun _ => ⟨done.1, pending, done.2⟩ }
  · exact accounts

theorem consumeInput (accounts : Accounts geometry slack state ring) {used : Nat}
    (usedLe : used ≤ state.inputPending) :
    Accounts geometry slack (state.consumeInput used) ring := by
  refine
    { accounts with
      unpadded := fun unpadded => ?_, padded := fun padding => ?_
      cached := fun pending => ?_ }
  · obtain ⟨sum, none⟩ := accounts.unpadded unpadded
    change state.inputPadding = false at unpadded
    simp only [ConsumerState.consumeInput, unpadded, Bool.false_eq_true, if_false]
    exact ⟨by omega, none⟩
  · change state.inputPadding = true at padding
    simp only [ConsumerState.consumeInput, padding, if_true]
    exact accounts.padded padding
  · obtain ⟨count, order, reach⟩ := accounts.cached pending
    refine ⟨count, order, Int.le_trans reach ?_⟩
    rw [ConsumerState.converterAccepted_consumeInput]
    exact Int.mul_le_mul_of_nonneg_right (by omega) (by decide)

/-- A conversion keeps the accounts, whatever the converter answers. -/
theorem converts {quantum : Nat} {result : RefillResult} {converted : ConsumerState F S W}
    (accounts : Accounts geometry slack state ring) (refilling : state.Refilling)
    (ran : state.Converts geometry quantum result converted) :
    Accounts geometry slack converted ring ∧
      (result = .ready → converted.outputPending ≠ 0) := by
  cases ran with
  | rejected gaps missing converter =>
      exact ⟨{ accounts with }, fun ready => by cases ready⟩
  | unplaced gaps missing converter output used usedLe cacheStart cacheEnd fault cause =>
      have consumed := accounts.consumeInput usedLe
      refine ⟨{ consumed with cached := fun pending => ?_ }, fun ready => by cases ready⟩
      exact (pending refilling.2).elim
  | absorbed result stuck gaps missing converter output used usedLe =>
      have consumed := accounts.consumeInput usedLe
      exact ⟨{ consumed with cached := fun pending => (pending rfl).elim },
        fun ready => (stuck ready).elim⟩
  | generated gaps missing converter output used usedLe count positive countLe delay delay'
      delayNonneg delayNonneg' forward =>
      have consumed := accounts.consumeInput usedLe
      refine ⟨{ consumed with cached := fun _ => ⟨Nat.zero_add _, forward, ?_⟩ },
        fun _ => Nat.ne_of_gt positive⟩
      have accepted := state.converterAccepted_consumeInput used
      change ((state.converterAccepted + used : Nat) : Int) * frameUnit - delay' ≤
        ((state.consumeInput used).converterAccepted : Int) * frameUnit
      rw [accepted]
      omega

end Accounts

end PcmRing
