import PcmRing.TwoLapMethods
import Mathlib.Order.Lattice

/-!
# Source mute intervals

The producer publishes mute intervals through a mailbox of its own, clipped to
the source positions it has accepted.  The consumer keeps their union in a
bounded history, sorted by generation and start, and asks it at the source
support of every emitted sample.
-/

namespace PcmRing

open AtomicProgram TwoLapQueue

/-- Maximum intervals admitted by one producer operation. -/
def maxSpans : Nat := 64

/-- Two maximum batches keep publication bounded without waiting on audio. -/
def mailboxQueue : Nat := maxSpans * 2

/-- Half-open absolute source interval `start..stop`. -/
structure Span where
  start : Nat
  stop : Nat
deriving DecidableEq

/-- One source sample's generation and absolute position. -/
structure Stamp where
  generation : Nat
  source : Nat
deriving DecidableEq

/-- Mailbox and history record including its source-generation fence; empty
records are never published. -/
structure Interval where
  generation : Nat
  span : Span
  nonempty : span.start < span.stop
deriving DecidableEq

/-- One output sample's conservative source support. -/
structure Position where
  generation : Nat
  low : Nat
  high : Nat
  ordered : low ≤ high
deriving DecidableEq

/-- The records of one publication: spans clipped to the accepted end, without
those that become empty. -/
def clippedIntervals (generation : Nat) (spans : List Span) (stop : Nat) : List Interval :=
  spans.filterMap fun span =>
    let clipped : Span := ⟨span.start, min span.stop stop⟩
    if kept : clipped.start < clipped.stop then some ⟨generation, clipped, kept⟩ else none

section Mailbox

variable {Op : Type} {Resp : Op → Type} (mailbox : Port Resp Interval)

/-- Sole producer: room left for records. -/
def mailboxFree : Program Resp Nat := do
  let occupied ← mailbox.occupied mailboxQueue
  return mailboxQueue - occupied

/-- One final store publishes the entire bounded batch. -/
def mailboxPublish (generation : Nat) (spans : List Span) (stop : Nat) : Program Resp Unit :=
  mailbox.append mailboxQueue (clippedIntervals generation spans stop)

/-- Sole consumer copies one published record before releasing its slot. -/
def mailboxPop : Program Resp (Option Interval) :=
  mailbox.take mailboxQueue

/-- A reset discards only records published before its acquired snapshot. -/
def mailboxReset : Program Resp Unit :=
  mailbox.discard

end Mailbox

/-- Consumer-owned union with a reserved number of entries. -/
structure History where
  entries : List Interval
  capacity : Nat
deriving DecidableEq

namespace History

/-- Reserve the bounded live-source interval budget. -/
def new (capacity : Nat) : History :=
  ⟨[], capacity⟩

/-- Discard interval state while retaining its prepared allocation. -/
def clear (history : History) : History :=
  { history with entries := [] }

/-- Two intervals of one generation overlap or touch. -/
def Touches (other interval : Interval) : Prop :=
  other.generation = interval.generation ∧ interval.span.start ≤ other.span.stop ∧
    other.span.start ≤ interval.span.stop

instance (other interval : Interval) : Decidable (Touches other interval) :=
  inferInstanceAs (Decidable (_ ∧ _ ∧ _))

/-- The smallest interval around two of one generation. -/
def join (other interval : Interval) : Interval where
  generation := interval.generation
  span := ⟨min interval.span.start other.span.start, max interval.span.stop other.span.stop⟩
  nonempty := lt_max_of_lt_left (min_lt_of_left_lt interval.nonempty)

/-- One scan removes every entry the growing interval touches. -/
def absorb (interval : Interval) : List Interval → Interval × List Interval
  | [] => (interval, [])
  | other :: rest =>
      if Touches other interval then absorb (join other interval) rest
      else ((absorb interval rest).1, other :: (absorb interval rest).2)

/-- Lexicographic order of a generation and a position. -/
def Precedes (generation start generation' start' : Nat) : Prop :=
  generation < generation' ∨ generation = generation' ∧ start < start'

instance (generation start generation' start' : Nat) :
    Decidable (Precedes generation start generation' start') :=
  inferInstanceAs (Decidable (_ ∨ _ ∧ _))

/-- Entries are in order, so a binary search for a partition point ends where
the entries stop preceding the key. -/
def precedingEntries (entries : List Interval) (generation start : Nat) : List Interval :=
  entries.takeWhile fun other =>
    Precedes other.generation other.span.start generation start

def followingEntries (entries : List Interval) (generation start : Nat) : List Interval :=
  entries.dropWhile fun other =>
    Precedes other.generation other.span.start generation start

/-- Merge a late or overlapping interval into the sorted union; `false` when
the reserved entries are used up. -/
def insert (interval : Interval) (history : History) : Bool × History :=
  let merged := (absorb interval history.entries).1
  let kept := (absorb interval history.entries).2
  if kept.length = history.capacity then
    (false, { history with entries := kept })
  else
    (true, { history with
      entries := precedingEntries kept merged.generation merged.span.start ++
        merged :: followingEntries kept merged.generation merged.span.start })

/-- Lookup at actual emitted source support, not FIFO occupancy. -/
def muted (history : History) (position : Option Position) : Bool :=
  match position with
  | none => false
  | some position =>
      -- Entries up to `(generation, high)` inclusive precede `(generation, high + 1)`.
      match (precedingEntries history.entries position.generation
        (position.high + 1)).getLast? with
      | none => false
      | some interval =>
          decide (interval.generation = position.generation ∧
            position.low < interval.span.stop)

/-- Retire only positions actually emitted after optional lookahead. -/
def retire (position : Option Position) (history : History) : History :=
  match position with
  | none => history
  | some position =>
      { history with
        entries := history.entries.dropWhile fun interval =>
          interval.generation ≠ position.generation ∨ interval.span.stop ≤ position.low }

end History

end PcmRing
