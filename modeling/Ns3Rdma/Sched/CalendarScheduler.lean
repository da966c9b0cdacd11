import Mathlib.Logic.Function.Basic
import Ns3Rdma.Sched.Scheduler

/-!
# The calendar scheduler

Events are filed by their time stamp in a ring of buckets, each of which covers a range of time
stamps in every year. The number of buckets and their width follow the number of events.
-/

namespace Ns3Rdma.Sched

structure CalendarScheduler where
  buckets : ℕ → List Event
  nBuckets : UInt32
  /-- The range of time stamps of a bucket. -/
  width : UInt64
  /-- The bucket of the last removal, the end of its range, and the time stamp. -/
  lastBucket : UInt32
  bucketTop : UInt64
  lastPrio : UInt64
  qSize : UInt32

namespace CalendarScheduler

/-- `Hash`. -/
def hash (s : CalendarScheduler) (ts : UInt64) : UInt32 :=
  (ts / s.width % s.nBuckets.toUInt64).toUInt32

/-- The current time stamp, with its bucket and the end of its range. -/
def moveTo (s : CalendarScheduler) (prio : UInt64) : CalendarScheduler :=
  { s with
    lastPrio := prio
    lastBucket := s.hash prio
    bucketTop := (prio / s.width + 1) * s.width }

/-- `Init`, with new buckets. -/
def init (s : CalendarScheduler) (nBuckets : UInt32) (width startPrio : UInt64) :
    CalendarScheduler :=
  { s with buckets := fun _ => [], nBuckets := nBuckets, width := width }.moveTo startPrio

/-- The constructor. -/
def create : CalendarScheduler :=
  { buckets := fun _ => []
    nBuckets := 0
    width := 0
    lastBucket := 0
    bucketTop := 0
    lastPrio := 0
    qSize := 0 : CalendarScheduler }.init 2 1 0

def isEmpty (s : CalendarScheduler) : Bool := s.qSize = 0

/-- `DoInsert`: before the first event of the bucket that is greater. -/
def doInsert (s : CalendarScheduler) (ev : Event) : CalendarScheduler :=
  let bucket := (s.hash ev.key.ts).toNat
  { s with
    buckets := Function.update s.buckets bucket (ListScheduler.insert ev (s.buckets bucket)) }

/-! ## The scan over the buckets -/

/-- What the loop of `PeekNext` and `DoRemoveNext` finds: an event in its own year, or the least of
the first events of all buckets. -/
inductive Scan (α : Type)
  | found (bucket : UInt32) (bucketTop : UInt64) (next : Event)
  | direct (minKey : EventKey) (min : α)

/-- The loop, which notes `note i next` with the least key. A round for every bucket at most. -/
def scanLoop {α : Type} (s : CalendarScheduler) (note : UInt32 → Event → α) :
    ℕ → UInt32 → UInt64 → EventKey → α → Scan α
  | 0, _, _, minKey, min => .direct minKey min
  | fuel + 1, i, bucketTop, minKey, min =>
      match s.buckets i.toNat with
      | [] =>
          if (i + 1) % s.nBuckets = s.lastBucket then .direct minKey min
          else scanLoop s note fuel ((i + 1) % s.nBuckets) (bucketTop + s.width) minKey min
      | next :: _ =>
          if next.key.ts < bucketTop then .found i bucketTop next
          else
            let least := if next.key.lt minKey then (next.key, note i next) else (minKey, min)
            if (i + 1) % s.nBuckets = s.lastBucket then .direct least.1 least.2
            else
              scanLoop s note fuel ((i + 1) % s.nBuckets) (bucketTop + s.width) least.1 least.2

def scan {α : Type} (s : CalendarScheduler) (note : UInt32 → Event → α) (minKey : EventKey)
    (min : α) : Scan α :=
  scanLoop s note s.nBuckets.toNat s.lastBucket s.bucketTop minKey min

/-- `PeekNext`, or `none` when its assertion fails. -/
def peekNext (s : CalendarScheduler) : Option Event :=
  if s.isEmpty then none
  else
    let minEvent : Event := ⟨0, ⟨18446744073709551615, 4294967295, 0⟩⟩
    match s.scan (fun _ next => next) minEvent.key minEvent with
    | .found _ _ next => some next
    | .direct _ minEvent => some minEvent

/-- `front` and `pop_front` of a bucket. -/
def popFront (s : CalendarScheduler) (bucket : UInt32) : Option (Event × CalendarScheduler) :=
  match s.buckets bucket.toNat with
  | [] => none
  | next :: rest =>
      some (next, { s with buckets := Function.update s.buckets bucket.toNat rest })

/-- `DoRemoveNext`, or `none` when its assertion fails or no bucket is found. -/
def doRemoveNext (s : CalendarScheduler) : Option (Event × CalendarScheduler) :=
  if s.isEmpty then none
  else
    match s.scan (fun i _ => some i) ⟨18446744073709551615, 0, 4294967295⟩ none with
    | .found i bucketTop next =>
        { s with lastBucket := i, lastPrio := next.key.ts, bucketTop := bucketTop }.popFront i
    | .direct minKey minBucket => minBucket.bind fun i => (s.moveTo minKey.ts).popFront i

/-! ## The number and the width of the buckets -/

/-- The time between neighbours. -/
def separations (samples : List Event) : List UInt64 :=
  samples.tail.zipWith (fun next cur => next.key.ts - cur.key.ts) samples

/-- The width that `CalculateNewWidth` takes from its samples. -/
def widthOf (samples : List Event) (nSamples : UInt32) : UInt32 :=
  let twiceAvg := (separations samples).sum / (nSamples - 1).toUInt64 * 2
  let totalSeparation := ((separations samples).filter fun diff => diff ≤ twiceAvg).sum * 3
  (max totalSeparation 1).toUInt32

def numberOfSamples (qSize : UInt32) : UInt32 :=
  let nSamples := if qSize ≤ 5 then qSize else 5 + qSize / 10
  if 25 < nSamples then 25 else nSamples

/-- Take the next `n` events. -/
def gather : ℕ → CalendarScheduler → Option (List Event × CalendarScheduler)
  | 0, s => some ([], s)
  | n + 1, s =>
      s.doRemoveNext.bind fun r => (gather n r.2).map fun rest => (r.1 :: rest.1, rest.2)

/-- `CalculateNewWidth`: samples are taken out and put back, and the state is restored. -/
def calculateNewWidth (s : CalendarScheduler) : Option (CalendarScheduler × UInt32) :=
  if s.qSize < 2 then some (s, 1)
  else
    (gather (numberOfSamples s.qSize).toNat s).map fun r =>
      ({ r.1.foldl doInsert r.2 with
          lastBucket := s.lastBucket
          bucketTop := s.bucketTop
          lastPrio := s.lastPrio },
        widthOf r.1 (numberOfSamples s.qSize))

/-- The events in the order of the buckets. -/
def contents (s : CalendarScheduler) : List Event :=
  (List.range s.nBuckets.toNat).flatMap s.buckets

def doResize (s : CalendarScheduler) (newSize newWidth : UInt32) : CalendarScheduler :=
  s.contents.foldl doInsert (s.init newSize newWidth.toUInt64 s.lastPrio)

def resize (s : CalendarScheduler) (newSize : UInt32) : Option CalendarScheduler :=
  s.calculateNewWidth.map fun r => r.1.doResize newSize r.2

/-- The condition of `ResizeUp`. -/
def Grows (s : CalendarScheduler) : Prop := s.nBuckets * 2 < s.qSize ∧ s.nBuckets < 32768

/-- The condition of `ResizeDown`. -/
def Shrinks (s : CalendarScheduler) : Prop := s.qSize < s.nBuckets / 2

instance (s : CalendarScheduler) : Decidable s.Grows := inferInstanceAs (Decidable (_ ∧ _))

instance (s : CalendarScheduler) : Decidable s.Shrinks := inferInstanceAs (Decidable (_ < _))

def resizeUp (s : CalendarScheduler) : Option CalendarScheduler :=
  if s.Grows then s.resize (s.nBuckets * 2) else some s

def resizeDown (s : CalendarScheduler) : Option CalendarScheduler :=
  if s.Shrinks then s.resize (s.nBuckets / 2) else some s

/-! ## The calls -/

/-- `Insert` up to the call of `ResizeUp`. -/
def added (s : CalendarScheduler) (ev : Event) : CalendarScheduler :=
  { s.doInsert ev with qSize := s.qSize + 1 }

/-- A removal up to the call of `ResizeDown`. -/
def taken (s : CalendarScheduler) : CalendarScheduler := { s with qSize := s.qSize - 1 }

/-- The loop of `Remove` over the bucket of the event. -/
def erase (s : CalendarScheduler) (ev : Event) : Option CalendarScheduler :=
  let bucket := (s.hash ev.key.ts).toNat
  (ListScheduler.remove ev (s.buckets bucket)).map fun rest =>
    { s with buckets := Function.update s.buckets bucket rest }

def insert (s : CalendarScheduler) (ev : Event) : Option CalendarScheduler :=
  (s.added ev).resizeUp

def removeNext (s : CalendarScheduler) : Option (Event × CalendarScheduler) :=
  if s.isEmpty then none
  else s.doRemoveNext.bind fun r => r.2.taken.resizeDown.map fun s => (r.1, s)

def remove (s : CalendarScheduler) (ev : Event) : Option CalendarScheduler :=
  if s.isEmpty then none else (s.erase ev).bind fun s => s.taken.resizeDown

end CalendarScheduler

end Ns3Rdma.Sched
