/-
GoRestApi.Jobs.Queue — jobs, the in-memory queue and dead-letter list of
`internal/jobs/queue.go` and `deadletter.go`.

`MemoryQueue.dequeue` is one pass of the `for` loop of `Dequeue`, from
`q.mu.Lock()` to the point where the mutex is released: it answers the
caller, or it has put a delayed head back and the caller is to sleep, or the
queue is empty and the caller is left in `cond.Wait()`.

Counters (`Attempts`, `MaxRetries`) are unbounded integers: `Attempts` is
advanced once per execution of a handler. `backoff` computes in `int64`.
-/
import GoRestApi.Go.Time
import Mathlib.Data.Int.Init

namespace GoRestApi.Jobs

open Go

/-- `Job`. -/
structure Job where
  id : String
  type : String
  payload : List UInt8
  attempts : Int
  maxRetries : Int
  enqueuedAt : Time
  runAfter : Time
  lastError : String
  deriving DecidableEq, Repr

/-- `Job{}`. -/
def Job.zero : Job where
  id := ""
  type := ""
  payload := []
  attempts := 0
  maxRetries := 0
  enqueuedAt := Time.zero
  runAfter := Time.zero
  lastError := ""

/-- The errors of a queue: `ErrQueueClosed`, and the texts of the others. -/
inductive QueueError where
  | closed
  | other (msg : String)
  deriving DecidableEq, Repr

def QueueError.message : QueueError → String
  | .closed => "queue is closed"
  | .other msg => msg

/-- The three results of `Dequeue`. -/
structure DequeueReply where
  job : Job
  ok : Bool
  err : Option QueueError
  deriving DecidableEq, Repr

namespace DequeueReply

def found (j : Job) : DequeueReply := ⟨j, true, none⟩

def notOk : DequeueReply := ⟨Job.zero, false, none⟩

def failed (err : QueueError) : DequeueReply := ⟨Job.zero, false, some err⟩

end DequeueReply

/-! ## Backoff -/

/-- The value of an `int64` expression. -/
def wrapInt64 (x : Int) : Int := (Int64.ofInt x).toInt

/-- The loop of `backoff`: `n` iterations are left. -/
def backoffLoop : Nat → Duration → Duration
  | 0, base => base
  | n + 1, base =>
    let base := wrapInt64 (base * 2)
    if base > Time.minute then Time.minute else backoffLoop n base

/-- `for i := 1; i < attempt; i++` runs `attempt - 1` times, if at all. -/
def backoff (attempt : Int) : Duration :=
  backoffLoop (attempt - 1).toNat Time.second

/-! ## The in-memory queue -/

/-- The fields of `memoryQueue` its mutex guards. -/
structure MemoryQueue where
  items : List Job
  closed : Bool
  deriving DecidableEq, Repr

namespace MemoryQueue

def new : MemoryQueue := ⟨[], false⟩

def enqueue (q : MemoryQueue) (job : Job) : MemoryQueue × Option QueueError :=
  if q.closed then (q, some .closed)
  else ({ q with items := q.items ++ [job] }, none)

/-- How a pass of the loop of `Dequeue` ends. -/
inductive Pass where
  | answers (q : MemoryQueue) (r : DequeueReply)
  | sleeps (q : MemoryQueue) (wakeAt : Time)
  | waits
  deriving DecidableEq, Repr

def dequeue (q : MemoryQueue) (now : Time) : Pass :=
  if q.closed then .answers q .notOk
  else
    match q.items with
    | [] => .waits
    | job :: rest =>
      if job.runAfter > now then
        .sleeps { q with items := rest ++ [job] } job.runAfter
      else .answers { q with items := rest } (.found job)

/-- `Nack`. The retry limit is tested here once more. -/
def nack (q : MemoryQueue) (now : Time) (job : Job) (err : String) :
    MemoryQueue × Option QueueError :=
  let job := { job with lastError := err }
  if job.attempts > job.maxRetries then (q, none)
  else
    let job := { job with runAfter := now + backoff job.attempts }
    if q.closed then (q, some .closed)
    else ({ q with items := q.items ++ [job] }, none)

def len (q : MemoryQueue) : Nat := q.items.length

def close (q : MemoryQueue) : MemoryQueue := { q with closed := true }

end MemoryQueue

/-! ## Dead letters -/

/-- `DeadLetterEntry`. -/
structure DeadLetterEntry where
  job : Job
  lastErr : String
  at_ : Time
  deriving DecidableEq, Repr

/-- The entry both `Add` methods append. -/
def DeadLetterEntry.of (job : Job) (lastErr : String) : DeadLetterEntry :=
  ⟨job, lastErr, job.enqueuedAt⟩

end GoRestApi.Jobs
