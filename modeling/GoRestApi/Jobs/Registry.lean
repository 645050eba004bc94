/-
GoRestApi.Jobs.Registry — the worker pool of `internal/jobs/registry.go`, and
the system it makes with the in-memory queue.

A worker is where its goroutine is in `workerLoop` or in `runJob`. The states
are the same for every `Queue`; `ω` is for the points inside a method of the
queue at which the worker can be found, and `κ` for what it carries while it
has a job.

The system over `memoryQueue` keeps four lists of history that no step reads:
the jobs whose `Enqueue` returned nil, the jobs whose handler returned nil,
and, one entry per attempt, the attempts that were started and those that
failed, each as the job's ID and the value of its `Attempts` field.
-/
import GoRestApi.Jobs.Queue
import GoRestApi.Lts.Run
import Mathlib.Tactic.Simps.Basic

namespace GoRestApi.Jobs

open Go

/-! ## The registry -/

/-- `Start`: how many workers are started. -/
def startedWorkers (workers : Int) : Nat := (if workers ≤ 0 then 1 else workers).toNat

/-- The job `Registry.Enqueue` makes. -/
def newJob (newID : String) (now now' : Time) (jobType : String) (payload : List UInt8) : Job :=
  { Job.zero with
    id := newID, type := jobType, payload := payload, maxRetries := 2
    enqueuedAt := now, runAfter := now' }

/-- `errNoHandler{jobType}.Error()`. -/
def errNoHandler (jobType : String) : String := "no handler for job type " ++ jobType

/-- `job.Attempts++`. -/
def Job.attempt (j : Job) : Job := { j with attempts := j.attempts + 1 }

/-- The retry limit as `runJob` tests it after a failed attempt: give the job
up, or `Nack` it. -/
def Job.GivenUp (j : Job) : Prop := j.attempts > j.maxRetries

instance (j : Job) : Decidable j.GivenUp := inferInstanceAs (Decidable (_ > _))

/-- Where a worker is. -/
inductive WorkerPc (ω κ : Type) where
  | top
  | dequeuing
  | inQueue (w : ω)
  | got (j : κ)
  | handling (j : κ)
  | failing (j : κ) (err : String)
  | succeeded (j : κ)
  | returned
  deriving DecidableEq, Repr

/-- A question about the failed job a worker has in hand. -/
instance WorkerPc.decidableFailing {ω κ : Type} (Q : κ → String → Prop)
    [∀ j err, Decidable (Q j err)] :
    (p : WorkerPc ω κ) → Decidable (∀ j err, p = .failing j err → Q j err)
  | .failing j err =>
      decidable_of_iff (Q j err) ⟨fun h _ _ he => by cases he; exact h, fun h => h j err rfl⟩
  | .top | .dequeuing | .inQueue _ | .got _ | .handling _ | .succeeded _ | .returned =>
      isTrue (fun _ _ h => by cases h)

/-- `workerLoop` from the return of `Dequeue` to the call of `runJob`: the job
it runs, or `none` when the worker returns. -/
def Registry.onDequeue (r : DequeueReply) : Option Job :=
  match r.err with
  | some _ => none
  | none => if r.ok then some r.job else none

/-! ## The system over the in-memory queue -/

/-- A worker of the in-memory system; inside `Dequeue` it sleeps until the
`RunAfter` of the job it put back. -/
abbrev MemWorker := WorkerPc Time Job

/-- `n` workers over one `memoryQueue` and one `memoryDeadLetter`. -/
structure MemJobs (n : Nat) where
  queue : MemoryQueue
  dead : List DeadLetterEntry
  /-- the job types with a registered handler -/
  handlers : List String
  pc : Fin n → MemWorker
  /-- the context of the workers has been cancelled -/
  cancelled : Bool
  accepted : List Job
  completed : List Job
  tried : List (String × Int)
  failed : List (String × Int)

/-- The steps of the system. `handled` is the return of `Handle`. -/
inductive MemAct (n : Nat) where
  | enqueue (job : Job)
  | register (jobType : String)
  | cancel
  | close
  | loopHead (w : Fin n)
  | dequeue (w : Fin n) (now : Time)
  | wake (w : Fin n) (now : Time)
  | wakeCancelled (w : Fin n)
  | findHandler (w : Fin n)
  | handled (w : Fin n) (err : Option String)
  | ack (w : Fin n)
  | settle (w : Fin n) (now : Time)
  deriving DecidableEq, Repr

namespace MemJobs

variable {n : Nat}

def init : MemJobs n where
  queue := .new
  dead := []
  handlers := []
  pc := fun _ => .top
  cancelled := false
  accepted := []
  completed := []
  tried := []
  failed := []

@[simps pc]
def setPc (s : MemJobs n) (w : Fin n) (p : MemWorker) : MemJobs n :=
  { s with pc := Function.update s.pc w p }

def step (s : MemJobs n) : MemAct n → Option (MemJobs n)
  | .enqueue job =>
    match s.queue.enqueue job with
    | (_, some _) => some s
    | (q, none) => some { s with queue := q, accepted := s.accepted ++ [job] }
  | .register jobType => some { s with handlers := jobType :: s.handlers }
  | .cancel => some { s with cancelled := true }
  | .close => some { s with queue := s.queue.close }
  | .loopHead w =>
    match s.pc w with
    | .top => some (s.setPc w (if s.cancelled then .returned else .dequeuing))
    | _ => none
  | .dequeue w now =>
    match s.pc w with
    | .dequeuing =>
      match s.queue.dequeue now with
      | .waits => none
      | .sleeps q wakeAt => some { s.setPc w (.inQueue wakeAt) with queue := q }
      | .answers q r =>
        some { s.setPc w
            (match Registry.onDequeue r with
              | some job => .got job
              | none => .returned) with queue := q }
    | _ => none
  | .wake w now =>
    -- `time.After(time.Until(job.RunAfter))` fires: back to the loop of `Dequeue`
    match s.pc w with
    | .inQueue wakeAt => if wakeAt ≤ now then some (s.setPc w .dequeuing) else none
    | _ => none
  | .wakeCancelled w =>
    match s.pc w with
    | .inQueue _ =>
      if s.cancelled then
        some (s.setPc w
          (match Registry.onDequeue .notOk with
            | some job => .got job
            | none => .returned))
      else none
    | _ => none
  | .findHandler w =>
    match s.pc w with
    | .got job =>
      let job' := job.attempt
      if job.type ∈ s.handlers then
        some { s.setPc w (.handling job') with tried := s.tried ++ [(job'.id, job'.attempts)] }
      else
        some { s.setPc w (.failing job' (errNoHandler job.type)) with
          tried := s.tried ++ [(job'.id, job'.attempts)]
          failed := s.failed ++ [(job'.id, job'.attempts)] }
    | _ => none
  | .handled w err =>
    match s.pc w with
    | .handling job =>
      match err with
      | none => some { s.setPc w (.succeeded job) with completed := s.completed ++ [job] }
      | some err =>
        some { s.setPc w (.failing job err) with
          failed := s.failed ++ [(job.id, job.attempts)] }
    | _ => none
  | .ack w =>
    -- `memoryQueue.Ack` does nothing
    match s.pc w with
    | .succeeded _ => some (s.setPc w .top)
    | _ => none
  | .settle w now =>
    match s.pc w with
    | .failing job err =>
      if job.GivenUp then
        some { s.setPc w .top with dead := s.dead ++ [.of job err] }
      else some { s.setPc w .top with queue := (s.queue.nack now job err).1 }
    | _ => none

end MemJobs

end GoRestApi.Jobs
