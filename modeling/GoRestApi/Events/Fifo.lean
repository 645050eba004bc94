/-
GoRestApi.Events.Fifo — concurrent calls of the in-memory outbox.

Producers, consumers and closers are calls, the elements of a type `ι`. The
mutex makes what a call does under it one step; `Enqueue` fills in its
defaults before that, in a step of its own. The condition variable is
explicit: `waiters` is its notify list, in the order of the `Wait`s; `Signal`
wakes the first of them and `Broadcast` all. A consumer that was woken takes
the lock again and looks again, and another one may have been faster.

`accepted` and `returned` are history: the events that were appended, and the
events that `Dequeue` returned with `ok = true`, each with its call. No step
reads them.
-/
import GoRestApi.Events.Outbox
import GoRestApi.Go.Strconv
import GoRestApi.Lts.Run
import Mathlib.Tactic.Simps.Basic

namespace GoRestApi.Events

open Go

/-! ## `newID` -/

/-- `hex.EncodeToString`. -/
def encodeToString (b : List UInt8) : String :=
  String.ofList (b.flatMap fun x => [Nat.digitChar (x.toNat / 16), Nat.digitChar (x.toNat % 16)])

/-- What `newID` reads: eight random bytes, or the clock if there are none. -/
inductive IDSource where
  | random (b : Vector UInt8 8)
  | unixNano (t : Int64)

/-- `newID`. -/
def newID : IDSource → String
  | .random b => encodeToString b.toList
  | .unixNano t => "evt-" ++ Strconv.formatInt t

/-! ## The calls -/

inductive OutboxCall where
  | enqueue (e : Event)
  | dequeue
  | len
  | close
  deriving DecidableEq, Repr

/-- What a call returns. -/
inductive OutboxReply where
  | enqueued (err : Option OutboxError)
  | dequeued (r : DequeueReply)
  | length (n : Nat)
  | closed
  deriving DecidableEq, Repr

/-- Where a call is: not yet under the lock, with the defaults filled in, in
`Wait`, woken from it, or back. -/
inductive OutboxPc where
  | start
  | filled (newID : String) (now : Time)
  | waiting
  | woken
  | returned (r : OutboxReply)
  deriving DecidableEq, Repr

/-- What a call has returned, if it has. -/
def OutboxPc.reply : OutboxPc → Option OutboxReply
  | .returned r => some r
  | _ => none

/-- The event that was returned with `ok = true`. -/
def OutboxReply.taken : OutboxReply → Option Event
  | .dequeued ⟨e, true, none⟩ => some e
  | _ => none

structure FifoSystem (ι : Type) where
  outbox : InMemoryOutbox
  waiters : List ι
  pc : ι → OutboxPc
  accepted : List (ι × Event)
  returned : List (ι × Event)

inductive FifoAct (ι : Type) where
  | fill (i : ι) (src : IDSource) (now : Time)
  | enqueue (i : ι)
  | dequeue (i : ι)
  | len (i : ι)
  | close (i : ι)

namespace FifoSystem

variable {ι : Type} [DecidableEq ι]

def init : FifoSystem ι := ⟨.new, [], fun _ => .start, [], []⟩

@[simps pc]
def setPc (s : FifoSystem ι) (i : ι) (p : OutboxPc) : FifoSystem ι :=
  { s with pc := Function.update s.pc i p }

/-- The first `k` waiters are woken. -/
def wake (s : FifoSystem ι) (k : Nat) : FifoSystem ι :=
  { s with
    pc := fun i => if i ∈ s.waiters.take k then .woken else s.pc i
    waiters := s.waiters.drop k }

def signal (s : FifoSystem ι) : FifoSystem ι := s.wake 1

def broadcast (s : FifoSystem ι) : FifoSystem ι := s.wake s.waiters.length

def step (calls : ι → OutboxCall) (s : FifoSystem ι) : FifoAct ι → Option (FifoSystem ι)
  | .fill i src now =>
    match s.pc i, calls i with
    | .start, .enqueue _ => some (s.setPc i (.filled (newID src) now))
    | _, _ => none
  | .enqueue i =>
    match s.pc i, calls i with
    | .filled id now, .enqueue e =>
      match s.outbox.enqueue id now e with
      | (_, some err) => some (s.setPc i (.returned (.enqueued (some err))))
      | (o, none) =>
        some { s.signal.setPc i (.returned (.enqueued none)) with
          outbox := o
          accepted := s.accepted ++ [(i, e.withDefaults id now)] }
    | _, _ => none
  | .dequeue i =>
    if (s.pc i = .start ∧ calls i = .dequeue) ∨ s.pc i = .woken then
      match s.outbox.dequeue with
      | none => some { s.setPc i .waiting with waiters := s.waiters ++ [i] }
      | some (o, r) =>
        some { s.setPc i (.returned (.dequeued r)) with
          outbox := o
          returned := s.returned ++ if r.ok then [(i, r.event)] else [] }
    else none
  | .len i =>
    match s.pc i, calls i with
    | .start, .len => some (s.setPc i (.returned (.length s.outbox.len)))
    | _, _ => none
  | .close i =>
    match s.pc i, calls i with
    | .start, .close =>
      if s.outbox.closed then some (s.setPc i (.returned .closed))
      else some { s.broadcast.setPc i (.returned .closed) with outbox := s.outbox.close }
    | _, _ => none

end FifoSystem

end GoRestApi.Events
