/-
GoRestApi.Handler.PasswordReset — concurrent `POST /auth/forgot-password` and
`POST /auth/reset-password` requests over one user store and one token store.

A step is one call of a handler that other requests can come in between:
`GetByEmail` and `Issue`, or the two halves of `Consume` and `UpdatePassword`.
The clock readings and the random tokens are in the actions. `evict` is the
server dropping a key, at any time.

The state has three histories, which no step reads: the tokens that were
issued, with the user and the expiry they were announced with; the calls of
`Consume` that returned ok; and the passwords that were changed.
-/
import GoRestApi.Handler.ResetTokens
import GoRestApi.Lts.Run
import Mathlib.Tactic.Simps.Basic

namespace GoRestApi.Handler.PasswordReset

open Go Store

inductive Req where
  | forgot (r : Request String)
  | reset (r : Request ResetPasswordRequest)

/-- Where a request is. `τ` is what `Consume` has taken out of the store. -/
inductive Pc (τ : Type) where
  | start
  | lookingUp (email : String)
  | issuing (user : User)
  | forgotDone (answer : Answer ForgotPasswordResponse)
  | consuming (input : ResetPasswordRequest)
  | checking (input : ResetPasswordRequest) (taken : τ)
  | updating (input : ResetPasswordRequest) (userID : Int64)
  | resetDone (reply : Reply)

/-- The status that a reset was answered with. -/
def Pc.status {τ : Type} : Pc τ → Option Nat
  | .resetDone reply => some reply.status
  | _ => none

structure Issued where
  token : String
  entry : ResetToken
  deriving DecidableEq, Repr

structure Consumed (ι : Type) where
  request : ι
  token : String
  userID : Int64
  now : Time
  deriving DecidableEq, Repr

structure Changed (ι : Type) where
  request : ι
  token : String
  userID : Int64
  deriving DecidableEq, Repr

structure State (ι σ τ : Type) where
  users : MemoryUserStore
  tokens : σ
  pc : ι → Pc τ
  issued : List Issued
  consumed : List (Consumed ι)
  changed : List (Changed ι)

inductive Act (ι : Type) where
  | begin (i : ι)
  | getByEmail (i : ι)
  | issue (i : ι) (token : String) (now : Time)
  | take (i : ι)
  | check (i : ι) (now : Time)
  | update (i : ι)
  | evict (key : String)
  deriving DecidableEq, Repr

namespace State

variable {ι σ τ : Type} [DecidableEq ι]

def init (users : MemoryUserStore) (tokens : σ) : State ι σ τ :=
  ⟨users, tokens, fun _ => .start, [], [], []⟩

@[simps pc]
def setPc (s : State ι σ τ) (i : ι) (p : Pc τ) : State ι σ τ :=
  { s with pc := Function.update s.pc i p }

def step (env : Env) (auth : AuthHandler) (resetTokenTTL : Duration) (ts : TokenStore σ τ)
    (reqs : ι → Req) (s : State ι σ τ) : Act ι → Option (State ι σ τ)
  | .begin i =>
    match s.pc i with
    | .start =>
      match reqs i with
      | .forgot r =>
        match AuthHandler.forgotInput env r with
        | .error reply => some (s.setPc i (.forgotDone (.error reply)))
        | .ok email => some (s.setPc i (.lookingUp email))
      | .reset r =>
        match AuthHandler.resetInput env r with
        | .error reply => some (s.setPc i (.resetDone reply))
        | .ok input => some (s.setPc i (.consuming input))
    | _ => none
  | .getByEmail i =>
    match s.pc i with
    | .lookingUp email =>
      match s.users.getByEmail email with
      | .error _ => some (s.setPc i (.forgotDone (AuthHandler.forgotAnswer none)))
      | .ok user => some (s.setPc i (.issuing user))
    | _ => none
  | .issue i token now =>
    match s.pc i with
    | .issuing user =>
      let userID := Int64.ofInt user.id
      match ts.issue s.tokens token now userID resetTokenTTL with
      | (tokens', token', expiresAt) =>
        some { s.setPc i (.forgotDone (AuthHandler.forgotAnswer (some (token', expiresAt)))) with
          tokens := tokens'
          issued := s.issued ++ [⟨token', userID, expiresAt⟩] }
    | _ => none
  | .take i =>
    match s.pc i with
    | .consuming input =>
      match ts.take s.tokens input.token with
      | (tokens', none) =>
        some { s.setPc i (.resetDone (auth.resetConsumed env s.users input none).2) with
          tokens := tokens' }
      | (tokens', some taken) => some { s.setPc i (.checking input taken) with tokens := tokens' }
    | _ => none
  | .check i now =>
    match s.pc i with
    | .checking input taken =>
      match ts.check taken now with
      | none => some (s.setPc i (.resetDone (auth.resetConsumed env s.users input none).2))
      | some userID =>
        some { s.setPc i (.updating input userID) with
          consumed := s.consumed ++ [⟨i, input.token, userID, now⟩] }
    | _ => none
  | .update i =>
    match s.pc i with
    | .updating input userID =>
      match auth.resetConsumed env s.users input (some userID) with
      | (users', reply) =>
        some { s.setPc i (.resetDone reply) with
          users := users'
          changed := s.changed ++ if reply.status = 204 then [⟨i, input.token, userID⟩] else [] }
    | _ => none
  | .evict key => some { s with tokens := ts.evict s.tokens key }

end State

/-! ## Requests for concrete runs -/

/-- A user asks for a token, and the other requests come with it. -/
def sampleReqs : Nat → Req
  | 0 => .forgot ⟨"POST", "application/json", .ok "ada@example.com"⟩
  | 1 => .reset ⟨"POST", "application/json", .ok ⟨"4f1c", "two"⟩⟩
  | _ => .reset ⟨"POST", "application/json", .ok ⟨"4f1c", "three"⟩⟩

def sampleUsers : MemoryUserStore := ⟨[⟨1, "Ada", "ada@example.com", "hash of one"⟩], 2⟩

def sampleRun : List (Act Nat) :=
  [.begin 0, .getByEmail 0, .issue 0 "4f1c" 0, .begin 1, .begin 2, .take 2, .take 1, .check 2 5,
    .update 2]

end GoRestApi.Handler.PasswordReset
