/-
GoRestApi.Handler.Refresh — concurrent `POST /auth/refresh` requests.

The requests are the elements of a type `ι`. A step of the system is one of
the calls of `Refresh` that other requests can come in between: `Parse`,
`RawClaims`, `IsRevoked`, `Revoke`, `issueTokens` and the look-up of the
user, each with what it gets from the clock, from `newJTI` and from the
store. `rotated` is the history of the requests that have called `Revoke`;
no step reads it.
-/
import GoRestApi.Handler.Auth
import GoRestApi.Lts.Run
import Mathlib.Tactic.Simps.Basic

namespace GoRestApi.Handler

open Go Auth Store Lts

/-- Where a request is. -/
inductive RefreshPc where
  | start
  | parsed (claims : Claims)
  | identified (claims : Claims) (jti : String) (exp : Time)
  | unrevoked (claims : Claims) (jti : String) (exp : Time)
  | revoked (claims : Claims)
  | issued (claims : Claims) (pair : TokenPair)
  | answered (reply : Reply)
  deriving DecidableEq, Repr

/-- The status of the reply. -/
def RefreshPc.status : RefreshPc → Option Nat
  | .answered reply => some reply.status
  | _ => none

/-- Between `IsRevoked` and `Revoke`. -/
def RefreshPc.IsUnrevoked : RefreshPc → Prop
  | .unrevoked _ _ _ => True
  | _ => False

instance : DecidablePred RefreshPc.IsUnrevoked
  | .unrevoked _ _ _ => isTrue trivial
  | .start | .parsed _ | .identified _ _ _ | .revoked _ | .issued _ _ | .answered _ => isFalse id

structure RefreshSystem (ι : Type) where
  blacklist : MemoryBlacklist
  pc : ι → RefreshPc
  rotated : List ι

inductive RefreshAct (ι : Type) where
  | parse (i : ι) (now : Time)
  | rawClaims (i : ι) (now : Time)
  | isRevoked (i : ι) (now : Time)
  | revoke (i : ι)
  | issue (i : ι) (stamps : Stamps)
  | getUser (i : ι) (now : Time) (user : Except StoreError User)

/-- The request that takes the step. -/
def RefreshAct.request {ι : Type} : RefreshAct ι → ι
  | .parse i _ | .rawClaims i _ | .isRevoked i _ | .revoke i | .issue i _ | .getUser i _ _ => i

namespace RefreshSystem

variable {ι : Type} [DecidableEq ι]

def init (b : MemoryBlacklist) : RefreshSystem ι := ⟨b, fun _ => .start, []⟩

@[simps pc]
def setPc (s : RefreshSystem ι) (i : ι) (p : RefreshPc) : RefreshSystem ι :=
  { s with pc := Function.update s.pc i p }

/-- The token of the body, for a request that gets to `Parse`. -/
def token (env : Env) (req : ι → Request String) (i : ι) : Except Reply String :=
  AuthHandler.refreshInput env (req i)

def step (env : Env) (h : AuthHandler) (req : ι → Request String) (s : RefreshSystem ι) :
    RefreshAct ι → Option (RefreshSystem ι)
  | .parse i now =>
    match s.pc i with
    | .start =>
      match (token env req i).bind (h.refreshParse env now) with
      | .error reply => some (s.setPc i (.answered reply))
      | .ok claims => some (s.setPc i (.parsed claims))
    | _ => none
  | .rawClaims i now =>
    match s.pc i with
    | .parsed claims =>
      match (token env req i).bind (h.refreshIdentify env now) with
      | .error reply => some (s.setPc i (.answered reply))
      | .ok (jti, exp) => some (s.setPc i (.identified claims jti exp))
    | _ => none
  | .isRevoked i now =>
    match s.pc i with
    | .identified claims jti exp =>
      match s.blacklist.isRevoked now jti with
      | (b, true) =>
        some { s.setPc i (.answered (.unauthorized "invalid refresh token")) with blacklist := b }
      | (b, false) => some { s.setPc i (.unrevoked claims jti exp) with blacklist := b }
    | _ => none
  | .revoke i =>
    match s.pc i with
    | .unrevoked claims jti exp =>
      some { s.setPc i (.revoked claims) with
        blacklist := s.blacklist.revoke jti exp
        rotated := s.rotated ++ [i] }
    | _ => none
  | .issue i stamps =>
    match s.pc i with
    | .revoked claims =>
      match h.issueTokens env stamps claims.subject with
      | (_, none) => some (s.setPc i (.answered .internalError))
      | (_, some pair) => some (s.setPc i (.issued claims pair))
    | _ => none
  | .getUser i now user =>
    match s.pc i with
    | .issued _ pair => some (s.setPc i (.answered (AuthHandler.refreshReply pair now user)))
    | _ => none

end RefreshSystem

end GoRestApi.Handler
