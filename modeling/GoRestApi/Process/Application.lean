/-
GoRestApi.Process.Application — what `main` of `cmd/api/main.go` puts together:
the routes, the job queue with its workers, and the handler that sends the
welcome mails by a sender of `internal/email`.

A request is one step, with the job it may enqueue. The workers go on between
the requests as in the registry, and where a worker runs the handler, `mail`
is the return of that handler: the payload is decoded and the mail is sent.
How the mail library ends is an argument of the step. A mail can be taken by
the mail server although the sender reports an error, as when the connection
is lost before the reply.

`delivered` is history: the mails that a mail server has taken, each with the
ID of its job. No step reads it.

Left out: the port, the TLS setting and the time limit of the SMTP client,
which are only handed to the library; and the shutdown, which has its own
model.
-/
import GoRestApi.Jobs.Registry
import GoRestApi.Server.Routes

namespace GoRestApi.Process

open Go Jobs Server Handler

/-! ## Senders -/

structure Message where
  from_ : String
  to_ : String
  subject : String
  body : String
  deriving DecidableEq, Repr

structure SMTPConfig where
  host : String
  user : String
  password : String
  fromAddress : String
  deriving DecidableEq, Repr

/-- `NewSMTPConfigFromEnv`. -/
def newSMTPConfigFromEnv (getenv : String → String) : Option SMTPConfig :=
  let host := getenv "SMTP_HOST"
  let user := getenv "SMTP_USER"
  let pass := getenv "SMTP_PASSWORD"
  let from_ := getenv "SMTP_FROM"
  if host = "" ∨ user = "" ∨ pass = "" ∨ from_ = "" then none
  else some ⟨host, user, pass, from_⟩

/-- The mail library: the errors of `Msg.From` and `Msg.To`. -/
structure MailLib where
  setFrom : String → Option String
  setTo : String → Option String

/-- How `DialAndSend` ends; in the last case the mail was taken. -/
inductive DialEnd where
  | sent
  | failed (err : String)
  | lost (err : String)
  deriving DecidableEq, Repr

/-- The error of `Send`, and the mails that a mail server has taken. -/
structure SendResult where
  err : Option String
  delivered : List Message
  deriving DecidableEq, Repr

/-- The message as it is sent: the configured address is the sender of one
that names none. -/
def SMTPConfig.compose (cfg : SMTPConfig) (lib : MailLib) (m : Message) : Message :=
  if (lib.setFrom m.from_).isSome ∧ m.from_ = "" then { m with from_ := cfg.fromAddress } else m

/-- `SMTPSender.Send`, given the error of `NewClient` and the end of
`DialAndSend`. -/
def SMTPConfig.send (cfg : SMTPConfig) (lib : MailLib) (client : Option String) (dial : DialEnd)
    (m : Message) : SendResult :=
  if cfg.host = "" ∨ cfg.user = "" ∨ cfg.password = "" ∨ cfg.fromAddress = "" then
    ⟨some "smtp: not configured", []⟩
  else
    match if m.from_ = "" then none else lib.setFrom m.from_ with
    | some err => ⟨some ("smtp: set from: " ++ err), []⟩
    | none =>
      match lib.setTo m.to_ with
      | some err => ⟨some ("smtp: set to: " ++ err), []⟩
      | none =>
        match client with
        | some err => ⟨some ("smtp: build client: " ++ err), []⟩
        | none =>
          match dial with
          | .sent => ⟨none, [cfg.compose lib m]⟩
          | .failed err => ⟨some ("smtp: send: " ++ err), []⟩
          | .lost err => ⟨some ("smtp: send: " ++ err), [cfg.compose lib m]⟩

/-- `LogSender` and `SMTPSender`. -/
inductive Sender where
  | log
  | smtp (cfg : SMTPConfig)
  deriving DecidableEq, Repr

def buildEmailSender (getenv : String → String) : Sender :=
  match newSMTPConfigFromEnv getenv with
  | none => .log
  | some cfg => .smtp cfg

/-- `Send`; the log sender only writes a line to the log. -/
def Sender.send (lib : MailLib) (client : Option String) (dial : DialEnd) (m : Message) :
    Sender → SendResult
  | .log => ⟨none, []⟩
  | .smtp cfg => cfg.send lib client dial m

/-! ## The handler of the welcome mails -/

/-- The struct that the payload is decoded into. -/
structure Greeted where
  id : Int64
  name : String
  email : String
  deriving DecidableEq, Repr

def welcomeMessage (name email : String) : Message where
  from_ := ""
  to_ := email
  subject := "Welcome"
  body := "Welcome to go-rest-api, " ++ name ++ "!"

/-- The handler of `welcome_email`, given `json.Unmarshal` and a sender. -/
def welcomeEmail (unmarshal : List UInt8 → Except String Greeted) (send : Message → SendResult)
    (payload : List UInt8) : SendResult :=
  match unmarshal payload with
  | .error err => ⟨some ("welcome_email: decode payload: " ++ err), []⟩
  | .ok p => send (welcomeMessage p.name p.email)

/-! ## The application -/

/-- What `main` is started with, and the libraries. -/
structure Wiring (τ ρ : Type) where
  env : Env
  cleanPath : String → String
  options : Options
  tokens : TokenStore τ ρ
  unmarshal : List UInt8 → Except String Greeted
  lib : MailLib
  sender : Sender

structure Application (n : Nat) (τ : Type) where
  service : Service τ
  pool : MemJobs n
  delivered : List (String × Message)

inductive AppAct (n : Nat) where
  /-- a request, and what `Registry.Enqueue` gets from `newID` and the clock -/
  | visit (v : Service.Visit) (newID : String) (now now' : Time)
  | worker (a : MemAct n)
  | mail (w : Fin n) (client : Option String) (dial : DialEnd)

/-- The steps of the pool that are neither a request nor the return of a
handler, up to the shutdown. -/
def workersOwn {n : Nat} : MemAct n → Bool
  | .enqueue _ | .register _ | .close | .handled _ _ => false
  | .cancel | .loopHead _ | .dequeue _ _ | .wake _ _ | .wakeCancelled _ | .findHandler _ | .ack _
  | .settle _ _ => true

namespace Application

variable {n : Nat} {τ ρ : Type}

/-- `main` registers the handler before it starts the workers. -/
def init (store : Store.MemoryUserStore) (clock : Time) (resetTokens : τ) : Application n τ where
  service := .init store clock resetTokens
  pool := { MemJobs.init with handlers := ["welcome_email"] }
  delivered := []

/-- A request; the payloads are at most one. -/
def visit (x : Wiring τ ρ) (s : Application n τ) (v : Service.Visit) (newID : String)
    (now now' : Time) : Option (Application n τ) :=
  let service :=
    (Service.serve x.env x.cleanPath x.options x.tokens v.request v.outside s.service).1
  match service.jobs.drop s.service.jobs.length with
  | [] => some { s with service := service }
  | payload :: _ =>
    (s.pool.step (.enqueue (newJob newID now now' "welcome_email" payload))).map fun pool =>
      { s with service := service, pool := pool }

def step (x : Wiring τ ρ) (s : Application n τ) : AppAct n → Option (Application n τ)
  | .visit v newID now now' => s.visit x v newID now now'
  | .worker a =>
    if workersOwn a then (s.pool.step a).map fun pool => { s with pool := pool } else none
  | .mail w client dial =>
    match s.pool.pc w with
    | .handling job =>
      let r := welcomeEmail x.unmarshal (fun m => x.sender.send x.lib client dial m) job.payload
      (s.pool.step (.handled w r.err)).map fun pool =>
        { s with pool := pool, delivered := s.delivered ++ r.delivered.map (job.id, ·) }
    | _ => none

/-- The mails of a job that were taken. -/
def mailsOf (s : Application n τ) (id : String) : List Message :=
  (s.delivered.filter fun d => d.1 = id).map Prod.snd

end Application

end GoRestApi.Process
