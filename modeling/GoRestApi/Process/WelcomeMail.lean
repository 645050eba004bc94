/-
GoRestApi.Process.WelcomeMail — from a registration to the mail.

`welcome_mails` is about the whole application: requests, job queue, workers
and mail sender, in any interleaving up to the shutdown. Every account that was
registered, as the store has gained it (`registered`), has one job; the job is
in one place; the mails that were taken for it are the welcome mails of that
account, at most three; and a job that is done has at least one. Without lost
replies the mails of a job are exactly its completion: one if it is done, and
none while it waits or when it is given up.

The proof adds two counts to what is known of the parts. Each mail that is
taken is the end of an attempt, so the mails of a job are at most its failures
and its completion, and at least its completion; how many attempts there can
be is known from the books of the registry. And every copy of a job that the
queue makes has the payload that was enqueued (`Carried`), which names the
account.
-/
import GoRestApi.Jobs.RegistryTheorems
import GoRestApi.Process.Application
import GoRestApi.Server.RoutesIdentity

/-! ## Copies of a job -/

namespace GoRestApi.Jobs.MemJobs

open Lts Retry

variable {n : Nat} {s s' : MemJobs n} {a : MemAct n}

/-- The job is a copy of one that was accepted. -/
def CopyOf (accepted : List Job) (j : Job) : Prop :=
  ∃ b ∈ accepted, b.id = j.id ∧ b.payload = j.payload

/-- The job that a worker has. -/
def inHand : MemWorker → Option Job
  | .got j | .handling j | .failing j _ | .succeeded j => some j
  | .top | .dequeuing | .inQueue _ | .returned => none

/-- Every job in the queue or in a worker's hands is a copy. -/
structure Carried (s : MemJobs n) : Prop where
  queued : ∀ j ∈ s.queue.items, CopyOf s.accepted j
  held : ∀ w, ∀ j ∈ inHand (s.pc w), CopyOf s.accepted j

theorem CopyOf.mono {accepted accepted' : List Job} (hsub : ∀ b ∈ accepted, b ∈ accepted') {j : Job}
    (hj : CopyOf accepted j) : CopyOf accepted' j := by
  obtain ⟨b, hb, hcopy⟩ := hj
  exact ⟨b, hsub b hb, hcopy⟩

/-- What another worker has is not touched. -/
theorem held_setPc (hs : s.Carried) {w : Fin n} {p : MemWorker}
    (hp : ∀ j ∈ inHand p, CopyOf s.accepted j) (v : Fin n) :
    ∀ j ∈ inHand ((s.setPc w p).pc v), CopyOf s.accepted j := by
  intro j hj
  rcases moved_cases (f := s.pc) (i := w) (p := p) rfl v with ⟨rfl, heq⟩ | ⟨_, heq⟩
  · exact hp j (by rwa [← heq])
  · exact hs.held v j (by rwa [← heq])

theorem Carried.step (hs : s.Carried) (hstep : s.step a = some s') : s'.Carried := by
  have hheld {w : Fin n} {j : Job} (hj : inHand (s.pc w) = some j) : CopyOf s.accepted j :=
    hs.held w j hj
  have hnone {p : MemWorker} (hp : inHand p = none) : ∀ j ∈ inHand p, CopyOf s.accepted j := by
    intro j hj
    rw [hp] at hj
    cases hj
  cases steps_of_step hstep with
  | refused _ | register | cancel | close => exact ⟨hs.queued, hs.held⟩
  | @enqueued job _ =>
    have hsub : ∀ b ∈ s.accepted, b ∈ s.accepted ++ [job] := fun b => List.mem_append_left _
    refine ⟨fun j hj => ?_, fun w j hj => (hs.held w j hj).mono hsub⟩
    rcases List.mem_append.mp hj with hj | hj
    · exact (hs.queued j hj).mono hsub
    · rw [List.mem_singleton.mp hj]
      exact ⟨job, by simp, rfl, rfl⟩
  | headCancelled _ _ | headGoes _ _ | dequeueClosed _ _ | woken _ _ | wokenCancelled _ _
  | acked _ | nackRefused _ _ _ => exact ⟨hs.queued, held_setPc hs (hnone rfl)⟩
  | @putBack w now job rest _ _ hitems _ =>
    refine ⟨fun j hj => hs.queued j ?_, held_setPc hs (hnone rfl)⟩
    rw [hitems]
    simpa [or_comm] using hj
  | @popped w now job rest _ _ hitems _ =>
    refine ⟨fun j hj => hs.queued j ?_, held_setPc hs fun j hj => ?_⟩
    · rw [hitems]
      exact List.mem_cons_of_mem _ hj
    · cases hj
      exact hs.queued job (by rw [hitems]; exact List.mem_cons_self)
  | @handlerFound w job hpc _ | @handlerMissing w job hpc _ =>
    have hcopy : CopyOf s.accepted job := hheld (by rw [hpc]; rfl)
    refine ⟨hs.queued, held_setPc hs fun j hj => ?_⟩
    cases hj
    exact hcopy
  | succeeded hpc | failed hpc =>
    refine ⟨hs.queued, held_setPc hs fun j hj => ?_⟩
    cases hj
    exact hheld (by rw [hpc]; rfl)
  | givenUp hpc _ => exact ⟨hs.queued, held_setPc hs (hnone rfl)⟩
  | @requeued w now job err hpc _ _ =>
    have hcopy : CopyOf s.accepted job := hheld (by rw [hpc]; rfl)
    refine ⟨fun j hj => ?_, held_setPc hs (hnone rfl)⟩
    rcases List.mem_append.mp hj with hj | hj
    · exact hs.queued j hj
    · rw [List.mem_singleton.mp hj]
      exact hcopy

theorem opened_of_step (hstep : s.step a = some s') (ha : a ≠ .close)
    (hopen : s.queue.closed = false) : s'.queue.closed = false := by
  cases steps_of_step hstep with
  | close => exact absurd rfl ha
  | enqueued _ | putBack _ _ _ _ | popped _ _ _ _ | requeued _ _ _ => rfl
  | _ => exact hopen

theorem accepted_of_step (hstep : s.step a = some s') (ha : ∀ job, a ≠ .enqueue job) :
    s'.accepted = s.accepted := by
  cases steps_of_step hstep with
  | @refused job _ | @enqueued job _ => exact absurd rfl (ha job)
  | _ => rfl

theorem completed_of_step (hstep : s.step a = some s') (ha : ∀ w, a ≠ .handled w none) :
    s'.completed = s.completed := by
  cases steps_of_step hstep with
  | @succeeded w job _ => exact absurd rfl (ha w)
  | _ => rfl

/-- Failures are not taken back. -/
theorem failuresOf_le_of_step (hstep : s.step a = some s') (id : String) :
    (s.failuresOf id).length ≤ (s'.failuresOf id).length := by
  have happend (log : List (String × Int)) (more : List (String × Int)) :
      (entriesOf log id).length ≤ (entriesOf (log ++ more) id).length := by
    simp [entriesOf, List.filter_append]
  cases steps_of_step hstep with
  | handlerMissing _ _ | failed _ => exact happend _ _
  | _ => exact Nat.le_refl _

/-- **How a job can have ended its attempts.** The failures of a job and its
completion together are not more than its attempts. -/
theorem ended_le (hkept : WellKept s.ledger) {job : Job} (hjob : job ∈ s.accepted)
    (hzero : job.attempts = 0) :
    (s.completed.map Job.id).count job.id ≤ 1 ∧
    (((s.failuresOf job.id).length : Int) + (s.completed.map Job.id).count job.id ≤
      max job.maxRetries 0 + 1) := by
  have hitem : job.item ∈ s.ledger.accepted := List.mem_map_of_mem hjob
  have hplace : s.placesOf job.id = 1 :=
    (count_ledger s job.id).symm.trans (hkept.count_id hitem)
  have hone : (s.completed.map Job.id).count job.id ≤ 1 := by
    unfold placesOf at hplace
    omega
  obtain ⟨x, hx, hid, hbudget, k, hatt, htried, hallows⟩ := hkept.place hitem
  have hfailed : entriesOf s.ledger.failed job.item.id = s.failuresOf job.id := rfl
  have hlimit : (k : Int) ≤ max job.maxRetries 0 + 1 := by
    have hle := hallows.le_limit (by rw [hatt]; simp [Job.item, hzero])
    rw [Item.limit, hbudget] at hle
    exact hle
  refine ⟨hone, ?_⟩
  rw [hfailed] at hallows
  rcases Nat.eq_zero_or_pos ((s.completed.map Job.id).count job.id) with hcount | hcount
  · -- in any stage the failures are attempts
    have hle : (s.failuresOf job.id).length ≤ k := by
      cases hst : x.1 <;> rw [hst] at hallows <;> simp only [Stage.Allows] at hallows <;> omega
    omega
  · -- the one place of the job is among the completed
    obtain ⟨j, hj, hjid⟩ := List.mem_map.mp (List.count_pos_iff.mp hcount)
    have hmem : (Stage.completed, j.item) ∈ s.ledger.items :=
      mem_ledger.mpr (.inr (.inr (.inl ⟨j, hj, rfl⟩)))
    obtain ⟨b, hb, k', hbid, _, hatt', htried', hallows'⟩ := hkept.recorded _ hmem
    obtain rfl : b = job.item :=
      List.inj_on_of_nodup_map hkept.distinct hb hitem (hbid.trans hjid)
    have hk : k' = k := by
      have hlen := congrArg List.length (htried'.symm.trans htried)
      simpa [numbers] using hlen
    rw [hfailed] at hallows'
    simp only [Stage.Allows] at hallows'
    omega

end GoRestApi.Jobs.MemJobs

namespace GoRestApi.Process

open Go Jobs Server Handler Lts Retry

/-! ## The handler -/

/-- How the handler of the welcome mails ends over SMTP: without an error and
with one mail, or with an error, and then with a mail only if a reply was
lost. -/
theorem welcomeEmail_cases (unmarshal : List UInt8 → Except String Greeted) (cfg : SMTPConfig)
    (lib : MailLib) (client : Option String) (dial : DialEnd) (payload : List UInt8)
    {r : SendResult} (hr : welcomeEmail unmarshal (cfg.send lib client dial) payload = r) :
    (r.err = none ∧ ∃ p, unmarshal payload = .ok p ∧
        r.delivered = [cfg.compose lib (welcomeMessage p.name p.email)]) ∨
      (∃ err, r.err = some err) ∧ (r.delivered = [] ∨ (∃ err, dial = .lost err) ∧
        ∃ p, unmarshal payload = .ok p ∧
          r.delivered = [cfg.compose lib (welcomeMessage p.name p.email)]) := by
  subst hr
  unfold welcomeEmail
  cases hp : unmarshal payload with
  | error err => exact .inr ⟨⟨_, rfl⟩, .inl rfl⟩
  | ok p =>
    dsimp only
    unfold SMTPConfig.send
    split
    · exact .inr ⟨⟨_, rfl⟩, .inl rfl⟩
    · rw [if_pos (show (welcomeMessage p.name p.email).from_ = "" from rfl)]
      dsimp only
      cases lib.setTo (welcomeMessage p.name p.email).to_ with
      | some err => exact .inr ⟨⟨_, rfl⟩, .inl rfl⟩
      | none =>
        cases client with
        | some err => exact .inr ⟨⟨_, rfl⟩, .inl rfl⟩
        | none =>
          cases dial with
          | sent => exact .inl ⟨rfl, p, rfl, rfl⟩
          | failed err => exact .inr ⟨⟨_, rfl⟩, .inl rfl⟩
          | lost err => exact .inr ⟨⟨_, rfl⟩, .inr ⟨⟨err, rfl⟩, p, rfl, rfl⟩⟩

namespace Application

variable {n : Nat} {τ ρ : Type} {x : Wiring τ ρ} {h : AuthHandler} {cfg : SMTPConfig}
  {s s' : Application n τ} {a : AppAct n}

/-! ## Steps -/

/-- `newID` gives IDs that are not in use. -/
def FreshJob (s : Application n τ) : AppAct n → Prop
  | .visit _ newID _ _ => newID ∉ s.pool.accepted.map Job.id
  | _ => True

instance (s : Application n τ) : DecidablePred s.FreshJob
  | .visit _ newID _ _ => inferInstanceAs (Decidable (newID ∉ s.pool.accepted.map Job.id))
  | .worker _ | .mail _ _ _ => isTrue trivial

/-- No mail is taken without a reply. -/
def NoLoss : AppAct n → Prop
  | .mail _ _ (.lost _) => False
  | _ => True

/-- At most one job comes with a request. -/
theorem jobs_of_effect {o : Options} {env : Env} {ts : TokenStore τ ρ} {t t' : Service τ}
    {r : HTTPRequest} {y : Outside} (he : Service.Effect env o ts h t r y t') :
    t'.jobs = t.jobs ∨ ∃ payload, t'.jobs = t.jobs ++ [payload] := by
  cases he with
  | @register store issued reply _ heq =>
    have hwelcome : Service.welcome o reply = [] ∨
        ∃ payload, Service.welcome o reply = [payload] := by
      unfold Service.welcome
      split
      · split
        · exact .inr ⟨_, rfl⟩
        · exact .inl rfl
      · exact .inl rfl
    rcases hwelcome with hnil | ⟨payload, hone⟩
    · exact .inl (by simp [hnil])
    · exact .inr ⟨payload, by simp [hone]⟩
  | _ => exact .inl rfl

/-- What a step does to the jobs and the mails. -/
inductive Steps (x : Wiring τ ρ) (s : Application n τ) : AppAct n → Application n τ → Prop
  | quiet {v newID now now'} {service : Service τ} (hjobs : service.jobs = s.service.jobs) :
      Steps x s (.visit v newID now now') { s with service := service }
  | enqueued {v newID now now'} {service : Service τ} {payload : List UInt8} {pool : MemJobs n}
      (hjobs : service.jobs = s.service.jobs ++ [payload])
      (hpool : s.pool.step (.enqueue (newJob newID now now' "welcome_email" payload)) =
        some pool) :
      Steps x s (.visit v newID now now') { s with service := service, pool := pool }
  | worker {b : MemAct n} {pool : MemJobs n} (hown : workersOwn b = true)
      (hpool : s.pool.step b = some pool) : Steps x s (.worker b) { s with pool := pool }
  | mail {w : Fin n} {client : Option String} {dial : DialEnd} {job : Job} {r : SendResult}
      {pool : MemJobs n} (hpc : s.pool.pc w = .handling job)
      (hr : welcomeEmail x.unmarshal (fun m => x.sender.send x.lib client dial m) job.payload = r)
      (hpool : s.pool.step (.handled w r.err) = some pool) :
      Steps x s (.mail w client dial)
        { s with pool := pool, delivered := s.delivered ++ r.delivered.map (job.id, ·) }

theorem steps_of_step (ho : x.options.authHandler = some h) (hstep : s.step x a = some s') :
    Steps x s a s' := by
  cases a with
  | visit v newID now now' =>
    simp only [step, visit] at hstep
    have he : Service.Effect x.env x.options x.tokens h s.service v.request v.outside
      (Service.serve x.env x.cleanPath x.options x.tokens v.request v.outside s.service).1 :=
      Service.effect_of_serve ho
    rcases jobs_of_effect he with hjobs | ⟨payload, hjobs⟩
    · rw [hjobs, List.drop_length] at hstep
      cases hstep
      exact .quiet hjobs
    · rw [hjobs, List.drop_left] at hstep
      obtain ⟨pool, hpool, rfl⟩ := Option.map_eq_some_iff.mp hstep
      exact .enqueued hjobs hpool
  | worker b =>
    simp only [step] at hstep
    split at hstep
    · rename_i hown
      obtain ⟨pool, hpool, rfl⟩ := Option.map_eq_some_iff.mp hstep
      exact .worker hown hpool
    · cases hstep
  | mail w client dial =>
    simp only [step] at hstep
    split at hstep
    · rename_i job hpc
      obtain ⟨pool, hpool, rfl⟩ := Option.map_eq_some_iff.mp hstep
      exact .mail hpc rfl hpool
    · cases hstep

/-- The pool takes one of its steps, or none. -/
theorem pool_of_steps (hsteps : Steps x s a s') (hfresh : s.FreshJob a) :
    s'.pool = s.pool ∨
      ∃ b, s.pool.step b = some s'.pool ∧ MemJobs.FreshID s.pool b ∧ b ≠ .close := by
  cases hsteps with
  | quiet hjobs => exact .inl rfl
  | enqueued hjobs hpool => exact .inr ⟨_, hpool, hfresh, by simp⟩
  | @worker b pool hown hpool =>
    refine .inr ⟨b, hpool, ?_, ?_⟩
    · cases b <;> trivial
    · rintro rfl
      simp [workersOwn] at hown
  | mail hpc hr hpool => exact .inr ⟨_, hpool, trivial, by simp⟩

/-! ## The invariant -/

structure Kept (x : Wiring τ ρ) (cfg : SMTPConfig) (s : Application n τ) : Prop where
  books : WellKept s.pool.ledger
  opened : s.pool.queue.closed = false
  carried : s.pool.Carried
  payloads : s.pool.accepted.map Job.payload = s.service.jobs
  counters : ∀ job ∈ s.pool.accepted, job.attempts = 0 ∧ job.maxRetries = 2
  known : ∀ d ∈ s.delivered, ∃ b ∈ s.pool.accepted, b.id = d.1 ∧
    ∃ p, x.unmarshal b.payload = .ok p ∧ d.2 = cfg.compose x.lib (welcomeMessage p.name p.email)
  /-- a mail is the end of an attempt -/
  upper : ∀ id, (s.mailsOf id).length ≤
    (s.pool.failuresOf id).length + (s.pool.completed.map Job.id).count id
  lower : ∀ id, (s.pool.completed.map Job.id).count id ≤ (s.mailsOf id).length

theorem length_mailsOf_append (job : String) (ms : List Message) (pool : MemJobs n)
    (id : String) :
    (mailsOf { s with pool := pool, delivered := s.delivered ++ ms.map (job, ·) } id).length =
      (s.mailsOf id).length + if job = id then ms.length else 0 := by
  have hnew : ((ms.map (job, ·)).filter fun d => decide (d.1 = id)).length =
      if job = id then ms.length else 0 := by
    split
    · rename_i hid
      rw [List.filter_eq_self.mpr (by simp [hid]), List.length_map]
    · rename_i hid
      rw [List.filter_eq_nil_iff.mpr (by simp [hid]), List.length_nil]
  simp [mailsOf, List.filter_append, hnew]

/-- What the registry knows of the jobs stays true. -/
theorem Kept.pool (hs : s.Kept x cfg) (hsteps : Steps x s a s') (hfresh : s.FreshJob a) :
    WellKept s'.pool.ledger ∧ s'.pool.queue.closed = false ∧ s'.pool.Carried := by
  rcases pool_of_steps hsteps hfresh with hsame | ⟨b, hpool, hid, hclose⟩
  · rw [hsame]
    exact ⟨hs.books, hs.opened, hs.carried⟩
  · have hopened := MemJobs.opened_of_step hpool hclose hs.opened
    exact ⟨invariant_of_refines (fun _ _ hkept hledger => hkept.step hledger)
      (MemJobs.step_ledger hpool hid hopened) hs.books, hopened, hs.carried.step hpool⟩

/-- **The return of the handler** ends an attempt. It is a completion with one
mail, or a failure with none, or a failure with one mail whose reply was
lost. -/
theorem mail_counts (hsender : x.sender = .smtp cfg) {w : Fin n} {client : Option String}
    {dial : DialEnd} {job : Job} {r : SendResult} {pool : MemJobs n}
    (hpc : s.pool.pc w = .handling job)
    (hr : welcomeEmail x.unmarshal (fun m => x.sender.send x.lib client dial m) job.payload = r)
    (hpool : s.pool.step (.handled w r.err) = some pool) (id : String) :
    let s' : Application n τ :=
      { s with pool := pool, delivered := s.delivered ++ r.delivered.map (job.id, ·) }
    let one := if job.id = id then 1 else 0
    (pool.completed.map Job.id).count id = (s.pool.completed.map Job.id).count id + one ∧
        (pool.failuresOf id).length = (s.pool.failuresOf id).length ∧
        (s'.mailsOf id).length = (s.mailsOf id).length + one ∨
      (pool.completed.map Job.id).count id = (s.pool.completed.map Job.id).count id ∧
        (pool.failuresOf id).length = (s.pool.failuresOf id).length + one ∧
        ((s'.mailsOf id).length = (s.mailsOf id).length ∨
          (s'.mailsOf id).length = (s.mailsOf id).length + one ∧ ∃ err, dial = .lost err) := by
  intro s' one
  have hlen : (s'.mailsOf id).length =
      (s.mailsOf id).length + if job.id = id then r.delivered.length else 0 :=
    length_mailsOf_append ..
  rw [hsender] at hr
  have hsteps := MemJobs.steps_of_step hpool
  rcases welcomeEmail_cases x.unmarshal cfg x.lib client dial job.payload hr with
    ⟨herr, p, _, hmail⟩ | ⟨⟨err, herr⟩, hmail⟩
  · rw [herr] at hsteps
    cases hsteps with
    | @succeeded _ job' hpc' =>
      rw [hpc] at hpc'
      cases hpc'
      refine .inl ⟨?_, rfl, ?_⟩
      · dsimp only
        rw [List.map_append, List.count_append, List.map_singleton, List.count_singleton]
        simp [one]
      · rw [hlen, hmail, List.length_singleton]
  · rw [herr] at hsteps
    cases hsteps with
    | @failed _ job' _ hpc' =>
      rw [hpc] at hpc'
      cases hpc'
      refine .inr ⟨rfl, ?_, ?_⟩
      · simp only [MemJobs.failuresOf, entriesOf, List.filter_append, List.map_append,
          List.length_append, List.length_map, one]
        split <;> simp_all
      · rcases hmail with hnil | ⟨hlost, p, _, hone⟩
        · left
          rw [hlen, hnil]
          simp
        · right
          rw [hlen, hone, List.length_singleton]
          exact ⟨rfl, hlost⟩

/-- A step that takes no mail and ends no attempt well. -/
theorem Kept.quietly (hs : s.Kept x cfg) {b : MemAct n} {pool : MemJobs n}
    (hpool : s.pool.step b = some pool) (hb : ∀ w, b ≠ .handled w none) (id : String) :
    (s.mailsOf id).length ≤ (pool.failuresOf id).length + (pool.completed.map Job.id).count id ∧
      (pool.completed.map Job.id).count id ≤ (s.mailsOf id).length := by
  have hupper := hs.upper id
  have hlower := hs.lower id
  have hfail := MemJobs.failuresOf_le_of_step hpool id
  rw [MemJobs.completed_of_step hpool hb]
  omega

theorem Kept.step (hs : s.Kept x cfg) (ho : x.options.authHandler = some h)
    (hsender : x.sender = .smtp cfg) (hfresh : s.FreshJob a) (hstep : s.step x a = some s') :
    s'.Kept x cfg := by
  have hsteps := steps_of_step ho hstep
  obtain ⟨hbooks, hopened, hcarried⟩ := hs.pool hsteps hfresh
  cases hsteps with
  | quiet hjobs =>
    exact ⟨hbooks, hopened, hcarried, hs.payloads.trans hjobs.symm, hs.counters, hs.known,
      hs.upper, hs.lower⟩
  | @enqueued v newID now now' service payload pool hjobs hpool =>
    have haccepted : pool.accepted =
        s.pool.accepted ++ [newJob newID now now' "welcome_email" payload] := by
      cases MemJobs.steps_of_step hpool with
      | refused hclosed => simp [hs.opened] at hclosed
      | enqueued _ => rfl
    have hcounts := hs.quietly hpool (by simp)
    refine ⟨hbooks, hopened, hcarried, ?_, ?_, ?_, fun id => (hcounts id).1,
      fun id => (hcounts id).2⟩
    · simp [haccepted, hs.payloads, hjobs, newJob]
    · intro job hjob
      rw [haccepted] at hjob
      rcases List.mem_append.mp hjob with hjob | hjob
      · exact hs.counters job hjob
      · rw [List.mem_singleton.mp hjob]
        exact ⟨rfl, rfl⟩
    · intro d hd
      obtain ⟨b, hb, hknown⟩ := hs.known d hd
      exact ⟨b, by rw [haccepted]; exact List.mem_append_left _ hb, hknown⟩
  | @worker b pool hown hpool =>
    have haccepted : pool.accepted = s.pool.accepted :=
      MemJobs.accepted_of_step hpool (by rintro job rfl; simp [workersOwn] at hown)
    have hcounts := hs.quietly hpool (by rintro w rfl; simp [workersOwn] at hown)
    refine ⟨hbooks, hopened, hcarried, ?_, ?_, ?_, fun id => (hcounts id).1,
      fun id => (hcounts id).2⟩
    · rw [haccepted]
      exact hs.payloads
    · rw [haccepted]
      exact hs.counters
    · rw [haccepted]
      exact hs.known
  | @mail w client dial job r pool hpc hr hpool =>
    have haccepted : pool.accepted = s.pool.accepted :=
      MemJobs.accepted_of_step hpool (by simp)
    refine ⟨hbooks, hopened, hcarried, ?_, ?_, ?_, fun id => ?_, fun id => ?_⟩
    · rw [haccepted]
      exact hs.payloads
    · rw [haccepted]
      exact hs.counters
    rotate_left
    · have hupper := hs.upper id
      show _ ≤ (pool.failuresOf id).length + (pool.completed.map Job.id).count id
      rcases mail_counts hsender hpc hr hpool id with ⟨h₁, h₂, h₃⟩ | ⟨h₁, h₂, h₃ | ⟨h₃, _⟩⟩ <;>
        omega
    · have hlower := hs.lower id
      show (pool.completed.map Job.id).count id ≤ _
      rcases mail_counts hsender hpc hr hpool id with ⟨h₁, h₂, h₃⟩ | ⟨h₁, h₂, h₃ | ⟨h₃, _⟩⟩ <;>
        omega
    · rw [haccepted]
      intro d hd
      rcases List.mem_append.mp hd with hd | hd
      · exact hs.known d hd
      · -- the payload of the copy is the one that was enqueued
        obtain ⟨m, hm, rfl⟩ := List.mem_map.mp hd
        obtain ⟨b, hb, hid, hpayload⟩ := hs.carried.held w job (by rw [hpc]; rfl)
        refine ⟨b, hb, hid, ?_⟩
        rw [hsender] at hr
        rcases welcomeEmail_cases x.unmarshal cfg x.lib client dial job.payload hr with
          ⟨_, p, hp, hmail⟩ | ⟨_, hmail | ⟨_, p, hp, hmail⟩⟩
        · rw [hmail] at hm
          exact ⟨p, hpayload ▸ hp, List.mem_singleton.mp hm⟩
        · rw [hmail] at hm
          cases hm
        · rw [hmail] at hm
          exact ⟨p, hpayload ▸ hp, List.mem_singleton.mp hm⟩

theorem kept_init (store : Store.MemoryUserStore) (clock : Time) (tokens : τ) :
    (init store clock tokens : Application n τ).Kept x cfg := by
  have hempty : MemJobs.ledger (init store clock tokens : Application n τ).pool =
      ⟨0, [], [], []⟩ := by
    simp [MemJobs.ledger, init, MemJobs.init, MemJobs.books, MemoryQueue.new, WorkerPc.places]
  exact {
    books := hempty ▸ wellKept_empty
    opened := rfl
    carried := ⟨by simp [init, MemJobs.init, MemoryQueue.new],
      by simp [init, MemJobs.init, MemJobs.inHand]⟩
    payloads := rfl
    counters := by simp [init, MemJobs.init]
    known := by simp [init]
    upper := by simp [init, mailsOf]
    lower := by simp [init, MemJobs.init] }

/-- Without lost replies the mails of a job are its completion. -/
theorem exact_of_step (ho : x.options.authHandler = some h) (hsender : x.sender = .smtp cfg)
    (hloss : NoLoss a) (hstep : s.step x a = some s')
    (hexact : ∀ id, (s.mailsOf id).length = (s.pool.completed.map Job.id).count id) (id : String) :
    (s'.mailsOf id).length = (s'.pool.completed.map Job.id).count id := by
  have hid := hexact id
  cases steps_of_step ho hstep with
  | quiet hjobs => exact hid
  | enqueued hjobs hpool =>
    show (s.mailsOf id).length = _
    rw [MemJobs.completed_of_step hpool (by simp)]
    exact hid
  | worker hown hpool =>
    show (s.mailsOf id).length = _
    rw [MemJobs.completed_of_step hpool (by rintro w rfl; simp [workersOwn] at hown)]
    exact hid
  | mail hpc hr hpool =>
    rcases mail_counts hsender hpc hr hpool id with ⟨h₁, h₂, h₃⟩ | ⟨h₁, h₂, h₃ | ⟨_, err, rfl⟩⟩
    · rw [h₃, h₁, hid]
    · rw [h₃, h₁, hid]
    · exact False.elim hloss

/-! ## The accounts -/

/-- The requests are those of the service, and nothing else touches it. -/
theorem service_of_step (hstep : s.step x a = some s') :
    match a with
    | .visit v _ _ _ => s'.service =
        (Service.serve x.env x.cleanPath x.options x.tokens v.request v.outside s.service).1
    | .worker _ | .mail _ _ _ => s'.service = s.service := by
  cases a with
  | visit v newID now now' =>
    simp only [step, visit] at hstep
    split at hstep
    · cases hstep
      rfl
    · obtain ⟨pool, _, rfl⟩ := Option.map_eq_some_iff.mp hstep
      rfl
  | worker b =>
    simp only [step] at hstep
    split at hstep
    · obtain ⟨pool, _, rfl⟩ := Option.map_eq_some_iff.mp hstep
      rfl
    · cases hstep
  | mail w client dial =>
    simp only [step] at hstep
    split at hstep
    · obtain ⟨pool, _, rfl⟩ := Option.map_eq_some_iff.mp hstep
      rfl
    · cases hstep

/-- The users that the store has gained in a step. -/
def newAccounts (s : Application n τ) (a : AppAct n) (s' : Application n τ) :
    List (Service.Visit × Store.User) :=
  match a with
  | .visit v _ _ _ => Service.newAccounts s.service v s'.service
  | .worker _ | .mail _ _ _ => []

/-- The accounts that were registered in the course of the steps, in order, each
with its request. -/
def registered (x : Wiring τ ρ) (s : Application n τ) (as : List (AppAct n)) :
    List (Service.Visit × Store.User) :=
  Service.through "/auth/register" (recorded (step x) newAccounts s as)

theorem adds_of_visit (hsigns : x.env.Signs) (ho : x.options.authHandler = some h)
    {v : Service.Visit} {newID : String} {now now' : Time}
    (hstep : s.step x (.visit v newID now now') = some s') :
    Service.Adds x.env x.options s.service v s'.service
      (Service.newAccounts s.service v s'.service) := by
  rw [show s'.service = _ from service_of_step hstep]
  exact Service.adds_of_effect hsigns (Service.effect_of_serve ho)

theorem jobs_of_step (hsigns : x.env.Signs) (ho : x.options.authHandler = some h)
    (hqueue : x.options.hasJobQueue = true) (hstep : s.step x a = some s') :
    s'.service.jobs = s.service.jobs ++
      (Service.through "/auth/register" (newAccounts s a s')).map fun p =>
        Service.mailOf x.options p.2 := by
  cases a with
  | visit v newID now now' => exact (adds_of_visit hsigns ho hstep).jobs hqueue
  | worker b | mail w client dial =>
    rw [show s'.service = s.service from service_of_step hstep]
    simp [newAccounts, Service.through]

/-- What has become of the job of an account. -/
structure Welcomed (x : Wiring τ ρ) (cfg : SMTPConfig) (s : Application n τ) (job : Job)
    (u : Store.User) : Prop where
  place : s.pool.placesOf job.id = 1
  mails : ∀ m ∈ s.mailsOf job.id, m = cfg.compose x.lib (welcomeMessage u.name u.email)
  atMost : (s.mailsOf job.id).length ≤ 3
  completed : job.id ∈ s.pool.completed.map Job.id → 1 ≤ (s.mailsOf job.id).length

theorem Kept.welcomed (hs : s.Kept x cfg)
    (hround : ∀ id name email, ∃ n, x.unmarshal (x.options.marshal id name email) =
      .ok ⟨n, name, email⟩) {job : Job} (hjob : job ∈ s.pool.accepted) {u : Store.User}
    (hpayload : job.payload = x.options.marshal u.id u.name u.email) :
    Welcomed x cfg s job u := by
  obtain ⟨hzero, hretries⟩ := hs.counters job hjob
  have hitem : job.item ∈ s.pool.ledger.accepted := List.mem_map_of_mem hjob
  obtain ⟨_, hended⟩ := MemJobs.ended_le hs.books hjob hzero
  have hupper := hs.upper job.id
  have hlower := hs.lower job.id
  refine ⟨(MemJobs.count_ledger s.pool job.id).symm.trans (hs.books.count_id hitem), ?_, ?_, ?_⟩
  · intro m hm
    simp only [mailsOf, List.mem_map, List.mem_filter, decide_eq_true_eq] at hm
    obtain ⟨d, ⟨hd, hid⟩, rfl⟩ := hm
    obtain ⟨b, hb, hbid, p, hp, hmail⟩ := hs.known d hd
    -- jobs have distinct IDs
    have hsame : b = job := by
      refine List.inj_on_of_nodup_map ?_ hb hjob (hbid.trans hid)
      have hdistinct := hs.books.distinct
      simpa [MemJobs.ledger, Function.comp_def, Job.item] using hdistinct
    subst hsame
    obtain ⟨k, hdecoded⟩ := hround u.id u.name u.email
    rw [hpayload, hdecoded] at hp
    cases hp
    exact hmail
  · rw [hretries] at hended
    omega
  · intro hdone
    have := List.count_pos_iff.mpr hdone
    omega

/-- **Every registered account is welcomed.** The routes are served one request
at a time over the in-memory user store, with both issuers, the blacklist and
the job queue, no signing of a token fails, and the workers and the mail sender
of the application go on between the requests. After any steps up to the
shutdown, the accounts that were registered have one job each, in the same
order. The job is in one place, what the mail server has taken for it are at
most three welcome mails to the name and the email that the account was
registered with, and at least one if it is done; and no other mails were sent.
If no reply of the mail server was lost, a job that is done has one mail and
another one none. -/
theorem welcome_mails (hsigns : x.env.Signs) (ho : x.options.authHandler = some h)
    (hqueue : x.options.hasJobQueue = true)
    (hround : ∀ id name email, ∃ n, x.unmarshal (x.options.marshal id name email) =
      .ok ⟨n, name, email⟩)
    (hsender : x.sender = .smtp cfg) {clock : Time} {tokens : τ} {as : List (AppAct n)}
    (hrun : run (step x) (init Store.newMemoryUserStore clock tokens) as = some s)
    (hfresh : Along (step x) FreshJob (init Store.newMemoryUserStore clock tokens) as) :
    let accounts := registered x (init Store.newMemoryUserStore clock tokens) as
    (∀ p ∈ accounts, (∃ newID now now', .visit p.1 newID now now' ∈ as) ∧
      Service.Asks x.env p.1 p.2) ∧
    List.Forall₂ (fun job p => Welcomed x cfg s job p.2) s.pool.accepted accounts ∧
    (∀ d ∈ s.delivered, d.1 ∈ s.pool.accepted.map Job.id) ∧
    ((∀ a ∈ as, NoLoss a) → ∀ job ∈ s.pool.accepted,
      (s.mailsOf job.id).length = (s.pool.completed.map Job.id).count job.id) := by
  intro accounts
  have hkept : s.Kept x cfg :=
    hfresh.invariant (I := Kept x cfg)
      (fun _ _ _ ht hid hstep => ht.step ho hsender hid hstep) (kept_init _ _ _) hrun
  refine ⟨?_, ?_, ?_, ?_⟩
  · intro p hp
    obtain ⟨a, ha, t, t', hstep, hp⟩ := exists_of_mem_recorded (List.mem_filter.mp hp).1
    cases a with
    | visit v newID now now' =>
      obtain ⟨rfl, hasks⟩ := (adds_of_visit hsigns ho hstep).asks hp
      exact ⟨⟨newID, now, now', ha⟩, hasks⟩
    | worker b | mail w client dial => cases hp
  · have hjobs : s.service.jobs = accounts.map fun p => Service.mailOf x.options p.2 := by
      refine recorded_invariant (l := [])
        (I := fun accounts t => t.service.jobs =
          (Service.through "/auth/register" accounts).map fun p => Service.mailOf x.options p.2)
        (fun accounts t a t' ht hstep => ?_) rfl hrun
      rw [jobs_of_step hsigns ho hqueue hstep, ht, Service.through_append, List.map_append]
    have hpairs : List.Forall₂
        (fun (job : Job) (p : Service.Visit × Store.User) =>
          job.payload = x.options.marshal p.2.id p.2.name p.2.email) s.pool.accepted accounts := by
      have heq := hkept.payloads.trans hjobs
      rw [← List.forall₂_eq_eq_eq, List.forall₂_map_left_iff, List.forall₂_map_right_iff] at heq
      exact heq
    have hmem := (List.forall₂_and_left (p := (· ∈ s.pool.accepted)) _ _).mpr
      ⟨fun _ h => h, hpairs⟩
    exact hmem.imp fun job p hjob => hkept.welcomed hround hjob.1 hjob.2
  · intro d hd
    obtain ⟨b, hb, hid, _⟩ := hkept.known d hd
    exact List.mem_map.mpr ⟨b, hb, hid⟩
  · intro hloss job _
    have hboth : s.Kept x cfg ∧
        ∀ id, (s.mailsOf id).length = (s.pool.completed.map Job.id).count id := by
      refine (hfresh.and (Along.of_forall_mem hloss _)).invariant
        (I := fun t => t.Kept x cfg ∧
          ∀ id, (t.mailsOf id).length = (t.pool.completed.map Job.id).count id)
        ?_ ⟨kept_init _ _ _, by simp [init, mailsOf, MemJobs.init]⟩ hrun
      rintro t a t' ⟨ht, hexact⟩ ⟨hid, hnone⟩ hstep
      exact ⟨ht.step ho hsender hid hstep, exact_of_step ho hsender hnone hstep hexact⟩
    exact hboth.2 job.id

section OneAccount

/-- Texts as bytes for concrete runs: characters in unary. -/
def encodeText : List Char → List UInt8
  | [] => [2]
  | c :: cs => List.replicate c.toNat 1 ++ 0 :: encodeText cs

/-- `k` is the part of the next character that was read. -/
def decodeText (k : Nat) : List UInt8 → Option (List Char × List UInt8)
  | [] => none
  | b :: bs =>
    if b = 1 then decodeText (k + 1) bs
    else if b = 0 then (decodeText 0 bs).map fun text => (Char.ofNat k :: text.1, text.2)
    else some ([], bs)

theorem decodeText_ones (j k : Nat) (bs : List UInt8) :
    decodeText k (List.replicate j 1 ++ bs) = decodeText (k + j) bs := by
  induction j generalizing k with
  | zero => rfl
  | succ j ih =>
    rw [List.replicate_succ, List.cons_append, decodeText, if_pos rfl, ih]
    congr 1
    omega

theorem decodeText_encodeText (cs : List Char) (rest : List UInt8) :
    decodeText 0 (encodeText cs ++ rest) = some (cs, rest) := by
  induction cs with
  | nil => simp [encodeText, decodeText]
  | cons c cs ih =>
    rw [encodeText, List.append_assoc, decodeText_ones, List.cons_append, decodeText,
      if_neg (by decide), if_pos rfl, ih]
    simp

def decodeGreeted (bytes : List UInt8) : Except String Greeted :=
  match decodeText 0 bytes with
  | none => .error "unexpected end of JSON input"
  | some (name, rest) =>
    match decodeText 0 rest with
    | none => .error "unexpected end of JSON input"
    | some (email, _) => .ok ⟨0, String.ofList name, String.ofList email⟩

def sampleSMTP : SMTPConfig := ⟨"mail.example.com", "api", "secret", "api@example.com"⟩

def sampleWiring : Wiring ResetTokenStore ResetToken where
  env := Service.oneTokenEnv
  cleanPath := id
  options := { Service.sampleOptions with
    marshal := fun _ name email => encodeText name.toList ++ encodeText email.toList }
  tokens := ResetTokenStore.tokenStore
  unmarshal := decodeGreeted
  lib := ⟨fun address => if address = "" then some "mail: no address" else none, fun _ => none⟩
  sender := .smtp sampleSMTP

/-- The first reply of the mail server is lost, so the mail is sent again. -/
def sentTwice (w : Fin 1) : List (AppAct 1) :=
  [.visit Service.registerAda "job-1" 0 0, .worker (.loopHead w), .worker (.dequeue w 0),
    .worker (.findHandler w), .mail w none (.lost "EOF"), .worker (.settle w 0),
    .worker (.loopHead w), .worker (.dequeue w Time.second), .worker (.findHandler w),
    .mail w none .sent]

theorem welcome_mails_twice :
    ∃ s, run (step sampleWiring) (init Store.newMemoryUserStore 0 .new) (sentTwice 0) = some s ∧
      s.pool.completed.map Job.id = ["job-1"] ∧
      s.delivered.map (fun d => d.2.to_) = ["ada@example.com", "ada@example.com"] ∧
      List.Forall₂ (fun job p => Welcomed sampleWiring sampleSMTP s job p.2) s.pool.accepted
        (registered sampleWiring (init Store.newMemoryUserStore 0 .new) (sentTwice 0)) := by
  have hround : ∀ (id : Int) (name email : String), ∃ n, sampleWiring.unmarshal
      (sampleWiring.options.marshal id name email) = .ok ⟨n, name, email⟩ := by
    intro id name email
    refine ⟨0, ?_⟩
    have hrest := decodeText_encodeText email.toList []
    rw [List.append_nil] at hrest
    simp [sampleWiring, decodeGreeted, decodeText_encodeText, hrest]
  have hends : ∃ s, run (step sampleWiring) (init Store.newMemoryUserStore 0 .new) (sentTwice 0) =
      some s ∧ s.pool.completed.map Job.id = ["job-1"] ∧
      s.delivered.map (fun d => d.2.to_) = ["ada@example.com", "ada@example.com"] :=
    exists_run_of_any (by decide +kernel)
  obtain ⟨s, hrun, hdone, hto⟩ := hends
  obtain ⟨_, hwelcomed, _⟩ := welcome_mails Service.oneTokenEnv_signs rfl rfl hround rfl hrun
    (by decide +kernel)
  exact ⟨s, hrun, hdone, hto, hwelcomed⟩

end OneAccount

end Application

end GoRestApi.Process
