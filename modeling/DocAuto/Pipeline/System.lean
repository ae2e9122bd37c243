import DocAuto.Pipeline.Service
import DocAuto.Pipeline.Worker
import DocAuto.Process.Run
import Mathlib.Logic.Function.Basic

/-! The running system: the database, the job queues, and the calls and job executions
in flight, which take turns command by command. Transactions run with the
row-level-security policies in force. -/
namespace DocAuto.Pipeline
open Process Database

inductive ApiCall where
  | upload (p : Upload) (id : Uuid)
  | list (tenantId : Uuid) (status : Option DocumentStatus) (page pageSize : Nat)
  | get (tenantId documentId : Uuid)
  | fileUrl (tenantId documentId : Uuid)
  | approve (tenantId documentId actorId : Uuid)
  | reject (tenantId documentId actorId : Uuid) (reason : String)
  | edit (tenantId documentId actorId : Uuid) (changes : ExtractionEdit)
  | reprocess (tenantId documentId actorId processingRunId : Uuid)
  | getTenant (tenantId : Uuid)
  | updateTenant (tenantId : Uuid) (params : TenantUpdate)
  | rotateSecret (tenantId : Uuid) (secret : String)
  deriving DecidableEq, Repr

namespace ApiCall

def program : ApiCall → Proc Unit
  | upload p id => (uploadNewDocument p id).void
  | list tenantId status page pageSize => (listDocuments tenantId status page pageSize).void
  | get tenantId documentId => (getDocumentWithAudit tenantId documentId).void
  | fileUrl tenantId documentId => (getDocumentFileUrl tenantId documentId).void
  | approve tenantId documentId actorId => (approveDocument tenantId documentId actorId).void
  | reject tenantId documentId actorId reason => (rejectDocument tenantId documentId actorId reason).void
  | edit tenantId documentId actorId changes => (editDocumentExtraction tenantId documentId actorId changes).void
  | reprocess tenantId documentId actorId run => (reprocessDocument tenantId documentId actorId run).void
  | getTenant tenantId => (getTenantConfig tenantId).void
  | updateTenant tenantId params => (updateTenantConfig tenantId params).void
  | rotateSecret tenantId secret => (rotateWebhookSecret tenantId secret).void

def documentId : ApiCall → Option Uuid
  | upload _ id => some id
  | get _ d | fileUrl _ d | approve _ d _ | reject _ d _ _ | edit _ d _ _ | reprocess _ d _ _ => some d
  | list _ _ _ _ | getTenant _ | updateTenant _ _ | rotateSecret _ _ => none

/-- The UUIDs the call draws. -/
def draws : ApiCall → List Uuid
  | upload _ id => [id]
  | reprocess _ _ _ run => [run]
  | _ => []

end ApiCall

/-- The processor of a job; `draw` is the UUID a webhook execution uses. -/
def processor (jobId : JobId) (data : JobData) (draw : Uuid) : Proc Unit :=
  match jobId with
  | .ocr _ _ => (ocrProcessor data).void
  | .extraction _ _ => (extractionProcessor data).void
  | .webhook _ => (processWebhookJob data draw).void

abbrev ProcId := Uuid

inductive JobState where
  | waiting
  | delayed
  | active (executor : ProcId)
  | completed
  | failed
  deriving DecidableEq, Repr

structure Job where
  data : JobData
  state : JobState
  attemptsMade : Nat
  deriving DecidableEq, Repr

/-- On whose behalf a process runs. -/
inductive Owner where
  | api (call : ApiCall)
  | job (jobId : JobId) (data : JobData)
  deriving DecidableEq, Repr

def Owner.documentId : Owner → Option Uuid
  | .api call => call.documentId
  | .job _ data => some data.documentId

/-- A call or job execution in flight, with the events it has been through, newest first. -/
structure Activity where
  owner : Owner
  program : Proc Unit
  transcript : List (Event Cmd Cmd.Resp Failure)

/-- What the processes share. -/
structure World where
  db : Db
  jobs : JobId → Option Job
  serial : Nat

namespace World

/-- `add` does nothing when a job of that id exists. -/
def add (w : World) (jobId : JobId) (data : JobData) : World :=
  if (w.jobs jobId).isSome then w
  else { w with jobs := Function.update w.jobs jobId (some ⟨data, .waiting, 0⟩) }

theorem add_db (w : World) (jobId : JobId) (data : JobData) : (w.add jobId data).db = w.db := by
  unfold add
  split <;> rfl

def setJob (w : World) (jobId : JobId) (job : Option Job) : World :=
  { w with jobs := Function.update w.jobs jobId job }

end World

/-- The environment's part in a command: it lets the command run, makes it throw
without effect, or supplies a provider's answer. -/
inductive Answer where
  | execute
  | throws (e : Failure)
  | text (s : String)
  | bytes (b : List UInt8)
  | ocr (r : OcrResult)
  | classification (r : ClassificationResult)
  | extraction (r : ExtractionResult)
  | response (r : FetchResponse)
  deriving DecidableEq, Repr

def Cmd.exec : (c : Cmd) → Answer → World → Option (Except Failure c.Resp × World)
  | _, .throws e, w => some (.error e, w)
  | .tx t, .execute, w => some ((t.run true w.db).1, { w with db := (t.run true w.db).2 })
  | .queueAdd data jobId, .execute, w => some (.ok (), w.add jobId data)
  | .webhookQueueAdd documentId tenantId, .execute, w =>
    some (.ok (), { w.add (.webhook w.serial) { documentId, tenantId } with serial := w.serial + 1 })
  | .uploadDocument _ _, .text s, w => some (.ok s, w)
  | .getPresignedUrl _ _, .text s, w => some (.ok s, w)
  | .downloadDocument _, .bytes b, w => some (.ok b, w)
  | .extractText _ _ _, .ocr r, w => some (.ok r, w)
  | .classifyDocument _ _, .classification r, w => some (.ok r, w)
  | .extractInvoice _ _, .extraction r, w => some (.ok r, w)
  | .fetch _ _ _, .response r, w => some (.ok r, w)
  | _, _, _ => none

/-- `issued` holds every UUID and process id drawn so far. -/
structure Config where
  world : World
  procs : ProcId → Option Activity
  issued : List Uuid

inductive Action where
  | call (id : ProcId) (call : ApiCall)
  | start (id : ProcId) (jobId : JobId) (draw : Uuid)
  | step (id : ProcId) (answer : Answer)
  | finish (id : ProcId)
  | crash (id : ProcId)
  | stall (jobId : JobId)
  | evict (jobId : JobId)
  | tick
  deriving DecidableEq, Repr

namespace Config

def spawn (c : Config) (id : ProcId) (draws : List Uuid) (owner : Owner) (program : Proc Unit) : Config :=
  { c with
    procs := Function.update c.procs id (some ⟨owner, program, []⟩)
    issued := id :: (draws ++ c.issued) }

def kill (c : Config) (id : ProcId) : Config := { c with procs := Function.update c.procs id none }

def fresh (c : Config) (ids : List Uuid) : Bool := ids.all (· ∉ c.issued) && decide ids.Nodup

end Config

/-- What the queue makes of an execution that ended: the job completes, is delayed
for another attempt, or fails for good. -/
def Job.settle (job : Job) (failed : Bool) : Job :=
  if failed then
    { job with
      attemptsMade := job.attemptsMade + 1
      state := if job.attemptsMade + 1 < attempts then .delayed else .failed }
  else { job with state := .completed }

/-- An execution that has lost its job to a re-delivery ends without effect on it. -/
def World.settle (w : World) (id : ProcId) (owner : Owner) (failed : Bool) : World :=
  match owner with
  | .api _ => w
  | .job jobId _ =>
    match w.jobs jobId with
    | some job => if job.state = .active id then w.setJob jobId (some (job.settle failed)) else w
    | none => w

/-- How the program of a process has ended, if it has. -/
def Activity.ended (p : Activity) : Option Bool :=
  match p.program with
  | .ret _ => some false
  | .throw _ => some true
  | .call _ _ => none

def Activity.advance (p : Activity) (answer : Answer) (w : World) : Option (Activity × World) :=
  match p.program with
  | .call c k =>
    match c.exec answer w with
    | some (r, w') => some ({ p with program := k r, transcript := ⟨c, r⟩ :: p.transcript }, w')
    | none => none
  | _ => none

def step (c : Config) : Action → Option Config
  | .call id call =>
    if c.fresh (id :: call.draws) then some (c.spawn id call.draws (.api call) call.program) else none
  | .start id jobId draw =>
    match c.world.jobs jobId with
    | some job =>
      if (job.state = .waiting ∨ job.state = .delayed) ∧ c.fresh [id, draw] then
        some { c.spawn id [draw] (.job jobId job.data) (processor jobId job.data draw) with
          world := c.world.setJob jobId (some { job with state := .active id }) }
      else none
    | none => none
  | .step id answer =>
    match c.procs id with
    | some p =>
      match p.advance answer c.world with
      | some (p', w) => some { c with world := w, procs := Function.update c.procs id (some p') }
      | none => none
    | none => none
  | .finish id =>
    match c.procs id with
    | some p =>
      match p.ended with
      | some failed => some { c.kill id with world := c.world.settle id p.owner failed }
      | none => none
    | none => none
  | .crash id => if (c.procs id).isSome then some (c.kill id) else none
  | .stall jobId =>
    match c.world.jobs jobId with
    | some job =>
      match job.state with
      | .active _ => some { c with world := c.world.setJob jobId (some { job with state := .waiting }) }
      | _ => none
    | none => none
  | .evict jobId =>
    match c.world.jobs jobId with
    | some job =>
      if job.state = .completed ∨ job.state = .failed then
        some { c with world := c.world.setJob jobId none }
      else none
    | none => none
  | .tick => some { c with world := { c.world with db := { c.world.db with now := c.world.db.now + 1 } } }

/-- What the steps do, action by action. -/
inductive Turn (c : Config) : Action → Config → Prop where
  | call {id call} : c.fresh (id :: call.draws) = true →
    Turn c (.call id call) (c.spawn id call.draws (.api call) call.program)
  | start {id jobId draw job} : c.world.jobs jobId = some job → job.state = .waiting ∨ job.state = .delayed →
    c.fresh [id, draw] = true →
    Turn c (.start id jobId draw) { c.spawn id [draw] (.job jobId job.data) (processor jobId job.data draw) with
      world := c.world.setJob jobId (some { job with state := .active id }) }
  | step {id answer p cmd k r w} : c.procs id = some p → p.program = .call cmd k →
    cmd.exec answer c.world = some (r, w) →
    Turn c (.step id answer) { c with
      world := w
      procs := Function.update c.procs id (some { p with program := k r, transcript := ⟨cmd, r⟩ :: p.transcript }) }
  | finish {id p failed} : c.procs id = some p → p.ended = some failed →
    Turn c (.finish id) { c.kill id with world := c.world.settle id p.owner failed }
  | crash {id p} : c.procs id = some p → Turn c (.crash id) (c.kill id)
  | stall {jobId job id} : c.world.jobs jobId = some job → job.state = .active id →
    Turn c (.stall jobId) { c with world := c.world.setJob jobId (some { job with state := .waiting }) }
  | evict {jobId job} : c.world.jobs jobId = some job → job.state = .completed ∨ job.state = .failed →
    Turn c (.evict jobId) { c with world := c.world.setJob jobId none }
  | tick : Turn c .tick { c with world := { c.world with db := { c.world.db with now := c.world.db.now + 1 } } }

theorem advance_inv {p p' : Activity} {answer : Answer} {w w' : World} (h : p.advance answer w = some (p', w')) :
    ∃ cmd k r, p.program = .call cmd k ∧ cmd.exec answer w = some (r, w') ∧
      p' = { p with program := k r, transcript := ⟨cmd, r⟩ :: p.transcript } := by
  unfold Activity.advance at h
  split at h
  · next cmd k hc =>
    split at h
    · next r v he =>
      obtain ⟨rfl, rfl⟩ : _ = p' ∧ v = w' := by simpa using h
      exact ⟨cmd, k, r, hc, he, rfl⟩
    · cases h
  · cases h

theorem step_turn {c c' : Config} {a : Action} (h : step c a = some c') : Turn c a c' := by
  cases a with
  | call id call =>
    simp only [step, Option.ite_none_right_eq_some, Option.some.injEq] at h
    obtain ⟨hfresh, rfl⟩ := h
    exact .call hfresh
  | start id jobId draw =>
    simp only [step] at h
    split at h
    · next job hj =>
      simp only [Option.ite_none_right_eq_some, Option.some.injEq] at h
      obtain ⟨⟨hst, hfresh⟩, rfl⟩ := h
      exact .start hj hst hfresh
    · cases h
  | step id answer =>
    simp only [step] at h
    split at h
    · next p hp =>
      split at h
      · next p' w ha =>
        obtain ⟨cmd, k, r, hc, he, rfl⟩ := advance_inv ha
        obtain rfl := Option.some.inj h
        exact .step hp hc he
      · cases h
    · cases h
  | finish id =>
    simp only [step] at h
    split at h
    · next p hp =>
      split at h
      · next failed he =>
        obtain rfl := Option.some.inj h
        exact .finish hp he
      · cases h
    · cases h
  | crash id =>
    simp only [step, Option.ite_none_right_eq_some, Option.some.injEq] at h
    obtain ⟨hsome, rfl⟩ := h
    obtain ⟨p, hp⟩ := Option.isSome_iff_exists.1 hsome
    exact .crash hp
  | stall jobId =>
    simp only [step] at h
    split at h
    · next job hj =>
      split at h
      · next id hst =>
        obtain rfl := Option.some.inj h
        exact .stall hj hst
      · cases h
    · cases h
  | evict jobId =>
    simp only [step] at h
    split at h
    · next job hj =>
      simp only [Option.ite_none_right_eq_some, Option.some.injEq] at h
      obtain ⟨hst, rfl⟩ := h
      exact .evict hj hst
    · cases h
  | tick =>
    obtain rfl := Option.some.inj h
    exact .tick

/-- A fresh installation: tenants and users exist, nothing else does. -/
def initial (tenants : List TenantRow) (users : List UserRow) : Config :=
  { world := ⟨⟨tenants, users, [], [], [], [], 0⟩, fun _ => none, 0⟩
    procs := fun _ => none
    issued := [] }

/-- The configurations some run of the system reaches. -/
def Reachable (c : Config) : Prop :=
  ∃ tenants users actions, run step (initial tenants users) actions = some c

/-- The committed status of a document. -/
def Config.status (c : Config) (d : Uuid) : Option DocumentStatus :=
  (c.world.db.documents.find? fun r => r.id == d).map (·.status)

section Demo

/-- One tenant with a webhook, its admin, and document 3 uploaded by process 10. -/
def demo : Config :=
  initial [⟨1, "Acme", "acme", 85 / 100, some "https://acme.test/hook", some "secret"⟩]
    [⟨2, 1, "alice@acme.test", "hash", .admin⟩]

def demoUpload : List Action :=
  [.call 10 (.upload ⟨1, 2, "invoice.pdf", "application/pdf", []⟩ 3), .step 10 .execute, .step 10 (.text "1/3"),
    .step 10 .execute, .step 10 .execute, .step 10 .execute, .finish 10]

def demoOcr (run : RunId) (id : ProcId) (text : String) : List Action :=
  [.start id (.ocr 3 run) (id + 1), .step id .execute, .step id .execute, .step id (.bytes []),
    .step id (.ocr ⟨text, 1⟩), .step id .execute, .step id .execute, .step id .execute]

/-- A first OCR attempt whose download times out. -/
def demoFailedOcr : List Action :=
  [.start 20 (.ocr 3 .initial) 21, .step 20 .execute, .step 20 .execute, .step 20 (.throws (.other "timeout")),
    .step 20 .execute, .finish 20]

/-- A model answer whose single field has the given confidence. -/
def demoResult (total confidence : ℚ) : ExtractionResult :=
  ⟨⟨⟨some "Vendor", none, none⟩, ⟨some "1", none, none⟩, ⟨total, 0, total⟩, [⟨"item", 1, total, total⟩],
    [("total", confidence)]⟩, "model", 1, 1⟩

/-- An extraction up to the status write of its decision. -/
def demoExtraction (run : RunId) (id : ProcId) (r : ExtractionResult) : List Action :=
  [.start id (.extraction 3 run) (id + 1), .step id .execute, .step id .execute, .step id .execute,
    .step id (.classification ⟨.invoice, 1⟩), .step id .execute, .step id (.extraction r), .step id .execute,
    .step id .execute]

/-- A confident extraction takes a document from upload to approval. -/
example : (run step demo (demoUpload ++ demoOcr .initial 20 "text" ++ [.finish 20] ++
    demoExtraction .initial 30 (demoResult 10 (99 / 100)))).map (·.status 3) = some (some .approved) := by
  decide +kernel

end Demo
end DocAuto.Pipeline
