import DocAuto.Database.Transaction

/-! The atomic commands of the services and workers: one transaction, one call of
a queue, or one call of a storage, OCR, LLM or HTTP provider. -/
namespace DocAuto.Pipeline
open Process Database

/-- `processingRunId`: the literal `initial`, or a UUID drawn by a reprocess. -/
inductive RunId where
  | initial
  | reprocess (id : Uuid)
  deriving DecidableEq, Repr

/-- The ids `ocr:<document>:<run>` and `extraction:<document>:<run>`; webhook jobs are
added without an id and get a serial number from the queue. -/
inductive JobId where
  | ocr (documentId : Uuid) (processingRunId : RunId)
  | extraction (documentId : Uuid) (processingRunId : RunId)
  | webhook (serial : Nat)
  deriving DecidableEq, Repr

def ocrJobId (documentId : Uuid) (processingRunId : RunId := .initial) : JobId :=
  .ocr documentId processingRunId

def extractionJobId (documentId : Uuid) (processingRunId : RunId := .initial) : JobId :=
  .extraction documentId processingRunId

structure JobData where
  documentId : Uuid
  tenantId : Uuid
  processingRunId : RunId := .initial
  deriving DecidableEq, Repr

structure OcrResult where
  rawText : String
  blockCount : Nat
  deriving DecidableEq, Repr

structure ClassificationResult where
  docType : DocType
  confidence : ℚ
  deriving DecidableEq, Repr

/-- The result of `extractInvoice`. -/
structure ExtractionResult where
  extraction : InvoiceExtraction
  llmModel : String
  inputTokens : Nat
  outputTokens : Nat
  deriving DecidableEq, Repr

structure PayloadExtraction where
  vendorName : Option String
  invoiceNumber : Option String
  total : Option ℚ
  deriving DecidableEq, Repr

inductive WebhookEvent where
  | documentApproved | documentRejected
  deriving DecidableEq, Repr

structure WebhookPayload where
  event : WebhookEvent
  documentId : Uuid
  tenantId : Uuid
  status : DocumentStatus
  docType : Option DocType
  reason : Option String := none
  extraction : Option PayloadExtraction := none
  deriving DecidableEq, Repr

/-- The status of an HTTP response and its body text, empty where reading the body failed. -/
structure FetchResponse where
  status : Nat
  body : String
  deriving DecidableEq, Repr

def FetchResponse.ok (r : FetchResponse) : Bool := 200 ≤ r.status && r.status < 300

inductive Cmd where
  | tx (t : Tx)
  | uploadDocument (p : Upload) (documentId : Uuid)
  | downloadDocument (storageKey : String)
  | getPresignedUrl (storageKey : String) (ttlSeconds : Nat)
  | extractText (buffer : List UInt8) (fileName : String) (documentId : Uuid)
  | classifyDocument (rawText : String) (documentId : Uuid)
  | extractInvoice (rawText : String) (documentId : Uuid)
  | queueAdd (data : JobData) (jobId : JobId)
  | webhookQueueAdd (documentId tenantId : Uuid)
  | fetch (url : String) (payload : WebhookPayload) (signingSecret : String)
  deriving DecidableEq, Repr

@[reducible] def Cmd.Resp : Cmd → Type
  | .tx t => t.Result
  | .uploadDocument _ _ | .getPresignedUrl _ _ => String
  | .downloadDocument _ => List UInt8
  | .extractText _ _ _ => OcrResult
  | .classifyDocument _ _ => ClassificationResult
  | .extractInvoice _ _ => ExtractionResult
  | .queueAdd _ _ | .webhookQueueAdd _ _ => Unit
  | .fetch _ _ _ => FetchResponse

abbrev Proc := Program Cmd Cmd.Resp Failure

def perform (c : Cmd) : Proc c.Resp := Program.perform c

def transaction (t : Tx) : Proc t.Result := perform (.tx t)

/-- `err instanceof Error ? err.message : String(err)`. -/
def message : Failure → String
  | .app e => e.message
  | .uniqueViolation c => "duplicate key value violates unique constraint " ++ c
  | .foreignKeyViolation c => "insert or update violates foreign key constraint " ++ c
  | .rowSecurityViolation => "new row violates row-level security policy"
  | .other m => m

/-- JavaScript truthiness of a nullable string. -/
def truthy (s : Option String) : Bool := s.any (· ≠ "")

def writeAuditLog (tenantId : Uuid) (row : AuditRow) : Proc Unit := transaction (.writeAuditLog tenantId row)

end DocAuto.Pipeline
