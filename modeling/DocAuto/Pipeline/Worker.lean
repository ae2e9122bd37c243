import DocAuto.Pipeline.Command
import DocAuto.Text

/-! The processors of the OCR, extraction and webhook queues. -/
namespace DocAuto.Pipeline
open Process Database

/-- What a processor returns to the queue. -/
inductive JobResult where
  | skipped (reason : Option String)
  | extracted (textLength : Nat)
  | failed (reason : String)
  | unknownDocType
  | decided (decision : DecisionResult)
  | delivered (attempt : Nat)
  | deadLetter (attempt : Nat)
  deriving DecidableEq, Repr

/-- The unconditional status write of the workers. -/
def setStatus (job : JobData) (status : DocumentStatus) : Proc Unit :=
  transaction (.updateDocument job.tenantId job.documentId { status := some status })

/-- An audit row of a worker: it has no actor. -/
def workerAudit (job : JobData) (event : AuditEvent) (prevStatus newStatus : DocumentStatus)
    (payload : AuditPayload) : Proc Unit :=
  writeAuditLog job.tenantId {
    documentId := job.documentId, event := event, prevStatus := some prevStatus,
    newStatus := some newStatus, payload := some payload }

def runOcr (job : JobData) (document : DocumentRow) : Proc JobResult := do
  let fileBuffer ← perform (.downloadDocument document.storageKey)
  let ocr ← perform (.extractText fileBuffer document.fileName job.documentId)
  transaction (.updateDocument job.tenantId job.documentId
    { status := some .extracted, rawText := some (some ocr.rawText) })
  workerAudit job .ocrComplete .ocrProcessing .extracted (.ocr ocr.blockCount (Text.length ocr.rawText))
  perform (.queueAdd
    { documentId := job.documentId, tenantId := document.tenantId, processingRunId := job.processingRunId }
    (extractionJobId job.documentId job.processingRunId))
  return .extracted (Text.length ocr.rawText)

def ocrProcessor (job : JobData) : Proc JobResult := do
  let document ← transaction (.findDocument job.tenantId job.documentId)
  match document with
  | none => return .skipped none
  | some document =>
    setStatus job .ocrProcessing
    tryCatch (runOcr job document) fun err => do
      setStatus job .failed
      throw err

/-- The white space that `String.prototype.trim` removes. -/
def isTrimmed (c : Char) : Bool :=
  let n := c.toNat
  (9 ≤ n && n ≤ 13) || n == 32 || n == 0xA0 || n == 0x1680 || (0x2000 ≤ n && n ≤ 0x200A) ||
    n == 0x2028 || n == 0x2029 || n == 0x202F || n == 0x205F || n == 0x3000 || n == 0xFEFF

def isBlank (s : String) : Bool := s.toList.all isTrimmed

/-- The row built from the model's answer. -/
def extractionRow (documentId : Uuid) (r : ExtractionResult) : ExtractionRow :=
  { documentId := documentId
    vendorName := r.extraction.vendor.name
    vendorAddress := r.extraction.vendor.address
    vendorTaxId := r.extraction.vendor.taxId
    invoiceNumber := r.extraction.invoice.number
    invoiceDate := r.extraction.invoice.date
    dueDate := r.extraction.invoice.dueDate
    subtotal := some (toFixed2 r.extraction.totals.subtotal)
    tax := some (toFixed2 r.extraction.totals.tax)
    total := some (toFixed2 r.extraction.totals.total)
    confidenceScores := some r.extraction.confidence
    lineItems := some r.extraction.lineItems
    llmModel := some r.llmModel
    inputTokens := some r.inputTokens
    outputTokens := some r.outputTokens }

def enqueueWebhook (job : JobData) (tenant : Option TenantRow) : Proc Unit :=
  if truthy (tenant.bind (·.webhookUrl)) then perform (.webhookQueueAdd job.documentId job.tenantId)
  else return ()

/-- What follows the insert of the extraction: the status write of the decision, its audit rows and the webhook. -/
def applyDecision (job : JobData) (tenant : Option TenantRow) (threshold : ℚ) (r : ExtractionResult) :
    Proc JobResult := do
  let decision := evaluateExtraction r.extraction threshold
  let payload := AuditPayload.extraction r.llmModel r.inputTokens r.outputTokens decision.minConfidence
  if decision.decision = .autoApprove then
    setStatus job .approved
    workerAudit job .extracted .extracting .approved payload
    workerAudit job .autoApproved .approved .approved
      (.approval threshold decision.minConfidence decision.lineItemsSum)
    enqueueWebhook job tenant
    return .decided decision
  else
    setStatus job .pendingReview
    workerAudit job .extracted .extracting .pendingReview payload
    workerAudit job .sentToReview .pendingReview .pendingReview (.reasons decision.reasons)
    return .decided decision

def classifyAndExtract (job : JobData) (rawText : String) (tenant : Option TenantRow) (threshold : ℚ) :
    Proc JobResult := do
  let classification ← perform (.classifyDocument rawText job.documentId)
  if classification.docType = .unknown then
    transaction (.updateDocument job.tenantId job.documentId
      { status := some .pendingReview, docType := some (some .unknown) })
    workerAudit job .sentToReview .extracting .pendingReview
      (.unknownType classification.docType classification.confidence)
    return .unknownDocType
  else
    transaction (.updateDocument job.tenantId job.documentId { docType := some (some classification.docType) })
    let r ← perform (.extractInvoice rawText job.documentId)
    transaction (.insertExtraction job.tenantId (extractionRow job.documentId r))
    applyDecision job tenant threshold r

def emptyTextMessage : String := "OCR returned no text -- nothing to classify or extract"

def extractionProcessor (job : JobData) : Proc JobResult := do
  let found ← transaction (.findDocumentWithExtraction job.tenantId job.documentId)
  match found with
  | none => return .skipped none
  | some (document, extraction) =>
    if extraction.isSome ∧ (document.status = .approved ∨ document.status = .pendingReview) then
      return .skipped (some "already_processed")
    else match document.rawText.filter (fun t => !isBlank t) with
    | none =>
      setStatus job .failed
      workerAudit job .extracted document.status .failed (.error emptyTextMessage)
      return .failed "empty_raw_text"
    | some rawText =>
      let tenant ← transaction (.findTenant job.tenantId)
      let threshold := (tenant.map (·.extractionThreshold)).getD (85 / 100)
      setStatus job .extracting
      tryCatch (classifyAndExtract job rawText tenant threshold) fun err => do
        setStatus job .failed
        workerAudit job .extracted .extracting .failed (.error (message err))
        throw err

/-- `defaultJobOptions.attempts`. -/
def attempts : Nat := 3

def webhookMaxAttempts : Nat := attempts

def maxResponseBodyChars : Nat := 2000

def approvedPayload (job : JobData) (document : DocumentRow) (extraction : Option ExtractionRow) :
    WebhookPayload :=
  { event := .documentApproved, documentId := job.documentId, tenantId := job.tenantId
    status := .approved, docType := document.docType
    extraction := extraction.map fun e => ⟨e.vendorName, e.invoiceNumber, e.total⟩ }

def rejectedPayload (job : JobData) (document : DocumentRow) (auditLog : List AuditRow) : WebhookPayload :=
  let reason := match (auditLog.find? (·.event = .rejected)).bind (·.payload) with
    | some (.rejection reason) => some reason
    | _ => none
  { event := .documentRejected, documentId := job.documentId, tenantId := job.tenantId
    status := .rejected, docType := document.docType, reason := reason.filter (· ≠ "") }

def buildPayload (job : JobData) (document : DocumentRow) (extraction : Option ExtractionRow) :
    Proc WebhookPayload := do
  if document.status = .approved then return approvedPayload job document extraction
  else
    let auditLog ← transaction (.selectAuditLog job.tenantId job.documentId)
    return rejectedPayload job document auditLog

/-- The outcome of the HTTP request: response status, response text, delivery error. -/
structure Delivery where
  responseStatus : Option Nat := none
  responseBodyText : Option String := none
  deliveryError : Option String := none

def deliver (url : String) (payload : WebhookPayload) (secret : String) : Proc Delivery :=
  tryCatch (do
    let res ← perform (.fetch url payload secret)
    return {
      responseStatus := some res.status
      responseBodyText := some (Text.sliceStart maxResponseBodyChars res.body)
      deliveryError := if res.ok then none else some ("Non-2xx response: " ++ toString res.status) })
    fun err => return { deliveryError := some (message err) }

/-- Record the outcome; `deliveryId` is the id of the row inserted before the request. -/
def recordDelivery (job : JobData) (attempt : Nat) (deliveryId : Uuid) (d : Delivery) : Proc JobResult := do
  let isFinalAttempt := decide (webhookMaxAttempts ≤ attempt)
  let succeeded := !truthy d.deliveryError
  transaction (.updateDelivery job.tenantId {
    status := if succeeded then .success else if isFinalAttempt then .deadLetter else .failed
    responseStatus := d.responseStatus
    responseBody := d.responseBodyText.or d.deliveryError
    delivered := succeeded } deliveryId)
  if succeeded then
    writeAuditLog job.tenantId {
      documentId := job.documentId, event := .webhookSent, payload := some (.sent attempt d.responseStatus) }
    return .delivered attempt
  else
    writeAuditLog job.tenantId {
      documentId := job.documentId, event := .webhookFailed
      payload := some (.undelivered attempt isFinalAttempt (d.deliveryError.getD "") d.responseStatus) }
    if isFinalAttempt then return .deadLetter attempt
    else throw (.other ("Webhook delivery failed (attempt " ++ toString attempt ++ "/" ++
      toString webhookMaxAttempts ++ "): " ++ d.deliveryError.getD ""))

/-- `deliveryId` is the UUID the insert of the delivery row generates. -/
def processWebhookJob (job : JobData) (deliveryId : Uuid) : Proc JobResult := do
  let (found, tenant) ← transaction (.webhookSubject job.tenantId job.documentId)
  match found, tenant with
  | some (document, extraction), some tenant =>
    match tenant.webhookUrl.filter (· ≠ ""), tenant.webhookSecret.filter (· ≠ "") with
    | some url, some secret =>
      if document.status ≠ .approved ∧ document.status ≠ .rejected then return .skipped (some "not_terminal")
      else
        let existingAttempts ← transaction (.countDeliveries job.tenantId job.documentId)
        let attempt := existingAttempts + 1
        let payload ← buildPayload job document extraction
        let deliveryId ← transaction (.insertDelivery job.tenantId {
          id := deliveryId, documentId := job.documentId, tenantId := job.tenantId, status := .pending
          attempt := attempt, responseStatus := none, responseBody := none, deliveredAt := none })
        let d ← deliver url payload secret
        recordDelivery job attempt deliveryId d
    | _, _ => return .skipped (some "not_configured")
  | _, _ => return .skipped (some "not_found")

end DocAuto.Pipeline
