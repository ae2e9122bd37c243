import DocAuto.Database.Outcome
import DocAuto.Pipeline.System

/-! Control points: where a call or an execution stands, as far as the documents can
tell. A point fixes the next command exactly, except that calls and executions with no
further business with a document stand `aside`. -/
namespace DocAuto.Pipeline
open Process Database

/-- Inside `uploadNewDocument`. -/
inductive UploadPoint where
  | insert
  | store
  | key (storageKey : String)
  | announce
  | enqueue
  | recover
  deriving DecidableEq, Repr

/-- Inside the OCR processor; `document` is the row it read. -/
inductive OcrPoint where
  | read
  | claim (document : DocumentRow)
  | download (document : DocumentRow)
  | recognise (document : DocumentRow) (buffer : List UInt8)
  | save (document : DocumentRow) (ocr : OcrResult)
  | report (document : DocumentRow) (ocr : OcrResult)
  | enqueue (document : DocumentRow)
  | recover
  deriving DecidableEq, Repr

/-- Inside the extraction processor. -/
inductive ExtractionPoint where
  | read
  | refuse (status : DocumentStatus)
  | reportRefusal (status : DocumentStatus)
  | findTenant (rawText : String)
  | claim (rawText : String) (tenant : Option TenantRow)
  | classify (rawText : String) (tenant : Option TenantRow)
  | park (c : ClassificationResult)
  | reportParked (c : ClassificationResult)
  | setType (rawText : String) (tenant : Option TenantRow) (docType : DocType)
  | extract (rawText : String) (tenant : Option TenantRow)
  | insert (tenant : Option TenantRow) (r : ExtractionResult)
  | decide (tenant : Option TenantRow) (r : ExtractionResult)
  | report (tenant : Option TenantRow) (r : ExtractionResult)
  | conclude (tenant : Option TenantRow) (r : ExtractionResult)
  | notify (r : ExtractionResult)
  | recover (err : Failure)
  | reportFailure (err : Failure)
  deriving DecidableEq, Repr

/-- `lost` is the end of a process whose last status write failed: it throws. -/
inductive Point where
  | aside
  | lost
  | upload (p : Upload) (id : Uuid) (at_ : UploadPoint)
  | review (t : Tx)
  | reset (tenantId documentId actorId run : Uuid)
  | reopen (tenantId documentId run : Uuid)
  | ocr (job : JobData) (at_ : OcrPoint)
  | extraction (job : JobData) (at_ : ExtractionPoint)
  deriving DecidableEq, Repr

def threshold (tenant : Option TenantRow) : ℚ := (tenant.map (·.extractionThreshold)).getD (85 / 100)

def decision (tenant : Option TenantRow) (r : ExtractionResult) : DecisionResult :=
  evaluateExtraction r.extraction (threshold tenant)

/-- The status a decision leads to. -/
def decided (tenant : Option TenantRow) (r : ExtractionResult) : DocumentStatus :=
  if (decision tenant r).decision = .autoApprove then .approved else .pendingReview

/-- The audit row `workerAudit` writes. -/
def workerRow (job : JobData) (event : AuditEvent) (prevStatus newStatus : DocumentStatus)
    (payload : AuditPayload) : AuditRow :=
  { documentId := job.documentId, event := event, prevStatus := some prevStatus
    newStatus := some newStatus, payload := some payload }

/-- The second audit row of a decision. -/
def concludeRow (job : JobData) (tenant : Option TenantRow) (r : ExtractionResult) : AuditRow :=
  if (decision tenant r).decision = .autoApprove then
    workerRow job .autoApproved .approved .approved
      (.approval (threshold tenant) (decision tenant r).minConfidence (decision tenant r).lineItemsSum)
  else workerRow job .sentToReview .pendingReview .pendingReview (.reasons (decision tenant r).reasons)

@[simp] theorem concludeRow_documentId (job : JobData) (tenant : Option TenantRow) (r : ExtractionResult) :
    (concludeRow job tenant r).documentId = job.documentId := by
  unfold concludeRow
  split <;> rfl

@[simp] theorem concludeRow_actorId (job : JobData) (tenant : Option TenantRow) (r : ExtractionResult) :
    (concludeRow job tenant r).actorId = none := by
  unfold concludeRow
  split <;> rfl

/-- Both rows of a decision name the status the decision leads to. -/
@[simp] theorem concludeRow_newStatus (job : JobData) (tenant : Option TenantRow) (r : ExtractionResult) :
    (concludeRow job tenant r).newStatus = some (decided tenant r) := by
  unfold concludeRow decided
  split <;> rfl

/-- Only an approval is reported as one. -/
theorem concludeRow_event (job : JobData) (tenant : Option TenantRow) (r : ExtractionResult) :
    decided tenant r = .approved ∧ (concludeRow job tenant r).event = .autoApproved ∨
      decided tenant r = .pendingReview ∧ (concludeRow job tenant r).event = .sentToReview := by
  unfold concludeRow decided
  split
  · exact .inl ⟨rfl, rfl⟩
  · exact .inr ⟨rfl, rfl⟩

def uploadRow (p : Upload) (id : Uuid) : AuditRow :=
  { documentId := id, actorId := some p.uploadedBy, event := .uploaded, newStatus := some .uploaded
    payload := some (.file p.fileName p.mimeType) }

def UploadPoint.command (p : Upload) (id : Uuid) : UploadPoint → Cmd
  | .insert => .tx (.insertDocument p id)
  | .store => .uploadDocument p id
  | .key storageKey => .tx (.updateDocument p.tenantId id { storageKey := some storageKey })
  | .announce => .tx (.writeAuditLog p.tenantId (uploadRow p id))
  | .enqueue => .queueAdd { documentId := id, tenantId := p.tenantId } (ocrJobId id)
  | .recover => .tx (.updateDocument p.tenantId id { status := some .failed })

def OcrPoint.command (job : JobData) : OcrPoint → Cmd
  | .read => .tx (.findDocument job.tenantId job.documentId)
  | .claim _ => .tx (.updateDocument job.tenantId job.documentId { status := some .ocrProcessing })
  | .download document => .downloadDocument document.storageKey
  | .recognise document buffer => .extractText buffer document.fileName job.documentId
  | .save _ ocr => .tx (.updateDocument job.tenantId job.documentId
      { status := some .extracted, rawText := some (some ocr.rawText) })
  | .report _ ocr => .tx (.writeAuditLog job.tenantId
      (workerRow job .ocrComplete .ocrProcessing .extracted (.ocr ocr.blockCount (Text.length ocr.rawText))))
  | .enqueue document => .queueAdd { job with tenantId := document.tenantId }
      (extractionJobId job.documentId job.processingRunId)
  | .recover => .tx (.updateDocument job.tenantId job.documentId { status := some .failed })

def ExtractionPoint.command (job : JobData) : ExtractionPoint → Cmd
  | .read => .tx (.findDocumentWithExtraction job.tenantId job.documentId)
  | .refuse _ | .recover _ => .tx (.updateDocument job.tenantId job.documentId { status := some .failed })
  | .reportRefusal status => .tx (.writeAuditLog job.tenantId
      (workerRow job .extracted status .failed (.error emptyTextMessage)))
  | .findTenant _ => .tx (.findTenant job.tenantId)
  | .claim _ _ => .tx (.updateDocument job.tenantId job.documentId { status := some .extracting })
  | .classify rawText _ => .classifyDocument rawText job.documentId
  | .park _ => .tx (.updateDocument job.tenantId job.documentId
      { status := some .pendingReview, docType := some (some .unknown) })
  | .reportParked c => .tx (.writeAuditLog job.tenantId
      (workerRow job .sentToReview .extracting .pendingReview (.unknownType c.docType c.confidence)))
  | .setType _ _ docType => .tx (.updateDocument job.tenantId job.documentId { docType := some (some docType) })
  | .extract rawText _ => .extractInvoice rawText job.documentId
  | .insert _ r => .tx (.insertExtraction job.tenantId (extractionRow job.documentId r))
  | .decide tenant r => .tx (.updateDocument job.tenantId job.documentId { status := some (decided tenant r) })
  | .report tenant r => .tx (.writeAuditLog job.tenantId
      (workerRow job .extracted .extracting (decided tenant r)
        (.extraction r.llmModel r.inputTokens r.outputTokens (decision tenant r).minConfidence)))
  | .conclude tenant r => .tx (.writeAuditLog job.tenantId (concludeRow job tenant r))
  | .notify _ => .webhookQueueAdd job.documentId job.tenantId
  | .reportFailure err => .tx (.writeAuditLog job.tenantId
      (workerRow job .extracted .extracting .failed (.error (message err))))

/-- Commands of no consequence for documents, extractions, status-bearing audit rows
and the OCR and extraction queues. -/
def Cmd.neutral : Cmd → Prop
  | .tx (.writeAuditLog _ row) => (row.event = .webhookSent ∨ row.event = .webhookFailed) ∧ row.newStatus = none
  | .tx (.insertDocument _ _) => False
  | .tx t => t.documentId = none
  | .queueAdd _ _ => False
  | _ => True

namespace Point

/-- What may come next. -/
def allows : Point → Cmd → Prop
  | aside, c => c.neutral
  | lost, _ => False
  | upload p id u, c => c = u.command p id
  | review t, c => c = .tx t
  | reset tenantId d actorId _, c => c = .tx (.reprocess tenantId d actorId)
  | reopen tenantId d run, c => c = .queueAdd
      { documentId := d, tenantId := tenantId, processingRunId := .reprocess run } (ocrJobId d (.reprocess run))
  | ocr job o, c => c = o.command job
  | extraction job e, c => c = e.command job

end Point

def UploadPoint.next (p : Upload) (id : Uuid) (u : UploadPoint) (c : Cmd) (r : Except Failure c.Resp) : Point :=
  match u, c, r with
  | .insert, .tx (.insertDocument _ _), .ok (some _) => .upload p id .store
  | .insert, _, _ => .aside
  | .store, .uploadDocument _ _, .ok storageKey => .upload p id (.key storageKey)
  | .key _, _, .ok _ => .upload p id .announce
  | .announce, _, .ok _ => .upload p id .enqueue
  | .recover, _, .error _ => .lost
  | _, _, .error _ => .upload p id .recover
  | _, _, .ok _ => .aside

def OcrPoint.next (job : JobData) (o : OcrPoint) (c : Cmd) (r : Except Failure c.Resp) : Point :=
  match o, c, r with
  | .read, .tx (.findDocument _ _), .ok (some document) => .ocr job (.claim document)
  | .claim document, _, .ok _ => .ocr job (.download document)
  | .download document, .downloadDocument _, .ok buffer => .ocr job (.recognise document buffer)
  | .recognise document _, .extractText _ _ _, .ok ocr => .ocr job (.save document ocr)
  | .save document ocr, _, .ok _ => .ocr job (.report document ocr)
  | .report document _, _, .ok _ => .ocr job (.enqueue document)
  | .read, _, .error _ | .claim _, _, .error _ | .recover, _, .error _ => .lost
  | _, _, .error _ => .ocr job .recover
  | _, _, .ok _ => .aside

/-- Where the extraction processor goes from the row it read. -/
def ExtractionPoint.found (job : JobData) (document : DocumentRow) (extraction : Option ExtractionRow) : Point :=
  if extraction.isSome ∧ (document.status = .approved ∨ document.status = .pendingReview) then .aside
  else match document.rawText.filter (fun t => !isBlank t) with
  | none => .extraction job (.refuse document.status)
  | some rawText => .extraction job (.findTenant rawText)

def ExtractionPoint.next (job : JobData) (e : ExtractionPoint) (c : Cmd) (r : Except Failure c.Resp) : Point :=
  match e, c, r with
  | .read, .tx (.findDocumentWithExtraction _ _), .ok (some (document, extraction)) =>
    found job document extraction
  | .refuse status, _, .ok _ => .extraction job (.reportRefusal status)
  | .reportRefusal _, _, _ | .reportFailure _, _, _ => .aside
  | .findTenant rawText, .tx (.findTenant _), .ok tenant => .extraction job (.claim rawText tenant)
  | .claim rawText tenant, _, .ok _ => .extraction job (.classify rawText tenant)
  | .classify rawText tenant, .classifyDocument _ _, .ok c =>
    if c.docType = .unknown then .extraction job (.park c) else .extraction job (.setType rawText tenant c.docType)
  | .park c, _, .ok _ => .extraction job (.reportParked c)
  | .setType rawText tenant _, _, .ok _ => .extraction job (.extract rawText tenant)
  | .extract _ tenant, .extractInvoice _ _, .ok r => .extraction job (.insert tenant r)
  | .insert tenant r, _, .ok _ => .extraction job (.decide tenant r)
  | .decide tenant r, _, .ok _ => .extraction job (.report tenant r)
  | .report tenant r, _, .ok _ => .extraction job (.conclude tenant r)
  | .conclude tenant r, _, .ok _ =>
    if (decision tenant r).decision = .autoApprove ∧ truthy (tenant.bind (·.webhookUrl)) then
      .extraction job (.notify r)
    else .aside
  | .recover err, _, .ok _ => .extraction job (.reportFailure err)
  | .read, _, .error _ | .refuse _, _, .error _ | .findTenant _, _, .error _ | .claim _ _, _, .error _
  | .recover _, _, .error _ => .lost
  | _, _, .error err => .extraction job (.recover err)
  | _, _, .ok _ => .aside

namespace Point

def next : Point → (c : Cmd) → Except Failure c.Resp → Point
  | upload p id u, c, r => u.next p id c r
  | reset tenantId d _ run, _, .ok _ => reopen tenantId d run
  | reopen _ _ _, _, .error _ => lost
  | ocr job o, c, r => o.next job c r
  | extraction job e, c, r => e.next job c r
  | _, _, _ => aside

section Extraction
variable (job : JobData) (tenant : Option TenantRow)

/-- The three places where an extraction goes on by a condition. -/
theorem next_found (row : DocumentRow) (extraction : Option ExtractionRow) :
    (Point.extraction job .read).next (ExtractionPoint.read.command job) (.ok (some (row, extraction))) = .aside ∧
        extraction.isSome ∧ (row.status = .approved ∨ row.status = .pendingReview) ∨
      (∃ status, (Point.extraction job .read).next (ExtractionPoint.read.command job) (.ok (some (row, extraction))) =
        .extraction job (.refuse status)) ∨
      ∃ rawText, (Point.extraction job .read).next (ExtractionPoint.read.command job) (.ok (some (row, extraction))) =
        .extraction job (.findTenant rawText) := by
  rw [show (Point.extraction job .read).next (ExtractionPoint.read.command job) (.ok (some (row, extraction))) =
    ExtractionPoint.found job row extraction from rfl, ExtractionPoint.found]
  split
  · next h => exact .inl ⟨rfl, h⟩
  · split
    · exact .inr (.inl ⟨_, rfl⟩)
    · exact .inr (.inr ⟨_, rfl⟩)

theorem next_classified (rawText : String) (x : ClassificationResult) :
    (extraction job (.classify rawText tenant)).next ((ExtractionPoint.classify rawText tenant).command job) (.ok x) =
        .extraction job (.park x) ∨
      (extraction job (.classify rawText tenant)).next ((ExtractionPoint.classify rawText tenant).command job) (.ok x) =
        .extraction job (.setType rawText tenant x.docType) := by
  rw [show (extraction job (.classify rawText tenant)).next ((ExtractionPoint.classify rawText tenant).command job)
    (.ok x) = if x.docType = .unknown then _ else _ from rfl]
  split
  · exact .inl rfl
  · exact .inr rfl

theorem next_concluded (r : ExtractionResult) (u : Unit) :
    (extraction job (.conclude tenant r)).next ((ExtractionPoint.conclude tenant r).command job) (.ok u) = .aside ∨
      (extraction job (.conclude tenant r)).next ((ExtractionPoint.conclude tenant r).command job) (.ok u) =
        .extraction job (.notify r) := by
  rw [show (extraction job (.conclude tenant r)).next ((ExtractionPoint.conclude tenant r).command job)
    (.ok u) = if _ then _ else _ from rfl]
  split
  · exact .inr rfl
  · exact .inl rfl

end Extraction

/-- A process that ends does so aside, or by throwing at `lost`. -/
def ends {α : Type} (pt : Point) (r : Except Failure α) : Prop :=
  pt = aside ∨ pt = lost ∧ ∃ e, r = .error e

end Point

/-- The row an insert returns has the id it inserted. -/
def answered (c : Cmd) (r : Except Failure c.Resp) : Prop :=
  match c, r with
  | .tx (.insertDocument _ id), .ok (some row) => row.id = id
  | _, _ => True

/-- The control points as a protocol. -/
def control : Protocol Cmd Cmd.Resp Failure where
  Phase := Point
  allowed := Point.allows
  answers _ := answered
  next := Point.next

def Owner.start : Owner → Point
  | .api (.upload p id) => .upload p id .insert
  | .api (.approve tenantId d actorId) => .review (.approve tenantId d actorId)
  | .api (.reject tenantId d actorId reason) => .review (.reject tenantId d actorId reason)
  | .api (.edit tenantId d actorId changes) => .review (.edit tenantId d actorId changes)
  | .api (.reprocess tenantId d actorId run) => .reset tenantId d actorId run
  | .api _ => .aside
  | .job (.ocr _ _) data => .ocr data .read
  | .job (.extraction _ _) data => .extraction data .read
  | .job (.webhook _) _ => .aside

/-- The control point a process has reached. -/
def Activity.point (p : Activity) : Point := control.after p.owner.start p.transcript

end DocAuto.Pipeline
