import DocAuto.DecisionEngine

/-! The tables of the database: the columns some modelled function reads or writes. -/
namespace DocAuto

/-- A UUID, used only through equality. -/
abbrev Uuid := Nat
abbrev Timestamp := Nat

inductive UserRole where
  | admin | reviewer | viewer
  deriving DecidableEq, Repr

inductive DocumentStatus where
  | uploaded | ocrProcessing | extracting | extracted | pendingReview | approved | rejected | failed
  deriving DecidableEq, Repr

inductive DocType where
  | invoice | receipt | purchaseOrder | unknown
  deriving DecidableEq, Repr

inductive AuditEvent where
  | uploaded | ocrComplete | extracted | autoApproved | sentToReview | approved | rejected
  | fieldEdited | webhookSent | webhookFailed | reprocessed
  deriving DecidableEq, Repr

inductive WebhookStatus where
  | pending | success | failed | deadLetter
  deriving DecidableEq, Repr

structure TenantRow where
  id : Uuid
  name : String
  slug : String
  extractionThreshold : ℚ
  webhookUrl : Option String
  webhookSecret : Option String
  deriving DecidableEq, Repr

structure UserRow where
  id : Uuid
  tenantId : Uuid
  email : String
  passwordHash : String
  role : UserRole
  deriving DecidableEq, Repr

structure DocumentRow where
  id : Uuid
  tenantId : Uuid
  uploadedBy : Uuid
  storageKey : String
  fileName : String
  mimeType : String
  status : DocumentStatus
  docType : Option DocType
  rawText : Option String
  createdAt : Timestamp
  deriving DecidableEq, Repr

structure ExtractionRow where
  documentId : Uuid
  vendorName : Option String
  vendorAddress : Option String
  vendorTaxId : Option String
  invoiceNumber : Option String
  invoiceDate : Option String
  dueDate : Option String
  subtotal : Option ℚ
  tax : Option ℚ
  total : Option ℚ
  confidenceScores : Option (List (String × ℚ))
  lineItems : Option (List LineItem)
  llmModel : Option String
  inputTokens : Option Nat
  outputTokens : Option Nat
  deriving DecidableEq, Repr

/-- The fields a review edit may change; an outer `none` leaves the column as it is. -/
structure ExtractionEdit where
  vendorName : Option (Option String) := none
  vendorAddress : Option (Option String) := none
  vendorTaxId : Option (Option String) := none
  invoiceNumber : Option (Option String) := none
  invoiceDate : Option (Option String) := none
  dueDate : Option (Option String) := none
  subtotal : Option (Option ℚ) := none
  tax : Option (Option ℚ) := none
  total : Option (Option ℚ) := none
  lineItems : Option (List LineItem) := none
  confidenceScores : Option (List (String × ℚ)) := none
  deriving DecidableEq, Repr

/-- The JSON payloads of the audit rows, one constructor for each shape written. -/
inductive AuditPayload where
  | file (fileName mimeType : String)
  | ocr (blockCount textLength : Nat)
  | error (message : String)
  | unknownType (docType : DocType) (confidence : ℚ)
  | extraction (llmModel : String) (inputTokens outputTokens : Nat) (minConfidence : Option ℚ)
  | approval (threshold : ℚ) (minConfidence : Option ℚ) (lineItemsSum : ℚ)
  | reasons (reasons : List String)
  | rejection (reason : String)
  | edit (changes : ExtractionEdit)
  | sent (attempt : Nat) (responseStatus : Option Nat)
  | undelivered (attempt : Nat) (isFinalAttempt : Bool) (error : String) (responseStatus : Option Nat)
  deriving DecidableEq, Repr

structure AuditRow where
  documentId : Uuid
  actorId : Option Uuid := none
  event : AuditEvent
  prevStatus : Option DocumentStatus := none
  newStatus : Option DocumentStatus := none
  payload : Option AuditPayload := none
  createdAt : Timestamp := 0
  deriving DecidableEq, Repr

structure DeliveryRow where
  id : Uuid
  documentId : Uuid
  tenantId : Uuid
  status : WebhookStatus
  attempt : Nat
  responseStatus : Option Nat
  responseBody : Option String
  deliveredAt : Option Timestamp
  deriving DecidableEq, Repr

/-- The database. Rows stand in insertion order; `now` is the clock read by column defaults. -/
structure Db where
  tenants : List TenantRow
  users : List UserRow
  documents : List DocumentRow
  documentsExtraction : List ExtractionRow
  documentAuditLog : List AuditRow
  webhookDeliveries : List DeliveryRow
  now : Timestamp
  deriving DecidableEq, Repr

end DocAuto
