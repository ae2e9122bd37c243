import DocAuto.Pipeline.Command

/-! The operations of the document and tenant services. UUIDs that an operation
draws are arguments. -/
namespace DocAuto.Pipeline
open Process Database

def enqueueWebhookIfConfigured (tenantId documentId : Uuid) : Proc Unit := do
  let tenant ← transaction (.findTenant tenantId)
  if truthy (tenant.bind (·.webhookUrl)) then perform (.webhookQueueAdd documentId tenantId)
  else return ()

/-- `id` is the UUID the insert generates for the new row. -/
def uploadNewDocument (p : Upload) (id : Uuid) : Proc DocumentRow := do
  let document ← transaction (.insertDocument p id)
  match document with
  | none => throw (.app (.internal "Failed to create document record"))
  | some document =>
    tryCatch (do
      let storageKey ← perform (.uploadDocument p document.id)
      transaction (.updateDocument p.tenantId document.id { storageKey := some storageKey })
      writeAuditLog p.tenantId {
        documentId := document.id, actorId := some p.uploadedBy, event := .uploaded,
        newStatus := some .uploaded, payload := some (.file p.fileName p.mimeType) }
      perform (.queueAdd { documentId := document.id, tenantId := p.tenantId } (ocrJobId document.id))
      return { document with storageKey := storageKey }) fun _ => do
        transaction (.updateDocument p.tenantId document.id { status := some .failed })
        throw (.app (.internal "Failed to store uploaded document"))

def listDocuments (tenantId : Uuid) (status : Option DocumentStatus) (page pageSize : Nat) :
    Proc (List DocumentRow × Nat) :=
  transaction (.listDocuments tenantId status page pageSize)

def getDocumentWithAudit (tenantId documentId : Uuid) :
    Proc (DocumentRow × Option ExtractionRow × List AuditRow) := do
  let document ← transaction (.getDocument tenantId documentId)
  match document with
  | none => throw notFoundDocument
  | some (document, extraction) =>
    let auditLog ← transaction (.selectAuditLog tenantId documentId)
    return (document, extraction, auditLog)

def getDocumentFileUrl (tenantId documentId : Uuid) : Proc String := do
  let storageKey ← transaction (.getStorageKey tenantId documentId)
  match storageKey with
  | none => throw notFoundDocument
  | some storageKey => perform (.getPresignedUrl storageKey 60)

/-- The webhook job is enqueued after the transaction has committed, not inside it. -/
def approveDocument (tenantId documentId actorId : Uuid) : Proc DocumentRow := do
  let updated ← transaction (.approve tenantId documentId actorId)
  enqueueWebhookIfConfigured tenantId documentId
  return updated

def rejectDocument (tenantId documentId actorId : Uuid) (reason : String) : Proc DocumentRow := do
  let updated ← transaction (.reject tenantId documentId actorId reason)
  enqueueWebhookIfConfigured tenantId documentId
  return updated

def editDocumentExtraction (tenantId documentId actorId : Uuid) (changes : ExtractionEdit) :
    Proc ExtractionRow :=
  transaction (.edit tenantId documentId actorId changes)

/-- `processingRunId` is the UUID drawn after the transaction has committed. -/
def reprocessDocument (tenantId documentId actorId processingRunId : Uuid) : Proc DocumentRow := do
  let document ← transaction (.reprocess tenantId documentId actorId)
  perform (.queueAdd
    { documentId := documentId, tenantId := tenantId, processingRunId := .reprocess processingRunId }
    (ocrJobId documentId (.reprocess processingRunId)))
  return document

structure TenantConfig where
  id : Uuid
  name : String
  slug : String
  extractionThreshold : ℚ
  webhookUrl : Option String
  webhookSecretConfigured : Bool
  deriving DecidableEq, Repr

def notFoundTenant : Failure := .app (.notFound "Tenant")

def getTenantConfig (tenantId : Uuid) : Proc TenantConfig := do
  let tenant ← transaction (.findTenant tenantId)
  match tenant with
  | none => throw notFoundTenant
  | some tenant => return {
      id := tenant.id, name := tenant.name, slug := tenant.slug,
      extractionThreshold := tenant.extractionThreshold, webhookUrl := tenant.webhookUrl,
      webhookSecretConfigured := tenant.webhookSecret.isSome }

structure TenantUpdate where
  name : Option String := none
  extractionThreshold : Option ℚ := none
  webhookUrl : Option (Option String) := none
  deriving DecidableEq, Repr

/-- Clearing the URL also clears the secret. -/
def TenantUpdate.updates (params : TenantUpdate) : TenantsSet :=
  { name := params.name
    extractionThreshold := params.extractionThreshold.map toFixed2
    webhookUrl := params.webhookUrl
    webhookSecret := if params.webhookUrl = some none then some none else none }

def updateTenantConfig (tenantId : Uuid) (params : TenantUpdate) : Proc TenantConfig := do
  let updated ← transaction (.updateTenant tenantId params.updates)
  match updated with
  | none => throw notFoundTenant
  | some _ => getTenantConfig tenantId

/-- `secret` is the hex string of the 32 random bytes. -/
def rotateWebhookSecret (tenantId : Uuid) (secret : String) : Proc String := do
  let tenant ← transaction (.findTenant tenantId)
  match tenant with
  | none => throw notFoundTenant
  | some tenant =>
    if truthy tenant.webhookUrl then do
      let _ ← transaction (.updateTenant tenantId { webhookSecret := some (some secret) })
      return secret
    else throw (.app (.badRequest "Set a webhookUrl before generating a webhook secret"
      "WEBHOOK_URL_NOT_CONFIGURED"))

end DocAuto.Pipeline
