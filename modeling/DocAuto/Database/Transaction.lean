import DocAuto.Database.Statement

/-! The transactions: every callback that some function passes to `withTenantContext`. -/
namespace DocAuto.Database
open Process

abbrev Body := Program Statement Statement.Resp Failure

def statement (c : Statement) : Body c.Resp := Program.perform c

/-- What the upload route hands to the service. -/
structure Upload where
  tenantId : Uuid
  uploadedBy : Uuid
  fileName : String
  mimeType : String
  buffer : List UInt8
  deriving DecidableEq, Repr

/-- The row is visible from here on, with a placeholder for its storage key. -/
def insertDocumentTx (p : Upload) (id : Uuid) : Body (Option DocumentRow) := do
  let rows ← statement (.insertDocument {
    id := id, tenantId := p.tenantId, uploadedBy := p.uploadedBy, storageKey := "pending",
    fileName := p.fileName, mimeType := p.mimeType, status := .uploaded,
    docType := none, rawText := none, createdAt := 0 })
  return rows.head?

/-- The unconditional update by document id, used for every status write of the
workers and for the writes around a storage upload. -/
def updateDocumentTx (documentId : Uuid) (set : DocumentsSet) : Body Unit := do
  let _ ← statement (.updateDocuments set { id := some documentId })
  return ()

def listDocumentsTx (tenantId : Uuid) (status : Option DocumentStatus) (page pageSize : Nat) :
    Body (List DocumentRow × Nat) := do
  let conditions : DocumentsWhere := { tenantId := some tenantId, status := status }
  let rows ← statement (.selectDocumentsPage conditions pageSize ((page - 1) * pageSize))
  let total ← statement (.countDocuments conditions)
  return (rows, total)

def getDocumentTx (tenantId documentId : Uuid) : Body (Option (DocumentRow × Option ExtractionRow)) := do
  let rows ← statement (.selectDocumentWithExtraction { id := some documentId, tenantId := some tenantId })
  return rows.head?

def getStorageKeyTx (tenantId documentId : Uuid) : Body (Option String) := do
  let rows ← statement (.selectDocuments { id := some documentId, tenantId := some tenantId })
  return rows.head?.map (·.storageKey)

def notFoundDocument : Failure := .app (.notFound "Document")

def invalidStatus (message : String) : Failure := .app (.conflict message "INVALID_DOCUMENT_STATUS")

/-- The common transaction of a review decision: check, guarded update, audit row. -/
def decideTx (tenantId documentId actorId : Uuid) (decided : DocumentStatus) (event : AuditEvent)
    (payload : Option AuditPayload) (wrongStatus changed : String) : Body DocumentRow := do
  let document := (← statement (.selectDocuments { id := some documentId, tenantId := some tenantId })).head?
  match document with
  | none => throw notFoundDocument
  | some document =>
    if document.status ≠ .pendingReview then throw (invalidStatus wrongStatus)
    else
      let updated := (← statement (.updateDocuments { status := some decided }
        { id := some documentId, status := some .pendingReview })).head?
      match updated with
      | none => throw (invalidStatus changed)
      | some updated =>
        statement (.insertAuditLog {
          documentId := documentId, actorId := some actorId, event := event,
          prevStatus := some .pendingReview, newStatus := some decided, payload := payload })
        return updated

def approveTx (tenantId documentId actorId : Uuid) : Body DocumentRow :=
  decideTx tenantId documentId actorId .approved .approved none
    "Only documents pending review can be approved" "Document status changed before approval"

def rejectTx (tenantId documentId actorId : Uuid) (reason : String) : Body DocumentRow :=
  decideTx tenantId documentId actorId .rejected .rejected (some (.rejection reason))
    "Only documents pending review can be rejected" "Document status changed before rejection"

def editTx (tenantId documentId actorId : Uuid) (changes : ExtractionEdit) : Body ExtractionRow := do
  let document := (← statement (.selectDocuments { id := some documentId, tenantId := some tenantId })).head?
  match document with
  | none => throw notFoundDocument
  | some document =>
    if document.status ≠ .pendingReview then
      throw (invalidStatus "Only documents pending review can be edited")
    else
      let extraction := (← statement (.selectExtraction documentId)).head?
      match extraction with
      | none => throw (.app (.conflict "Document has no extraction to edit" "EXTRACTION_NOT_FOUND"))
      | some _ =>
        -- Drizzle refuses to build an update that sets no column.
        if changes = {} then throw (.other "No values to set")
        else
          let updated := (← statement (.updateExtraction changes documentId)).head?
          match updated with
          | none => throw (.app (.conflict "Extraction changed before edit" "EXTRACTION_EDIT_CONFLICT"))
          | some updated =>
            statement (.insertAuditLog {
              documentId := documentId, actorId := some actorId, event := .fieldEdited,
              prevStatus := some document.status, newStatus := some document.status,
              payload := some (.edit changes) })
            return updated

def reprocessTx (tenantId documentId actorId : Uuid) : Body DocumentRow := do
  let current := (← statement (.selectDocuments { id := some documentId, tenantId := some tenantId })).head?
  match current with
  | none => throw notFoundDocument
  | some current =>
    if current.status ≠ .failed ∧ current.status ≠ .rejected then
      throw (invalidStatus "Only failed or rejected documents can be reprocessed")
    else
      statement (.deleteExtraction documentId)
      let updated := (← statement (.updateDocuments
        { status := some .uploaded, docType := some none, rawText := some none }
        { id := some documentId, status := some current.status })).head?
      match updated with
      | none => throw (invalidStatus "Document changed before reprocessing")
      | some updated =>
        statement (.insertAuditLog {
          documentId := documentId, actorId := some actorId, event := .reprocessed,
          prevStatus := some current.status, newStatus := some .uploaded })
        return updated

def findTenantTx (tenantId : Uuid) : Body (Option TenantRow) := do
  return (← statement (.selectTenant tenantId)).head?

def updateTenantTx (tenantId : Uuid) (set : TenantsSet) : Body (Option TenantRow) := do
  if set = {} then throw (.other "No values to set")
  else return (← statement (.updateTenants set tenantId)).head?

/-- The reads of the workers go by document id alone. -/
def findDocumentTx (documentId : Uuid) : Body (Option DocumentRow) := do
  return (← statement (.selectDocuments { id := some documentId })).head?

def findDocumentWithExtractionTx (documentId : Uuid) :
    Body (Option (DocumentRow × Option ExtractionRow)) := do
  return (← statement (.selectDocumentWithExtraction { id := some documentId })).head?

def webhookSubjectTx (tenantId documentId : Uuid) :
    Body (Option (DocumentRow × Option ExtractionRow) × Option TenantRow) := do
  let document := (← statement (.selectDocumentWithExtraction { id := some documentId })).head?
  let tenant := (← statement (.selectTenant tenantId)).head?
  return (document, tenant)

def insertDeliveryTx (row : DeliveryRow) : Body Uuid := do
  match (← statement (.insertDelivery row)).head? with
  | none => throw (.other "Failed to insert webhook_deliveries row")
  | some row => return row.id

/-- One call of `withTenantContext`. -/
inductive Tx where
  | insertDocument (p : Upload) (id : Uuid)
  | updateDocument (tenantId documentId : Uuid) (set : DocumentsSet)
  | writeAuditLog (tenantId : Uuid) (row : AuditRow)
  | listDocuments (tenantId : Uuid) (status : Option DocumentStatus) (page pageSize : Nat)
  | getDocument (tenantId documentId : Uuid)
  | getStorageKey (tenantId documentId : Uuid)
  | selectAuditLog (tenantId documentId : Uuid)
  | approve (tenantId documentId actorId : Uuid)
  | reject (tenantId documentId actorId : Uuid) (reason : String)
  | edit (tenantId documentId actorId : Uuid) (changes : ExtractionEdit)
  | reprocess (tenantId documentId actorId : Uuid)
  | findTenant (tenantId : Uuid)
  | updateTenant (tenantId : Uuid) (set : TenantsSet)
  | findDocument (tenantId documentId : Uuid)
  | findDocumentWithExtraction (tenantId documentId : Uuid)
  | insertExtraction (tenantId : Uuid) (row : ExtractionRow)
  | webhookSubject (tenantId documentId : Uuid)
  | countDeliveries (tenantId documentId : Uuid)
  | insertDelivery (tenantId : Uuid) (row : DeliveryRow)
  | updateDelivery (tenantId : Uuid) (set : DeliveriesSet) (id : Uuid)
  deriving DecidableEq, Repr

namespace Tx

@[reducible] def Result : Tx → Type
  | .insertDocument _ _ | .findDocument _ _ => Option DocumentRow
  | .updateDocument _ _ _ | .writeAuditLog _ _ | .insertExtraction _ _ | .updateDelivery _ _ _ => Unit
  | .listDocuments _ _ _ _ => List DocumentRow × Nat
  | .getDocument _ _ | .findDocumentWithExtraction _ _ => Option (DocumentRow × Option ExtractionRow)
  | .getStorageKey _ _ => Option String
  | .selectAuditLog _ _ => List AuditRow
  | .approve _ _ _ | .reject _ _ _ _ | .reprocess _ _ _ => DocumentRow
  | .edit _ _ _ _ => ExtractionRow
  | .findTenant _ | .updateTenant _ _ => Option TenantRow
  | .webhookSubject _ _ => Option (DocumentRow × Option ExtractionRow) × Option TenantRow
  | .countDeliveries _ _ => Nat
  | .insertDelivery _ _ => Uuid

/-- The tenant id passed to `withTenantContext`. -/
def tenantId : Tx → Uuid
  | .insertDocument p _ => p.tenantId
  | .updateDocument t _ _ | .writeAuditLog t _ | .listDocuments t _ _ _ | .getDocument t _
  | .getStorageKey t _ | .selectAuditLog t _ | .approve t _ _ | .reject t _ _ _ | .edit t _ _ _
  | .reprocess t _ _ | .findTenant t | .updateTenant t _ | .findDocument t _
  | .findDocumentWithExtraction t _ | .insertExtraction t _ | .webhookSubject t _
  | .countDeliveries t _ | .insertDelivery t _ | .updateDelivery t _ _ => t

def body : (t : Tx) → Body t.Result
  | .insertDocument p id => insertDocumentTx p id
  | .updateDocument _ documentId set => updateDocumentTx documentId set
  | .writeAuditLog _ row => statement (.insertAuditLog row)
  | .listDocuments tenantId status page pageSize => listDocumentsTx tenantId status page pageSize
  | .getDocument tenantId documentId => getDocumentTx tenantId documentId
  | .getStorageKey tenantId documentId => getStorageKeyTx tenantId documentId
  | .selectAuditLog _ documentId => statement (.selectAuditLog documentId)
  | .approve tenantId documentId actorId => approveTx tenantId documentId actorId
  | .reject tenantId documentId actorId reason => rejectTx tenantId documentId actorId reason
  | .edit tenantId documentId actorId changes => editTx tenantId documentId actorId changes
  | .reprocess tenantId documentId actorId => reprocessTx tenantId documentId actorId
  | .findTenant tenantId => findTenantTx tenantId
  | .updateTenant tenantId set => updateTenantTx tenantId set
  | .findDocument _ documentId => findDocumentTx documentId
  | .findDocumentWithExtraction _ documentId => findDocumentWithExtractionTx documentId
  | .insertExtraction _ row => statement (.insertExtraction row)
  | .webhookSubject tenantId documentId => webhookSubjectTx tenantId documentId
  | .countDeliveries _ documentId => statement (.countDeliveries documentId)
  | .insertDelivery _ row => insertDeliveryTx row
  | .updateDelivery _ set id => statement (.updateDelivery set id)

/-- A transaction run alone: it commits with its result or rolls back with its exception. -/
def run (rls : Bool) (t : Tx) (db : Db) : Except Failure t.Result × Db :=
  match t.body.exec (Statement.exec ⟨rls, t.tenantId⟩) db with
  | (.ok a, db') => (.ok a, db')
  | (.error e, _) => (.error e, db)

end Tx
end DocAuto.Database
