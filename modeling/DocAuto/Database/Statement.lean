import DocAuto.Process.Program
import DocAuto.Schema

/-! SQL statements and their effect on the database inside one tenant context.
A session either has the row-level-security policies of migration 0007 in force
or runs without them; constraints are checked on insertion. -/
namespace DocAuto

structure AppError where
  message : String
  statusCode : Nat
  code : String
  deriving DecidableEq, Repr

namespace AppError
def badRequest (message code : String) : AppError := ⟨message, 400, code⟩
def notFound (resource : String) : AppError := ⟨resource ++ " not found", 404, "NOT_FOUND"⟩
def conflict (message code : String) : AppError := ⟨message, 409, code⟩
def internal (message : String) : AppError := ⟨message, 500, "INTERNAL_ERROR"⟩
end AppError

/-- What a call can throw: an application error, an error of the database, or
any other exception. -/
inductive Failure where
  | app (error : AppError)
  | uniqueViolation (constraint : String)
  | foreignKeyViolation (constraint : String)
  | rowSecurityViolation
  | other (message : String)
  deriving DecidableEq, Repr

namespace Database

structure TenantsSet where
  name : Option String := none
  extractionThreshold : Option ℚ := none
  webhookUrl : Option (Option String) := none
  webhookSecret : Option (Option String) := none
  deriving DecidableEq, Repr

def TenantsSet.apply (set : TenantsSet) (r : TenantRow) : TenantRow :=
  { r with
    name := set.name.getD r.name
    extractionThreshold := set.extractionThreshold.getD r.extractionThreshold
    webhookUrl := set.webhookUrl.getD r.webhookUrl
    webhookSecret := set.webhookSecret.getD r.webhookSecret }

/-- The columns of `documents` that some update sets. -/
structure DocumentsSet where
  storageKey : Option String := none
  status : Option DocumentStatus := none
  docType : Option (Option DocType) := none
  rawText : Option (Option String) := none
  deriving DecidableEq, Repr

def DocumentsSet.apply (set : DocumentsSet) (r : DocumentRow) : DocumentRow :=
  { r with
    storageKey := set.storageKey.getD r.storageKey
    status := set.status.getD r.status
    docType := set.docType.getD r.docType
    rawText := set.rawText.getD r.rawText }

/-- A conjunction of equality tests on `documents`. -/
structure DocumentsWhere where
  id : Option Uuid := none
  tenantId : Option Uuid := none
  status : Option DocumentStatus := none
  deriving DecidableEq, Repr

def DocumentsWhere.holds (w : DocumentsWhere) (r : DocumentRow) : Bool :=
  w.id.all (· == r.id) && w.tenantId.all (· == r.tenantId) && w.status.all (· == r.status)

/-- The row update built from the fields an edit provides. -/
def applyEdit (changes : ExtractionEdit) (r : ExtractionRow) : ExtractionRow :=
  { r with
    vendorName := changes.vendorName.getD r.vendorName
    vendorAddress := changes.vendorAddress.getD r.vendorAddress
    vendorTaxId := changes.vendorTaxId.getD r.vendorTaxId
    invoiceNumber := changes.invoiceNumber.getD r.invoiceNumber
    invoiceDate := changes.invoiceDate.getD r.invoiceDate
    dueDate := changes.dueDate.getD r.dueDate
    subtotal := (changes.subtotal.map (Option.map toFixed2)).getD r.subtotal
    tax := (changes.tax.map (Option.map toFixed2)).getD r.tax
    total := (changes.total.map (Option.map toFixed2)).getD r.total
    lineItems := (changes.lineItems.map some).getD r.lineItems
    confidenceScores := (changes.confidenceScores.map some).getD r.confidenceScores }

structure DeliveriesSet where
  status : WebhookStatus
  responseStatus : Option Nat
  responseBody : Option String
  delivered : Bool
  deriving DecidableEq, Repr

def DeliveriesSet.apply (set : DeliveriesSet) (now : Timestamp) (r : DeliveryRow) : DeliveryRow :=
  { r with
    status := set.status
    responseStatus := set.responseStatus
    responseBody := set.responseBody
    deliveredAt := if set.delivered then some now else none }

inductive Statement where
  | selectTenant (id : Uuid)
  | insertTenant (row : TenantRow)
  | updateTenants (set : TenantsSet) (id : Uuid)
  | insertUser (row : UserRow)
  | selectDocuments (w : DocumentsWhere)
  | selectDocumentsPage (w : DocumentsWhere) (limit offset : Nat)
  | countDocuments (w : DocumentsWhere)
  | selectDocumentWithExtraction (w : DocumentsWhere)
  | insertDocument (row : DocumentRow)
  | updateDocuments (set : DocumentsSet) (w : DocumentsWhere)
  | selectExtraction (documentId : Uuid)
  | insertExtraction (row : ExtractionRow)
  | updateExtraction (changes : ExtractionEdit) (documentId : Uuid)
  | deleteExtraction (documentId : Uuid)
  | selectAuditLog (documentId : Uuid)
  | insertAuditLog (row : AuditRow)
  | countDeliveries (documentId : Uuid)
  | insertDelivery (row : DeliveryRow)
  | updateDelivery (set : DeliveriesSet) (id : Uuid)
  deriving DecidableEq, Repr

@[reducible] def Statement.Resp : Statement → Type
  | .selectTenant _ | .insertTenant _ | .updateTenants _ _ => List TenantRow
  | .insertUser _ => List UserRow
  | .selectDocuments _ | .selectDocumentsPage _ _ _ | .insertDocument _ | .updateDocuments _ _ =>
    List DocumentRow
  | .countDocuments _ | .countDeliveries _ => Nat
  | .selectDocumentWithExtraction _ => List (DocumentRow × Option ExtractionRow)
  | .selectExtraction _ | .updateExtraction _ _ => List ExtractionRow
  | .selectAuditLog _ => List AuditRow
  | .insertDelivery _ => List DeliveryRow
  | .insertExtraction _ | .deleteExtraction _ | .insertAuditLog _ | .updateDelivery _ _ => Unit

/-- The settings of a connection inside `withTenantContext`: `app.tenant_id`, and
whether the policies apply to its role. -/
structure Session where
  rls : Bool
  tenantId : Uuid
  deriving DecidableEq, Repr

end Database

/-- The sub-select of the policies on the tables without a tenant column. -/
def Db.ownsDocument (db : Db) (tenantId documentId : Uuid) : Bool :=
  db.documents.any fun d => d.id == documentId && d.tenantId == tenantId

namespace Database
namespace Session
variable (s : Session)

def admitsTenant (tenantId : Uuid) : Bool := !s.rls || tenantId == s.tenantId

def admitsChild (db : Db) (documentId : Uuid) : Bool := !s.rls || db.ownsDocument s.tenantId documentId

end Session

/-- Newest first; rows of one instant keep their insertion order. -/
def orderByCreatedAt (rows : List DocumentRow) : List DocumentRow :=
  rows.mergeSort fun a b => decide (b.createdAt ≤ a.createdAt)

def orderAuditLog (rows : List AuditRow) : List AuditRow :=
  rows.mergeSort fun a b => decide (b.createdAt ≤ a.createdAt)

namespace Statement

/-- The rows of `documents` a statement can see and its condition selects. -/
def matching (s : Session) (w : DocumentsWhere) (db : Db) : List DocumentRow :=
  db.documents.filter fun r => s.admitsTenant r.tenantId && w.holds r

def visibleExtraction (s : Session) (db : Db) (documentId : Uuid) : List ExtractionRow :=
  db.documentsExtraction.filter fun r => s.admitsChild db r.documentId && r.documentId == documentId

def withExtraction (s : Session) (db : Db) (d : DocumentRow) : DocumentRow × Option ExtractionRow :=
  (d, (visibleExtraction s db d.id).head?)

/-- The largest `bigint`. -/
def maxBigint : Nat := 2 ^ 63 - 1

/-- The parameters of a page are bound as `bigint`. -/
def bigintError : Failure := .other "value is out of range for type bigint"

/-- The effect of one statement. A statement that throws leaves the database as it was. What a column
does not take (a text too long, a NUL, a number out of range) is not refused here. -/
def exec (s : Session) : (c : Statement) → Db → Except Failure c.Resp × Db
  | .selectTenant id, db =>
    (.ok (db.tenants.filter fun r => s.admitsTenant r.id && r.id == id), db)
  | .insertTenant row, db =>
    if !s.admitsTenant row.id then (.error .rowSecurityViolation, db)
    else if db.tenants.any (·.id == row.id) then (.error (.uniqueViolation "tenants_pkey"), db)
    else if db.tenants.any (·.slug == row.slug) then (.error (.uniqueViolation "tenants_slug_unique"), db)
    else (.ok [row], { db with tenants := db.tenants ++ [row] })
  | .updateTenants set id, db =>
    let p := fun r : TenantRow => s.admitsTenant r.id && r.id == id
    (.ok ((db.tenants.filter p).map set.apply),
      { db with tenants := db.tenants.map fun r => if p r then set.apply r else r })
  | .insertUser row, db =>
    if !s.admitsTenant row.tenantId then (.error .rowSecurityViolation, db)
    else if db.users.any (·.id == row.id) then (.error (.uniqueViolation "users_pkey"), db)
    else if db.users.any (·.email == row.email) then (.error (.uniqueViolation "users_email_unique"), db)
    else if !db.tenants.any (·.id == row.tenantId) then
      (.error (.foreignKeyViolation "users_tenant_id_tenants_id_fk"), db)
    else (.ok [row], { db with users := db.users ++ [row] })
  | .selectDocuments w, db => (.ok (matching s w db), db)
  | .selectDocumentsPage w limit offset, db =>
    (if offset ≤ maxBigint then .ok (((orderByCreatedAt (matching s w db)).drop offset).take limit) else .error bigintError, db)
  | .countDocuments w, db => (.ok (matching s w db).length, db)
  | .selectDocumentWithExtraction w, db => (.ok ((matching s w db).map (withExtraction s db)), db)
  | .insertDocument row, db =>
    let stamped := { row with createdAt := db.now }
    if !s.admitsTenant row.tenantId then (.error .rowSecurityViolation, db)
    else if db.documents.any (·.id == row.id) then (.error (.uniqueViolation "documents_pkey"), db)
    else if !db.tenants.any (·.id == row.tenantId) then
      (.error (.foreignKeyViolation "documents_tenant_id_tenants_id_fk"), db)
    else if !db.users.any (·.id == row.uploadedBy) then
      (.error (.foreignKeyViolation "documents_uploaded_by_users_id_fk"), db)
    else (.ok [stamped], { db with documents := db.documents ++ [stamped] })
  | .updateDocuments set w, db =>
    let p := fun r : DocumentRow => s.admitsTenant r.tenantId && w.holds r
    (.ok ((db.documents.filter p).map set.apply),
      { db with documents := db.documents.map fun r => if p r then set.apply r else r })
  | .selectExtraction documentId, db => (.ok (visibleExtraction s db documentId), db)
  | .insertExtraction row, db =>
    if !s.admitsChild db row.documentId then (.error .rowSecurityViolation, db)
    else if db.documentsExtraction.any (·.documentId == row.documentId) then (.ok (), db)
    else if !db.documents.any (·.id == row.documentId) then
      (.error (.foreignKeyViolation "extractions_document_id_documents_id_fk"), db)
    else (.ok (), { db with documentsExtraction := db.documentsExtraction ++ [row] })
  | .updateExtraction changes documentId, db =>
    let p := fun r : ExtractionRow => s.admitsChild db r.documentId && r.documentId == documentId
    let edited := db.documentsExtraction.map fun r => if p r then applyEdit changes r else r
    (.ok ((db.documentsExtraction.filter p).map (applyEdit changes)),
      { db with documentsExtraction := edited })
  | .deleteExtraction documentId, db =>
    let p := fun r : ExtractionRow => s.admitsChild db r.documentId && r.documentId == documentId
    (.ok (), { db with documentsExtraction := db.documentsExtraction.filter fun r => !p r })
  | .selectAuditLog documentId, db =>
    (.ok (orderAuditLog (db.documentAuditLog.filter fun r =>
      s.admitsChild db r.documentId && r.documentId == documentId)), db)
  | .insertAuditLog row, db =>
    if !s.admitsChild db row.documentId then (.error .rowSecurityViolation, db)
    else if !db.documents.any (·.id == row.documentId) then
      (.error (.foreignKeyViolation "document_audit_log_document_id_documents_id_fk"), db)
    else if !row.actorId.all (fun id => db.users.any (·.id == id)) then
      (.error (.foreignKeyViolation "document_audit_log_actor_id_users_id_fk"), db)
    else (.ok (), { db with documentAuditLog := db.documentAuditLog ++ [{ row with createdAt := db.now }] })
  | .countDeliveries documentId, db =>
    (.ok (db.webhookDeliveries.filter fun r =>
      s.admitsTenant r.tenantId && r.documentId == documentId).length, db)
  | .insertDelivery row, db =>
    if !s.admitsTenant row.tenantId then (.error .rowSecurityViolation, db)
    else if db.webhookDeliveries.any (·.id == row.id) then
      (.error (.uniqueViolation "webhook_deliveries_pkey"), db)
    else if !db.documents.any (·.id == row.documentId) then
      (.error (.foreignKeyViolation "webhook_deliveries_document_id_documents_id_fk"), db)
    else if !db.tenants.any (·.id == row.tenantId) then
      (.error (.foreignKeyViolation "webhook_deliveries_tenant_id_tenants_id_fk"), db)
    else (.ok [row], { db with webhookDeliveries := db.webhookDeliveries ++ [row] })
  | .updateDelivery set id, db =>
    let p := fun r : DeliveryRow => s.admitsTenant r.tenantId && r.id == id
    let updated := db.webhookDeliveries.map fun r => if p r then set.apply db.now r else r
    (.ok (), { db with webhookDeliveries := updated })

end Statement
end Database
end DocAuto
