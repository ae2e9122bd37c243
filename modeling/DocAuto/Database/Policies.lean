import DocAuto.Database.Statement
import DocAuto.Sql.Expr

/-! The row-level-security policies of migration 0007 as SQL expressions, and the rows they
admit under each value of `app.tenant_id`. -/
namespace DocAuto.Database
open Sql Expr

/-- The `uuid` type of Postgres: its output and input functions. The input function rejects
the empty string. -/
structure UuidType where
  text : Uuid → String
  input : String → Option Uuid
  input_text : ∀ id, input (text id) = some id
  input_empty : input "" = none

namespace UuidType
variable (uuid : UuidType)

theorem text_ne (id : Uuid) : uuid.text id ≠ "" := by
  intro h
  have := uuid.input_text id
  simp [h, uuid.input_empty] at this

/-- The context of an evaluation on a connection with this `app.tenant_id`. -/
def context (setting : Option String) : Sql.Context Uuid := ⟨setting, uuid.input⟩

end UuidType

/-- A row of one of the tables under row-level security. -/
inductive Row where
  | tenants (row : TenantRow)
  | users (row : UserRow)
  | documents (row : DocumentRow)
  | documentsExtraction (row : ExtractionRow)
  | documentAuditLog (row : AuditRow)
  | webhookDeliveries (row : DeliveryRow)
  deriving DecidableEq, Repr

/-- `NULLIF(current_setting('app.tenant_id', true), '')::uuid`. -/
def tenantContext : Expr Uuid .uuid := .toUuid (.binary .nullIf .currentSetting (.value (some "")))

/-- `tenant_id = NULLIF(current_setting('app.tenant_id', true), '')::uuid`. -/
def tenantTest (tenantId : Uuid) : Expr Uuid .bool := .binary .eq (.value (some tenantId)) tenantContext

def tenantIsolationTenants (row : TenantRow) : Expr Uuid .bool := tenantTest row.id

def tenantIsolationUsers (row : UserRow) : Expr Uuid .bool := tenantTest row.tenantId

def tenantIsolationDocuments (row : DocumentRow) : Expr Uuid .bool := tenantTest row.tenantId

/-- `document_id IN (SELECT id FROM documents WHERE tenant_id = …)`. The sub-select reads `documents`
under the policy of that table. -/
def documentTest (db : Db) (documentId : Uuid) : Expr Uuid .bool :=
  isIn (.value (some documentId)) (db.documents.map fun d =>
    (.binary .and (tenantIsolationDocuments d) (tenantTest d.tenantId), .value (some d.id)))

def tenantIsolationExtractions (db : Db) (row : ExtractionRow) : Expr Uuid .bool := documentTest db row.documentId

def tenantIsolationDocumentAuditLog (db : Db) (row : AuditRow) : Expr Uuid .bool := documentTest db row.documentId

def tenantIsolationWebhookDeliveries (row : DeliveryRow) : Expr Uuid .bool := tenantTest row.tenantId

namespace Row

/-- The policy of the table of the row. -/
def policy (db : Db) : Row → Expr Uuid .bool
  | tenants row => tenantIsolationTenants row
  | users row => tenantIsolationUsers row
  | documents row => tenantIsolationDocuments row
  | documentsExtraction row => tenantIsolationExtractions db row
  | documentAuditLog row => tenantIsolationDocumentAuditLog db row
  | webhookDeliveries row => tenantIsolationWebhookDeliveries row

/-- The row belongs to the tenant, or to one of its documents. -/
def BelongsTo (db : Db) (tenantId : Uuid) : Row → Prop
  | tenants row => row.id = tenantId
  | users row => row.tenantId = tenantId
  | documents row => row.tenantId = tenantId
  | documentsExtraction row => ∃ d ∈ db.documents, d.id = row.documentId ∧ d.tenantId = tenantId
  | documentAuditLog row => ∃ d ∈ db.documents, d.id = row.documentId ∧ d.tenantId = tenantId
  | webhookDeliveries row => row.tenantId = tenantId

end Row

/-- The tenant that a setting names. -/
def namedTenant (uuid : UuidType) : Option String → Option Uuid
  | none => none
  | some s => if s = "" then none else uuid.input s

/-- The setting is unset, empty or a UUID. -/
def Readable (uuid : UuidType) : Option String → Prop
  | none => True
  | some s => s ≠ "" → (uuid.input s).isSome

variable {uuid : UuidType} {setting : Option String}

theorem meaning_tenantContext : tenantContext.meaning (uuid.context setting) = namedTenant uuid setting := by
  cases setting with
  | none => rfl
  | some s =>
    change (Op.nullIf.apply (some s) (some "")).bind uuid.input = _
    rw [Op.apply_nullIf, namedTenant]
    by_cases h : s = "" <;> simp [h]

theorem safe_tenantContext (h : Readable uuid setting) : tenantContext.Safe (uuid.context setting) := by
  refine ⟨⟨trivial, trivial⟩, fun t ht => ?_⟩
  cases setting with
  | none => cases ht
  | some s =>
    change Op.nullIf.apply (some s) (some "") = some t at ht
    rw [Op.apply_nullIf] at ht
    by_cases hs : s = ""
    · simp [hs] at ht
    · obtain rfl : s = t := by simpa [hs] using ht
      exact h hs

theorem safe_tenantTest (h : Readable uuid setting) (tenantId : Uuid) :
    (tenantTest tenantId).Safe (uuid.context setting) := ⟨trivial, safe_tenantContext h⟩

theorem meaning_tenantTest {tenantId : Uuid} : (tenantTest tenantId).meaning (uuid.context setting) = some true ↔
    namedTenant uuid setting = some tenantId := by
  refine Op.apply_eq_true.trans ?_
  rw [meaning_tenantContext]
  simp [meaning]

theorem safe_documentTest (h : Readable uuid setting) (db : Db) (documentId : Uuid) :
    (documentTest db documentId).Safe (uuid.context setting) := by
  refine Safe.isIn trivial fun row hrow => ?_
  obtain ⟨d, -, rfl⟩ := List.mem_map.1 hrow
  exact ⟨⟨safe_tenantTest h _, safe_tenantTest h _⟩, trivial⟩

theorem meaning_documentTest {db : Db} {documentId : Uuid} :
    (documentTest db documentId).meaning (uuid.context setting) = some true ↔
      ∃ d ∈ db.documents, d.id = documentId ∧ namedTenant uuid setting = some d.tenantId := by
  have hcond (d : DocumentRow) : (Expr.binary .and (tenantIsolationDocuments d) (tenantTest d.tenantId)).meaning
      (uuid.context setting) = some true ↔ namedTenant uuid setting = some d.tenantId :=
    Op.apply_and_true.trans ((and_congr meaning_tenantTest meaning_tenantTest).trans and_self_iff)
  refine meaning_isIn.trans ⟨?_, ?_⟩
  · rintro ⟨row, hrow, hc, u, hx, hu⟩
    obtain ⟨d, hd, rfl⟩ := List.mem_map.1 hrow
    exact ⟨d, hd, Option.some.inj (hu.trans hx.symm), (hcond d).1 hc⟩
  · rintro ⟨d, hd, rfl, ht⟩
    exact ⟨_, List.mem_map_of_mem hd, (hcond d).2 ht, d.id, rfl, rfl⟩

theorem safe_policy (h : Readable uuid setting) (db : Db) (row : Row) :
    (row.policy db).Safe (uuid.context setting) := by
  cases row with
  | tenants | users | documents | webhookDeliveries => exact safe_tenantTest h _
  | documentsExtraction | documentAuditLog => exact safe_documentTest h db _

theorem meaning_policy {db : Db} {row : Row} : (row.policy db).meaning (uuid.context setting) = some true ↔
    ∃ tenantId, namedTenant uuid setting = some tenantId ∧ row.BelongsTo db tenantId := by
  cases row with
  | tenants | users | documents | webhookDeliveries =>
    refine meaning_tenantTest.trans ?_
    simp [Row.BelongsTo]
  | documentsExtraction | documentAuditLog =>
    refine meaning_documentTest.trans ?_
    simp only [Row.BelongsTo]
    constructor
    · rintro ⟨d, hd, hid, ht⟩
      exact ⟨d.tenantId, ht, d, hd, hid, rfl⟩
    · rintro ⟨t, ht, d, hd, hid, rfl⟩
      exact ⟨d, hd, hid, ht⟩

/-- A readable setting never makes a policy raise, and the rows it admits are those of the tenant
the setting names, in whatever order the policy is evaluated. -/
theorem evaluates_policy (h : Readable uuid setting) (db : Db) (row : Row) {r : Expr Uuid .bool}
    (hr : Evaluates (uuid.context setting) (row.policy db) r) : r ≠ .error ∧
      (r = .value (some true) ↔ ∃ tenantId, namedTenant uuid setting = some tenantId ∧ row.BelongsTo db tenantId) := by
  have hval := (safe_policy h db row).evaluates_iff.1 hr
  refine ⟨fun he => (by cases hval.symm.trans he), ?_⟩
  rw [hval, ← meaning_policy, Expr.value.injEq]

/-- What the statements of a session see of a row. -/
def Row.admitted (s : Session) (db : Db) : Row → Bool
  | tenants row => s.admitsTenant row.id
  | users row => s.admitsTenant row.tenantId
  | documents row => s.admitsTenant row.tenantId
  | documentsExtraction row => s.admitsChild db row.documentId
  | documentAuditLog row => s.admitsChild db row.documentId
  | webhookDeliveries row => s.admitsTenant row.tenantId

theorem admitted_iff {db : Db} {tenantId : Uuid} {row : Row} :
    row.admitted ⟨true, tenantId⟩ db ↔ row.BelongsTo db tenantId := by
  cases row <;> simp [Row.admitted, Row.BelongsTo, Session.admitsTenant, Session.admitsChild, Db.ownsDocument]

/-- A session inside a tenant context sees what the policies admit under its setting. -/
theorem admitted_iff_evaluates {tenantId : Uuid} {db : Db} {row : Row} {r : Expr Uuid .bool}
    (hr : Evaluates (uuid.context (some (uuid.text tenantId))) (row.policy db) r) :
    row.admitted ⟨true, tenantId⟩ db ↔ r = .value (some true) := by
  have hread : Readable uuid (some (uuid.text tenantId)) := fun _ => by simp [uuid.input_text]
  rw [admitted_iff, (evaluates_policy hread db row hr).2]
  simp [namedTenant, uuid.text_ne, uuid.input_text]

/-- The policies of migration 0001 cast the setting as it is. -/
def unguardedTest (tenantId : Uuid) : Expr Uuid .bool := .binary .eq (.value (some tenantId)) (.toUuid .currentSetting)

/-- On a connection whose setting was reverted to the empty string they raise. -/
theorem unguardedTest_raises (tenantId : Uuid) : Evaluates (uuid.context (some "")) (unguardedTest tenantId) .error :=
  ⟨.head (.right _ _ (.operand .setting)) (.head (.right _ _ (.castError uuid.input_empty)) (.single (.rightError _ _))),
    trivial⟩

end DocAuto.Database
