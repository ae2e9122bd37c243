import DocAuto.Database.Outcome

/-! The tables a transaction leaves alone. -/
namespace DocAuto.Database
open Process

inductive TableName where
  | tenants | users | documents | documentsExtraction | documentAuditLog | webhookDeliveries
  deriving DecidableEq, Repr

/-- The rows of one table are the same. -/
def TableName.same : TableName → Db → Db → Prop
  | tenants, db, db' => db.tenants = db'.tenants
  | users, db, db' => db.users = db'.users
  | documents, db, db' => db.documents = db'.documents
  | documentsExtraction, db, db' => db.documentsExtraction = db'.documentsExtraction
  | documentAuditLog, db, db' => db.documentAuditLog = db'.documentAuditLog
  | webhookDeliveries, db, db' => db.webhookDeliveries = db'.webhookDeliveries

def Statement.table : Statement → Option TableName
  | .insertTenant _ | .updateTenants _ _ => some .tenants
  | .insertUser _ => some .users
  | .insertDocument _ | .updateDocuments _ _ => some .documents
  | .insertExtraction _ | .updateExtraction _ _ | .deleteExtraction _ => some .documentsExtraction
  | .insertAuditLog _ => some .documentAuditLog
  | .insertDelivery _ | .updateDelivery _ _ => some .webhookDeliveries
  | _ => none

/-- The tables a transaction may write. -/
def Tx.tables : Tx → List TableName
  | .insertDocument _ _ | .updateDocument _ _ _ => [.documents]
  | .writeAuditLog _ _ => [.documentAuditLog]
  | .approve _ _ _ | .reject _ _ _ _ => [.documents, .documentAuditLog]
  | .edit _ _ _ _ => [.documentsExtraction, .documentAuditLog]
  | .reprocess _ _ _ => [.documentsExtraction, .documents, .documentAuditLog]
  | .updateTenant _ _ => [.tenants]
  | .insertExtraction _ _ => [.documentsExtraction]
  | .insertDelivery _ _ | .updateDelivery _ _ _ => [.webhookDeliveries]
  | _ => []

section Frame
variable {T : TableName} {ts : List TableName} {s : Session} {db : Db}

theorem TableName.same_refl (T : TableName) (db : Db) : T.same db db := by cases T <;> rfl

theorem Statement.exec_same {q : Statement} (h : q.table ≠ some T) : T.same (q.exec s db).2 db := by
  cases q with
  | insertTenant row | insertUser row | insertDocument row | insertExtraction row | insertAuditLog row
  | insertDelivery row =>
    simp only [Statement.exec]
    split_ifs <;> cases T <;> first | rfl | exact absurd rfl h
  | _ => cases T <;> first | rfl | exact absurd rfl h

/-- Statements that write only tables of a list. -/
private def writing (ts : List TableName) : Protocol Statement Statement.Resp Failure where
  Phase := Unit
  allowed _ q := ∀ T, q.table = some T → T ∈ ts
  answers _ _ _ := True
  next _ _ _ := ()

private abbrev Writing {α : Type} (ts : List TableName) (b : Body α) : Prop := (writing ts).Keeps (fun _ => True) b

private theorem writes_one {q : Statement} (h : ∀ T, q.table = some T → T ∈ ts) : Writing ts (statement q) :=
  Protocol.Keeps.perform fun _ _ => ⟨h, fun _ _ => trivial⟩

private theorem reads {q : Statement} (h : q.table = none) : Writing ts (statement q) :=
  writes_one fun T hT => by rw [h] at hT; cases hT

private theorem writes {q : Statement} (h : q.table = some T) (hT : T ∈ ts) : Writing ts (statement q) :=
  writes_one fun T' hT' => by rw [h] at hT'; cases hT'; exact hT

private theorem decide_writing {t d a : Uuid} {decided : DocumentStatus} {event : AuditEvent}
    {payload : Option AuditPayload} {wrongStatus changed : String} :
    Writing [.documents, .documentAuditLog] (decideTx t d a decided event payload wrongStatus changed) := by
  refine .bind (reads rfl) fun rows => ?_
  cases rows with
  | nil => exact .throw _
  | cons row rows =>
    refine .ite (.throw _) (.bind (writes rfl (by simp)) fun rows => ?_)
    cases rows with
    | nil => exact .throw _
    | cons row rows => exact .bind (writes rfl (by simp)) fun _ => .ret _

private theorem edit_writing {t d a : Uuid} {changes : ExtractionEdit} :
    Writing [.documentsExtraction, .documentAuditLog] (editTx t d a changes) := by
  refine .bind (reads rfl) fun rows => ?_
  cases rows with
  | nil => exact .throw _
  | cons row rows =>
    refine .ite (.throw _) (.bind (reads rfl) fun rows => ?_)
    cases rows with
    | nil => exact .throw _
    | cons row rows =>
      refine .ite (.throw _) (.bind (writes rfl (by simp)) fun rows => ?_)
      cases rows with
      | nil => exact .throw _
      | cons row rows => exact .bind (writes rfl (by simp)) fun _ => .ret _

private theorem reprocess_writing {t d a : Uuid} :
    Writing [.documentsExtraction, .documents, .documentAuditLog] (reprocessTx t d a) := by
  refine .bind (reads rfl) fun rows => ?_
  cases rows with
  | nil => exact .throw _
  | cons row rows =>
    refine .ite (.throw _) (.bind (writes rfl (by simp)) fun _ => .bind (writes rfl (by simp)) fun rows => ?_)
    cases rows with
    | nil => exact .throw _
    | cons row rows => exact .bind (writes rfl (by simp)) fun _ => .ret _

private theorem insertDelivery_writing {row : DeliveryRow} : Writing [.webhookDeliveries] (insertDeliveryTx row) := by
  refine .bind (writes rfl (by simp)) fun rows => ?_
  cases rows with
  | nil => exact .throw _
  | cons row rows => exact .ret _

private theorem body_writing (x : Tx) : Writing x.tables x.body := by
  cases x with
  | approve t d a => exact decide_writing
  | reject t d a reason => exact decide_writing
  | edit t d a changes => exact edit_writing
  | reprocess t d a => exact reprocess_writing
  | insertDelivery t row => exact insertDelivery_writing
  | insertDocument p id => exact .bind (writes rfl (by simp [Tx.tables])) fun _ => .ret _
  | updateDocument t d set => exact .bind (writes rfl (by simp [Tx.tables])) fun _ => .ret _
  | updateTenant t set => exact .ite (.throw _) (.bind (writes rfl (by simp [Tx.tables])) fun _ => .ret _)
  | writeAuditLog t row => exact writes rfl (by simp [Tx.tables])
  | insertExtraction t row => exact writes rfl (by simp [Tx.tables])
  | updateDelivery t set id => exact writes rfl (by simp [Tx.tables])
  | selectAuditLog t d => exact reads rfl
  | countDeliveries t d => exact reads rfl
  | listDocuments t status page pageSize => exact .bind (reads rfl) fun _ => .bind (reads rfl) fun _ => .ret _
  | webhookSubject t d => exact .bind (reads rfl) fun _ => .bind (reads rfl) fun _ => .ret _
  | getDocument t d => exact .bind (reads rfl) fun _ => .ret _
  | getStorageKey t d => exact .bind (reads rfl) fun _ => .ret _
  | findTenant t => exact .bind (reads rfl) fun _ => .ret _
  | findDocument t d => exact .bind (reads rfl) fun _ => .ret _
  | findDocumentWithExtraction t d => exact .bind (reads rfl) fun _ => .ret _

/-- A transaction leaves alone every table that it does not write. -/
theorem Tx.run_same (rls : Bool) {x : Tx} (h : T ∉ x.tables) : T.same (x.run rls db).2 db := by
  have hstep : ∀ (ph : Unit) (q : Statement) (a b : Db), (writing x.tables).allowed ph q → a = b ∧ T.same a db →
      (q.exec ⟨rls, x.tenantId⟩ a).1 = (q.exec ⟨rls, x.tenantId⟩ b).1 ∧ True ∧
        (q.exec ⟨rls, x.tenantId⟩ a).2 = (q.exec ⟨rls, x.tenantId⟩ b).2 ∧ T.same (q.exec ⟨rls, x.tenantId⟩ a).2 db := by
    rintro _ q a _ hq ⟨rfl, ha⟩
    have hs : T.same (q.exec ⟨rls, x.tenantId⟩ a).2 a := Statement.exec_same fun hT => h (hq T hT)
    refine ⟨rfl, trivial, rfl, ?_⟩
    cases T <;> exact Eq.trans hs ha
  obtain ⟨-, -, ⟨-, hs⟩, -⟩ := Protocol.exec_related hstep (body_writing x () trivial) ⟨rfl, T.same_refl db⟩
  rw [Tx.run]
  split
  · next hx => exact hx ▸ hs
  · exact T.same_refl db

end Frame
end DocAuto.Database
