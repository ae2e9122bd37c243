import DocAuto.Database.Outcome

/-! The row versions a statement writes. A transaction keeps those of its statements to
itself until it commits; the rows stay locked for as long. -/
namespace DocAuto.Database
open Process Table

inductive Write where
  | insertTenant (row : TenantRow)
  | updateTenant (set : TenantsSet) (id : Uuid)
  | insertUser (row : UserRow)
  | insertDocument (row : DocumentRow)
  | updateDocument (set : DocumentsSet) (id : Uuid)
  | insertExtraction (row : ExtractionRow)
  | updateExtraction (changes : ExtractionEdit) (documentId : Uuid)
  | deleteExtraction (documentId : Uuid)
  | insertAuditLog (row : AuditRow)
  | insertDelivery (row : DeliveryRow)
  | updateDelivery (set : DeliveriesSet) (now : Timestamp) (id : Uuid)
  deriving DecidableEq, Repr

/-- What is locked: a row by its primary key, or an entry of a further unique index. -/
inductive RowKey where
  | tenant (id : Uuid)
  | slug (slug : String)
  | user (id : Uuid)
  | email (email : String)
  | document (id : Uuid)
  | extraction (documentId : Uuid)
  | delivery (id : Uuid)
  deriving DecidableEq, Repr

namespace Write

/-- Audit rows are only ever inserted, under ids of their own. -/
def keys : Write → List RowKey
  | insertTenant row => [.tenant row.id, .slug row.slug]
  | updateTenant _ id => [.tenant id]
  | insertUser row => [.user row.id, .email row.email]
  | insertDocument row => [.document row.id]
  | updateDocument _ id => [.document id]
  | insertExtraction row => [.extraction row.documentId]
  | updateExtraction _ d | deleteExtraction d => [.extraction d]
  | insertAuditLog _ => []
  | insertDelivery row => [.delivery row.id]
  | updateDelivery _ _ id => [.delivery id]

def apply (db : Db) : Write → Db
  | insertTenant row => { db with tenants := db.tenants ++ [row] }
  | updateTenant set id => { db with tenants := db.tenants.map fun r => if r.id = id then set.apply r else r }
  | insertUser row => { db with users := db.users ++ [row] }
  | insertDocument row => { db with documents := db.documents ++ [row] }
  | updateDocument set id =>
    { db with documents := db.documents.map fun r => if r.id = id then set.apply r else r }
  | insertExtraction row => { db with documentsExtraction := db.documentsExtraction ++ [row] }
  | updateExtraction changes d =>
    let edited := db.documentsExtraction.map fun r => if r.documentId = d then applyEdit changes r else r
    { db with documentsExtraction := edited }
  | deleteExtraction d =>
    { db with documentsExtraction := db.documentsExtraction.filter fun r => decide (r.documentId ≠ d) }
  | insertAuditLog row => { db with documentAuditLog := db.documentAuditLog ++ [row] }
  | insertDelivery row => { db with webhookDeliveries := db.webhookDeliveries ++ [row] }
  | updateDelivery set now id =>
    let updated := db.webhookDeliveries.map fun r => if r.id = id then set.apply now r else r
    { db with webhookDeliveries := updated }

/-- The document row a write adds. -/
def inserted : Write → Option Uuid
  | insertDocument row => some row.id
  | _ => none

/-- The audit row a write adds. -/
def logged : Write → Option AuditRow
  | insertAuditLog row => some row
  | _ => none

end Write

/-- Statements write row after row. -/
def applyAll (db : Db) (ws : List Write) : Db := ws.foldl Write.apply db

namespace Statement

/-- The insert of a row, unless a constraint or a conflict clause kept it out. -/
def ifAdded {α : Type} (r : Except Failure α) (w : Write) : List Write :=
  match r with
  | .ok _ => [w]
  | .error _ => []

/-- The row versions a statement writes when it sees `db`. -/
def writes (s : Session) (db : Db) (c : Statement) : List Write :=
  match c with
  | .insertTenant row => ifAdded (c.exec s db).1 (.insertTenant row)
  | .updateTenants set id =>
    ((db.tenants.filter fun r => s.admitsTenant r.id && r.id == id).map (·.id)).map (.updateTenant set)
  | .insertUser row => ifAdded (c.exec s db).1 (.insertUser row)
  | .insertDocument row => ifAdded (c.exec s db).1 (.insertDocument { row with createdAt := db.now })
  | .updateDocuments set w => ((matching s w db).map (·.id)).map (.updateDocument set)
  | .insertExtraction row =>
    if db.documentsExtraction.any (·.documentId == row.documentId) then []
    else ifAdded (c.exec s db).1 (.insertExtraction row)
  | .updateExtraction changes d =>
    ((visibleExtraction s db d).map (·.documentId)).map (.updateExtraction changes)
  | .deleteExtraction d => ((visibleExtraction s db d).map (·.documentId)).map .deleteExtraction
  | .insertAuditLog row => ifAdded (c.exec s db).1 (.insertAuditLog { row with createdAt := db.now })
  | .insertDelivery row => ifAdded (c.exec s db).1 (.insertDelivery row)
  | .updateDelivery set id =>
    ((db.webhookDeliveries.filter fun r => s.admitsTenant r.tenantId && r.id == id).map (·.id)).map
      (.updateDelivery set db.now)
  | _ => []

/-- What must not be locked by another transaction for the statement to go ahead: the rows
it writes, and the entries of unique indexes its insert looks up. -/
def touches (s : Session) (db : Db) (c : Statement) : List RowKey :=
  (c.writes s db).flatMap Write.keys ++
    match c with
    | .insertTenant row => [.tenant row.id, .slug row.slug]
    | .insertUser row => [.user row.id, .email row.email]
    | .insertDocument row => [.document row.id]
    | .insertExtraction row => [.extraction row.documentId]
    | .insertDelivery row => [.delivery row.id]
    | _ => []

end Statement

/-- Every table that is updated in place has its primary key. -/
structure Indexed (db : Db) : Prop where
  tenants : Keyed TenantRow.id db.tenants
  documents : Keyed DocumentRow.id db.documents
  extractions : Keyed ExtractionRow.documentId db.documentsExtraction
  deliveries : Keyed DeliveryRow.id db.webhookDeliveries

section Effect
variable {s : Session} {db : Db}

theorem applyAll_append (db : Db) (ws vs : List Write) : applyAll db (ws ++ vs) = applyAll (applyAll db ws) vs :=
  List.foldl_append

theorem applyAll_cons (db : Db) (w : Write) (ws : List Write) : applyAll db (w :: ws) = applyAll (w.apply db) ws := rfl

theorem applyAll_ids (db : Db) (ws : List Write) :
    (applyAll db ws).documents.map (·.id) = db.documents.map (·.id) ++ ws.filterMap Write.inserted := by
  induction ws generalizing db with
  | nil => simp [applyAll]
  | cons w ws ih =>
    rw [applyAll_cons, ih]
    cases w with
    | updateDocument set id =>
      have : ∀ r : DocumentRow, (if r.id = id then set.apply r else r).id = r.id := fun r => by split <;> rfl
      simp [Write.apply, Write.inserted, Function.comp_def, List.filterMap_cons, this]
    | _ => simp [Write.apply, Write.inserted, List.filterMap_cons]

theorem applyAll_audit (db : Db) (ws : List Write) :
    (applyAll db ws).documentAuditLog = db.documentAuditLog ++ ws.filterMap Write.logged := by
  induction ws generalizing db with
  | nil => simp [applyAll]
  | cons w ws ih =>
    rw [applyAll_cons, ih]
    cases w <;> simp [Write.apply, Write.logged, List.filterMap_cons]

/-- A document that nothing was written to. -/
theorem applyAll_document {d : Uuid} {ws : List Write} (h : ∀ w ∈ ws, RowKey.document d ∉ w.keys) (db : Db) :
    (applyAll db ws).document d = db.document d := by
  induction ws generalizing db with
  | nil => rfl
  | cons w ws ih =>
    rw [applyAll_cons, ih fun w hw => h w (List.mem_cons_of_mem _ hw)]
    have hw := h w List.mem_cons_self
    cases w with
    | insertDocument row => exact lookup_concat_ne fun he => hw (by simp [Write.keys, he])
    | updateDocument set id =>
      refine (lookup_map fun r => by split <;> rfl).trans ?_
      cases hd : lookup DocumentRow.id d db.documents with
      | none => exact hd.symm
      | some row =>
        have hne : row.id ≠ id := fun he => hw (by simp [Write.keys, ← he, key_of_lookup hd])
        simp [Db.document, hd, hne]
    | _ => rfl

theorem document_updated (db : Db) (set : DocumentsSet) (d : Uuid) :
    ((Write.updateDocument set d).apply db).document d = (db.document d).map set.apply := by
  refine (lookup_map fun r => by split <;> rfl).trans ?_
  cases hd : db.document d with
  | none => exact congrArg (Option.map _) hd
  | some row => exact (congrArg (Option.map _) hd).trans (by simp [key_of_lookup hd])

private theorem applyAll_map {α κ : Type} (w : κ → Write) (get : Db → List α) (put : Db → List α → Db)
    (f : List α → κ → List α) (hput : ∀ db k, Write.apply db (w k) = put db (f (get db) k))
    (hget : ∀ db rows, get (put db rows) = rows) (hset : ∀ db rows rows', put (put db rows) rows' = put db rows')
    (hself : ∀ db, put db (get db) = db) (db : Db) (ks : List κ) :
    applyAll db (ks.map w) = put db (ks.foldl f (get db)) := by
  induction ks generalizing db with
  | nil => exact (hself db).symm
  | cons k ks ih =>
    rw [List.map_cons, applyAll, List.foldl_cons, ← applyAll, ih, hput, hget, hset]
    rfl

/-- A statement does to the database what its row versions do to it one after the other. -/
theorem exec_writes (hk : Indexed db) (c : Statement) : (c.exec s db).2 = applyAll db (c.writes s db) := by
  cases c with
  | insertTenant row | insertUser row | insertDocument row | insertAuditLog row | insertDelivery row =>
    simp only [Statement.writes, Statement.exec]
    split_ifs <;> rfl
  | insertExtraction row =>
    simp only [Statement.writes, Statement.exec]
    split_ifs <;> rfl
  | updateTenants set id =>
    rw [Statement.writes, applyAll_map _ (·.tenants) (fun db rows => { db with tenants := rows })
      (fun rows k => rows.map fun r => if r.id = k then set.apply r else r) (fun _ _ => rfl) (fun _ _ => rfl)
      (fun _ _ _ => rfl) (fun _ => rfl), map_where hk.tenants (f := set.apply) (fun _ => rfl)]
    rfl
  | updateDocuments set w =>
    rw [Statement.writes, applyAll_map _ (·.documents) (fun db rows => { db with documents := rows })
      (fun rows k => rows.map fun r => if r.id = k then set.apply r else r) (fun _ _ => rfl) (fun _ _ => rfl)
      (fun _ _ _ => rfl) (fun _ => rfl), Statement.matching, map_where hk.documents (f := set.apply) (fun _ => rfl)]
    rfl
  | updateExtraction changes d =>
    rw [Statement.writes, applyAll_map _ (·.documentsExtraction) (fun db rows => { db with documentsExtraction := rows })
      (fun rows k => rows.map fun r => if r.documentId = k then applyEdit changes r else r) (fun _ _ => rfl)
      (fun _ _ => rfl) (fun _ _ _ => rfl) (fun _ => rfl), Statement.visibleExtraction,
      map_where hk.extractions (f := applyEdit changes) (fun _ => rfl)]
    rfl
  | deleteExtraction d =>
    rw [Statement.writes, applyAll_map _ (·.documentsExtraction) (fun db rows => { db with documentsExtraction := rows })
      (fun rows k => rows.filter fun r => decide (r.documentId ≠ k)) (fun _ _ => rfl)
      (fun _ _ => rfl) (fun _ _ _ => rfl) (fun _ => rfl), Statement.visibleExtraction, filter_where hk.extractions]
    rfl
  | updateDelivery set id =>
    rw [Statement.writes, applyAll_map _ (·.webhookDeliveries) (fun db rows => { db with webhookDeliveries := rows })
      (fun rows k => rows.map fun r => if r.id = k then set.apply db.now r else r) (fun _ _ => rfl) (fun _ _ => rfl)
      (fun _ _ _ => rfl) (fun _ => rfl), map_where hk.deliveries (f := set.apply db.now) (fun _ => rfl)]
    rfl
  | _ => rfl

/-- A statement adds a document only under an id that it does not see. -/
theorem writes_inserted (c : Statement) : (c.writes s db).filterMap Write.inserted = [] ∨
    ∃ id, (c.writes s db).filterMap Write.inserted = [id] ∧ id ∉ db.documents.map (·.id) := by
  cases c with
  | insertDocument row =>
    simp only [Statement.writes, Statement.exec]
    split_ifs with _ hid
    any_goals exact .inl rfl
    exact .inr ⟨row.id, rfl, by simpa using hid⟩
  | insertTenant row | insertUser row | insertAuditLog row | insertDelivery row | insertExtraction row =>
    simp only [Statement.writes, Statement.exec]
    split_ifs <;> exact .inl rfl
  | _ => simp [Statement.writes, Write.inserted, List.filterMap_map, Function.comp_def]

theorem writes_keyed (hk : Keyed DocumentRow.id db.documents) (c : Statement) :
    Keyed DocumentRow.id (applyAll db (c.writes s db)).documents := by
  rw [Keyed, applyAll_ids]
  rcases writes_inserted c with h | ⟨id, h, hid⟩
  · rw [h, List.append_nil]
    exact hk
  · rw [h]
    exact List.nodup_append.2 ⟨hk, List.nodup_singleton id, fun a ha b hb he =>
      hid (List.mem_singleton.1 hb ▸ he ▸ ha)⟩

end Effect
end DocAuto.Database
