import DocAuto.Database.Record

/-! What a transaction can do to the record of a document: the condition under which
it commits, its result, and the record it leaves. -/
namespace DocAuto.Database
open Process Table

section Statements
variable {db : Db} {d : Uuid} {s : Session}

/-- Constraints are kept by every statement. -/
theorem Statement.exec_sound (c : Statement) (hs : db.Sound) : (c.exec s db).2.Sound := by
  cases c with
  | insertTenant row | insertUser row | insertDelivery row =>
    simp only [Statement.exec]
    split_ifs <;> exact hs.congr rfl rfl rfl
  | updateTenants set id | updateDelivery set id => exact hs.congr rfl rfl rfl
  | insertDocument row =>
    simp only [Statement.exec]
    split_ifs with _ hid
    any_goals exact hs
    refine hs.concat_document ?_
    rw [any_key_eq] at hid
    simpa [Db.document] using hid
  | updateDocuments set w => exact hs.map_documents fun r => by dsimp only; split <;> rfl
  | insertExtraction row =>
    simp only [Statement.exec]
    split_ifs with _ hid hd
    any_goals exact hs
    rw [any_key_eq] at hid hd
    exact hs.concat_extraction (by simpa [Db.extraction] using hid) (by simpa [Db.document, Option.isSome_iff_ne_none] using hd)
  | updateExtraction changes d => exact hs.map_extractions fun r => by dsimp only; split <;> rfl
  | deleteExtraction d => exact hs.filter_extractions _
  | insertAuditLog row =>
    simp only [Statement.exec]
    split_ifs with _ hd
    any_goals exact hs
    rw [any_key_eq] at hd
    exact Db.Sound.concat_audit hs (by simpa [Db.document, Option.isSome_iff_ne_none] using hd)
  | _ => exact hs

theorem Tx.run_sound (rls : Bool) (t : Tx) (hs : db.Sound) : (t.run rls db).2.Sound := by
  have h := Program.exec_preserves (Statement.exec ⟨rls, t.tenantId⟩) (I := Db.Sound)
    (fun c _ => c.exec_sound) t.body hs
  rw [Tx.run]
  rcases hr : t.body.exec (Statement.exec ⟨rls, t.tenantId⟩) db with ⟨e | a, db'⟩
  · exact hs
  · simpa [hr] using h

theorem Tx.run_error {rls : Bool} {t : Tx} {e : Failure} {db' : Db} (h : t.run rls db = (.error e, db')) :
    db' = db := by
  rw [Tx.run] at h
  split at h <;> simp_all

theorem Tx.run_ok {rls : Bool} {t : Tx} {a : t.Result} {db' : Db} (h : t.run rls db = (.ok a, db')) :
    t.body.exec (Statement.exec ⟨rls, t.tenantId⟩) db = (.ok a, db') := by
  rw [Tx.run] at h
  split at h <;> simp_all

theorem Tx.run_of_exec {rls : Bool} {t : Tx} {a : t.Result} {db' : Db}
    (h : t.body.exec (Statement.exec ⟨rls, t.tenantId⟩) db = (.ok a, db')) : t.run rls db = (.ok a, db') := by
  rw [Tx.run, h]

/-- A condition on the document id selects the row of that document or nothing. -/
theorem matching_id (hk : Keyed (·.id) db.documents) (t : Option Uuid) (status : Option DocumentStatus) :
    Statement.matching s { id := some d, tenantId := t, status := status } db =
      ((db.document d).filter fun r => s.admitsTenant r.tenantId && t.all (· == r.tenantId) &&
        status.all (· == r.status)).toList := by
  rw [Db.document, ← filter_key hk, Statement.matching]
  refine List.filter_congr fun r _ => ?_
  simp only [DocumentsWhere.holds, Option.all_some, Bool.beq_comm (a := d)]
  grind

theorem visibleExtraction_eq (hs : db.Sound) :
    Statement.visibleExtraction s db d = (if s.admitsChild db d then db.extraction d else none).toList := by
  rw [Statement.visibleExtraction, filter_key hs.extractions, Db.extraction]
  congr 1
  cases he : lookup (·.documentId) d db.documentsExtraction with
  | none => simp
  | some r => simp [Option.filter, key_of_lookup he]

end Statements

namespace Tx

/-- The document whose record the transaction may change. -/
def documentId : Tx → Option Uuid
  | .updateDocument _ d _ | .approve _ d _ | .reject _ d _ _ | .edit _ d _ _ | .reprocess _ d _ => some d
  | .writeAuditLog _ row => some row.documentId
  | .insertExtraction _ row => some row.documentId
  | _ => none

/-- The state in which a review action finds the record when it commits. -/
def guard (r : Record) : Tx → Prop
  | .approve _ _ _ | .reject _ _ _ _ => r.row.status = .pendingReview
  | .edit _ _ _ _ => r.row.status = .pendingReview ∧ r.extraction.isSome
  | .reprocess _ _ _ => r.row.status = .failed ∨ r.row.status = .rejected
  | _ => True

def decisionRow (d actorId : Uuid) (event : AuditEvent) (decided : DocumentStatus)
    (payload : Option AuditPayload) : AuditRow :=
  { documentId := d, actorId := some actorId, event := event, prevStatus := some .pendingReview
    newStatus := some decided, payload := payload }

/-- The record a committed transaction of the document's tenant leaves. -/
def commit (now : Timestamp) (r : Record) : Tx → Record
  | .updateDocument _ _ set => r.set set
  | .writeAuditLog _ row => r.log now row
  | .insertExtraction _ row => { r with extraction := r.extraction.or (some row) }
  | .approve _ d actorId =>
    (r.set { status := some .approved }).log now (decisionRow d actorId .approved .approved none)
  | .reject _ d actorId reason =>
    (r.set { status := some .rejected }).log now
      (decisionRow d actorId .rejected .rejected (some (.rejection reason)))
  | .edit _ d actorId changes =>
    { r with extraction := r.extraction.map (applyEdit changes) }.log now {
      documentId := d, actorId := some actorId, event := .fieldEdited, prevStatus := some r.row.status
      newStatus := some r.row.status, payload := some (.edit changes) }
  | .reprocess _ d actorId =>
    { r.set { status := some .uploaded, docType := some none, rawText := some none } with
      extraction := none }.log now {
        documentId := d, actorId := some actorId, event := .reprocessed
        prevStatus := some r.row.status, newStatus := some .uploaded }
  | _ => r

/-- The effect of a committed transaction on the record of document `d`. -/
def after (now : Timestamp) (d : Uuid) (t : Tx) : Option Record → Option Record
  | none => match t with
    | .insertDocument p id => if id = d then some (.fresh p id now) else none
    | _ => none
  | some r => if t.documentId = some d ∧ t.tenantId = r.row.tenantId then some (t.commit now r) else some r

/-- What must have held of the record of `d` for the transaction to commit. -/
def admitted (d : Uuid) (rec : Option Record) (t : Tx) : Prop :=
  match t with
  | .updateDocument _ _ _ => True
  | .insertDocument _ id => id = d → rec = none
  | t => t.documentId = some d → ∃ r, rec = some r ∧ t.tenantId = r.row.tenantId ∧ t.guard r

/-- What the result of a committed transaction says about the record of `d`. -/
def returns (d : Uuid) (rec : Option Record) : (t : Tx) → t.Result → Prop
  | .insertDocument _ id, row => ∃ r, row = some r ∧ r.id = id
  | .findDocument t d', row => d' = d → row = (rec.filter (·.row.tenantId == t)).map (·.row)
  | .findDocumentWithExtraction t d', found =>
    d' = d → found = (rec.filter (·.row.tenantId == t)).map fun r => (r.row, r.extraction)
  | _, _ => True

/-- The transactions no constraint and no condition of the code can stop. -/
def sure (d : Uuid) (rec : Option Record) : Tx → Prop
  | .updateDocument _ _ _ | .findTenant _ | .findDocument _ _ | .findDocumentWithExtraction _ _ => True
  | .writeAuditLog t row => row.actorId = none ∧ row.documentId = d ∧ ∃ r, rec = some r ∧ t = r.row.tenantId
  | .insertExtraction t row => row.documentId = d ∧ ∃ r, rec = some r ∧ t = r.row.tenantId
  | _ => False

/-- One executed transaction as the record of `d` sees it. -/
def Outcome (now : Timestamp) (d : Uuid) (t : Tx) (rec : Option Record) :
    Except Failure t.Result → Option Record → Prop
  | .error _, rec' => rec' = rec ∧ ¬ t.sure d rec
  | .ok a, rec' => rec' = t.after now d rec ∧ t.admitted d rec ∧ t.returns d rec a

end Tx
section Effects
variable {db db' : Db} {d d' t : Uuid} {s : Session}

theorem admitsChild_iff (hs : db.Sound) :
    (Session.mk true t).admitsChild db d = true ↔ ∃ r, db.record d = some r ∧ t = r.row.tenantId := by
  simp only [Session.admitsChild, Db.ownsDocument_eq hs, Db.record]
  cases db.document d with
  | none => simp
  | some row => simpa using ⟨Eq.symm, Eq.symm⟩

theorem update_record (set : DocumentsSet) (w : DocumentsWhere) :
    ((Statement.updateDocuments set w).exec s db).2.record d =
      (db.record d).map fun r => if s.admitsTenant r.row.tenantId && w.holds r.row then r.set set else r := by
  refine (Db.record_map_documents fun r => by dsimp only; split <;> rfl).trans ?_
  refine congrArg (fun f => (db.record d).map f) (funext fun r => ?_)
  dsimp only
  split <;> rfl

theorem log_ok {row : AuditRow} {u : Unit} (h : (Statement.insertAuditLog row).exec s db = (.ok u, db')) :
    s.admitsChild db row.documentId ∧ db'.record d = (db.record d).map fun r =>
      if row.documentId = d then r.log db.now row else r := by
  simp only [Statement.exec] at h
  split_ifs at h with hc
  iterate 3 simp at h
  obtain ⟨-, rfl⟩ := Prod.mk.inj h
  refine ⟨by simpa using hc, ?_⟩
  simp only [Db.record, Option.map_map]
  refine congrArg (fun f => (db.document d).map f) (funext fun r => ?_)
  by_cases hd : row.documentId = d <;>
    simp [Record.log, Db.audit, Db.extraction, List.filter_append, hd]

theorem log_sure {row : AuditRow} (ha : row.actorId = none)
    (hc : s.admitsChild db row.documentId) (hd : (db.document row.documentId).isSome) :
    ((Statement.insertAuditLog row).exec s db).1 = .ok () := by
  have : (db.documents.any fun r => r.id == row.documentId) = true := by rw [any_key_eq]; exact hd
  simp [Statement.exec, hc, ha, this]

theorem insertExtraction_ok {row : ExtractionRow} {u : Unit}
    (h : (Statement.insertExtraction row).exec s db = (.ok u, db')) :
    s.admitsChild db row.documentId ∧ db'.record d = (db.record d).map fun r =>
      if row.documentId = d then { r with extraction := r.extraction.or (some row) } else r := by
  simp only [Statement.exec, any_key_eq] at h
  split_ifs at h with hc he
  · simp at h
  · obtain ⟨-, rfl⟩ := Prod.mk.inj h
    refine ⟨by simpa using hc, ?_⟩
    simp only [Db.record, Option.map_map]
    refine congrArg (fun f => (db.document d).map f) (funext fun r => ?_)
    dsimp only [Function.comp]
    split
    · next hd =>
      obtain ⟨e, he⟩ := Option.isSome_iff_exists.1 he
      simp [Db.extraction, ← hd, he]
    · rfl
  · simp at h
  · obtain ⟨-, rfl⟩ := Prod.mk.inj h
    refine ⟨by simpa using hc, ?_⟩
    simp only [Db.record, Option.map_map]
    refine congrArg (fun f => (db.document d).map f) (funext fun r => ?_)
    dsimp only [Function.comp]
    split
    · next hd => simp [Db.extraction, Db.audit, lookup_concat, hd]
    · next hd => simp [Db.extraction, Db.audit, lookup_concat_ne hd]

theorem insertExtraction_sure {row : ExtractionRow}
    (hc : s.admitsChild db row.documentId) (hd : (db.document row.documentId).isSome) :
    ((Statement.insertExtraction row).exec s db).1 = .ok () := by
  have : (db.documents.any fun r => r.id == row.documentId) = true := by rw [any_key_eq]; exact hd
  simp only [Statement.exec, hc, this]
  split_ifs <;> simp_all

theorem deleteExtraction_record (hs : db.Sound) :
    ((Statement.deleteExtraction d').exec ⟨true, t⟩ db).2.record d =
      (db.record d).map fun r => if d' = d ∧ t = r.row.tenantId then { r with extraction := none } else r := by
  simp only [Statement.exec, Db.record, Option.map_map]
  show (db.document d).map _ = _
  cases hd : db.document d with
  | none => rfl
  | some row =>
    have hc := admitsChild_iff (t := t) (d := d) hs
    simp only [Db.record, hd, Option.map_some, Option.some.injEq, exists_eq_left'] at hc
    simp only [Option.map_some, Function.comp, Option.some.injEq]
    split
    · next h =>
      obtain ⟨rfl, ht⟩ := h
      have : lookup (·.documentId) d' (db.documentsExtraction.filter fun r =>
          !((Session.mk true t).admitsChild db r.documentId && r.documentId == d')) = none :=
        lookup_filter_key fun r hr => by simp [hr, hc.2 ht]
      simp only [Db.extraction, Db.audit] at this ⊢
      rw [this]
    · next h =>
      have : lookup (·.documentId) d (db.documentsExtraction.filter fun r =>
          !((Session.mk true t).admitsChild db r.documentId && r.documentId == d')) = db.extraction d := by
        refine lookup_filter_of fun r hr => ?_
        by_cases he : d' = d
        · have : (Session.mk true t).admitsChild db d = false := by
            rw [← Bool.not_eq_true, hc]; exact fun ht => h ⟨he, ht⟩
          simp [hr, this]
        · simp [hr, Ne.symm he]
      simp only [Db.extraction, Db.audit] at this ⊢
      rw [this]

theorem updateExtraction_record (hs : db.Sound) (changes : ExtractionEdit) :
    ((Statement.updateExtraction changes d').exec ⟨true, t⟩ db).2.record d = (db.record d).map fun r =>
      if d' = d ∧ t = r.row.tenantId then { r with extraction := r.extraction.map (applyEdit changes) } else r := by
  refine (Db.record_map_extractions fun r => by dsimp only; split <;> rfl).trans ?_
  cases hr : db.record d with
  | none => rfl
  | some r =>
    obtain ⟨row, hd, rfl⟩ := Option.map_eq_some_iff.1 hr
    have hc := admitsChild_iff (t := t) (d := d) hs
    simp only [hr, Option.some.injEq, exists_eq_left'] at hc
    simp only [Option.map_some, Option.some.injEq]
    cases he : db.extraction d with
    | none => simp
    | some e =>
      have hk : e.documentId = d := key_of_lookup he
      by_cases hdd : d' = d <;> by_cases ht : t = row.tenantId <;> simp_all [Ne.symm]

theorem select_head (hs : db.Sound) :
    (Statement.matching ⟨true, t⟩ { id := some d } db).head? = (db.document d).filter (·.tenantId == t) := by
  rw [matching_id hs.documents, Option.head?_toList]
  simp [Session.admitsTenant]

theorem select_own_head (hs : db.Sound) :
    (Statement.matching ⟨true, t⟩ { id := some d, tenantId := some t } db).head? =
      (db.document d).filter (·.tenantId == t) := by
  rw [matching_id hs.documents, Option.head?_toList]
  congr 1
  funext r
  simp [Session.admitsTenant, Bool.beq_comm]

theorem select_tenant (t : Uuid) (db : Db) :
    (db.tenants.filter fun r => (Session.mk true t).admitsTenant r.id && r.id == t).head? =
      lookup TenantRow.id t db.tenants := by
  rw [List.head?_filter]
  refine congrArg (fun p => db.tenants.find? p) (funext fun r => ?_)
  simp [Session.admitsTenant]

section Bodies
variable {α : Type} {x : α}

private theorem own_record (hs : db.Sound) {e : Failure} {f : List DocumentRow → Body α}
    (h : (statement (.selectDocuments { id := some d', tenantId := some t }) >>= f).exec
      (Statement.exec ⟨true, t⟩) db = (.ok x, db')) (hf : ∀ rows, rows.head? = none → f rows = throw e) :
    ∃ rows row, rows.head? = some row ∧ db.record d' = some ⟨row, db.extraction d', db.audit d'⟩ ∧ t = row.tenantId ∧
      row.id = d' ∧ (f rows).exec (Statement.exec ⟨true, t⟩) db = (.ok x, db') := by
  obtain ⟨rows, m, hm, h⟩ := Program.exec_bind_ok _ h
  simp only [statement, Program.exec_perform, Statement.exec, Prod.mk.injEq, Except.ok.injEq] at hm
  obtain ⟨rfl, rfl⟩ := hm
  have hrows := select_own_head (t := t) (d := d') hs
  cases hd : (db.document d').filter (·.tenantId == t) with
  | none => simp [hf _ (hrows.trans hd)] at h
  | some row =>
    obtain ⟨hdoc, ht⟩ := Option.mem_filter_iff.1 hd
    exact ⟨_, row, hrows.trans hd, Db.record_of_document hdoc, (beq_iff_eq.1 ht).symm, key_of_lookup hdoc, h⟩

private theorem logged {row : AuditRow} {y : α}
    (h : (do statement (.insertAuditLog row); return y : Body α).exec (Statement.exec s) db = (.ok x, db')) :
    db'.record d = (db.record d).map fun r => if row.documentId = d then r.log db.now row else r := by
  obtain ⟨u, l, hl, h⟩ := Program.exec_bind_ok _ h
  simp only [statement, Program.exec_perform] at hl
  obtain rfl : l = db' := by simpa using (Prod.mk.inj h).2
  exact (log_ok hl).2

end Bodies

/-- A review decision that commits found the document pending review. -/
theorem decide_ok (hs : db.Sound) {a : Uuid} {dec : DocumentStatus} {ev : AuditEvent}
    {payload : Option AuditPayload} {wrong changed : String} {x : DocumentRow}
    (h : (decideTx t d' a dec ev payload wrong changed).exec (Statement.exec ⟨true, t⟩) db = (.ok x, db')) :
    (∃ r, db.record d' = some r ∧ t = r.row.tenantId ∧ r.row.status = .pendingReview) ∧
      ∀ d, db'.record d = (db.record d).map fun r => if d' = d ∧ t = r.row.tenantId then
        (r.set { status := some dec }).log db.now (Tx.decisionRow d' a ev dec payload) else r := by
  obtain ⟨rows, row, hrow, hr, ht, hid, h⟩ := own_record hs h (e := notFoundDocument) fun rows hn => by simp only [hn]
  simp only [hrow] at h
  split at h
  · simp at h
  next hst =>
  obtain ⟨rows, m, hm, h⟩ := Program.exec_bind_ok _ h
  simp only [statement, Program.exec_perform] at hm
  split at h
  · simp at h
  have hst : row.status = .pendingReview := Decidable.not_not.1 hst
  have hnow : m.now = db.now := congrArg (·.2.now) hm.symm
  refine ⟨⟨_, hr, ht, hst⟩, fun d => ?_⟩
  have hu := @update_record db d ⟨true, t⟩ { status := some dec } { id := some d', status := some .pendingReview }
  rw [hm] at hu
  rw [logged h, hu, Option.map_map, hnow]
  cases hrd : db.record d with
  | none => rfl
  | some r =>
    by_cases hdd : d' = d
    · subst hdd
      obtain rfl : _ = r := Option.some.inj (hr.symm.trans hrd)
      simp [DocumentsWhere.holds, Session.admitsTenant, ht, hst, hid, Tx.decisionRow]
    · simp [DocumentsWhere.holds, Db.id_of_record hrd, hdd]

/-- An edit that commits found an extraction of a document pending review. -/
theorem edit_ok (hs : db.Sound) {a : Uuid} {changes : ExtractionEdit} {x : ExtractionRow}
    (h : (editTx t d' a changes).exec (Statement.exec ⟨true, t⟩) db = (.ok x, db')) :
    (∃ r, db.record d' = some r ∧ t = r.row.tenantId ∧ r.row.status = .pendingReview ∧ r.extraction.isSome) ∧
      ∀ d, db'.record d = (db.record d).map fun r => if d' = d ∧ t = r.row.tenantId then
        (Tx.edit t d' a changes).commit db.now r else r := by
  obtain ⟨rows, row, hrow, hr, ht, hid, h⟩ := own_record hs h (e := notFoundDocument) fun rows hn => by simp only [hn]
  simp only [hrow] at h
  split at h
  · simp at h
  next hst =>
  have hst : row.status = .pendingReview := Decidable.not_not.1 hst
  have hc : (Session.mk true t).admitsChild db d' := (admitsChild_iff hs).2 ⟨_, hr, ht⟩
  obtain ⟨es, m, hm, h⟩ := Program.exec_bind_ok _ h
  simp only [statement, Program.exec_perform, Statement.exec, visibleExtraction_eq hs, hc, if_true,
    Prod.mk.injEq, Except.ok.injEq] at hm
  obtain ⟨rfl, rfl⟩ := hm
  simp only [Option.head?_toList] at h
  cases he : db.extraction d' with
  | none => simp [he] at h
  | some e =>
    simp only [he] at h
    split at h
    · simp at h
    obtain ⟨us, m, hm, h⟩ := Program.exec_bind_ok _ h
    simp only [statement, Program.exec_perform] at hm
    split at h
    · simp at h
    have hnow : m.now = db.now := congrArg (·.2.now) hm.symm
    refine ⟨⟨_, hr, ht, hst, by simp [he]⟩, fun d => ?_⟩
    have hu := @updateExtraction_record db d d' t hs changes
    rw [hm] at hu
    rw [logged h, hu, Option.map_map, hnow]
    cases hrd : db.record d with
    | none => rfl
    | some r =>
      by_cases hdd : d' = d
      · subst hdd
        obtain rfl : _ = r := Option.some.inj (hr.symm.trans hrd)
        simp [ht, Tx.commit]
      · simp [hdd]

/-- A reprocess that commits found a failed or rejected document. -/
theorem reprocess_ok (hs : db.Sound) {a : Uuid} {x : DocumentRow}
    (h : (reprocessTx t d' a).exec (Statement.exec ⟨true, t⟩) db = (.ok x, db')) :
    (∃ r, db.record d' = some r ∧ t = r.row.tenantId ∧ (r.row.status = .failed ∨ r.row.status = .rejected)) ∧
      ∀ d, db'.record d = (db.record d).map fun r => if d' = d ∧ t = r.row.tenantId then
        (Tx.reprocess t d' a).commit db.now r else r := by
  obtain ⟨rows, row, hrow, hr, ht, hid, h⟩ := own_record hs h (e := notFoundDocument) fun rows hn => by simp only [hn]
  simp only [hrow] at h
  split at h
  · simp at h
  next hst =>
  have hst : row.status = .failed ∨ row.status = .rejected := by tauto
  obtain ⟨u, l, hl, h⟩ := Program.exec_bind_ok _ h
  obtain ⟨us, m, hm, h⟩ := Program.exec_bind_ok _ h
  simp only [statement, Program.exec_perform] at hl hm
  split at h
  · simp at h
  have hnow : m.now = db.now := (congrArg (·.2.now) hm.symm).trans (congrArg (·.2.now) hl.symm)
  refine ⟨⟨_, hr, ht, hst⟩, fun d => ?_⟩
  have hdel := @deleteExtraction_record db d d' t hs
  have hu := @update_record l d ⟨true, t⟩
    { status := some .uploaded, docType := some none, rawText := some none }
    { id := some d', status := some row.status }
  rw [hl] at hdel
  rw [hm, hdel] at hu
  rw [logged h, hu, Option.map_map, Option.map_map, hnow]
  cases hrd : db.record d with
  | none => rfl
  | some r =>
    by_cases hdd : d' = d
    · subst hdd
      obtain rfl : _ = r := Option.some.inj (hr.symm.trans hrd)
      simp [DocumentsWhere.holds, Session.admitsTenant, ht, hid, Tx.commit, Record.set]
    · simp [DocumentsWhere.holds, Db.id_of_record hrd, hdd]

end Effects

namespace Tx
variable {db db' : Db} {d d' : Uuid}

private theorem map_after {t : Tx} {now : Timestamp} {rec : Option Record} (hd : t.documentId = some d') :
    t.after now d rec = rec.map fun r => if d' = d ∧ t.tenantId = r.row.tenantId then t.commit now r else r := by
  cases rec with
  | none => cases t <;> first | rfl | cases hd
  | some r => simp only [after, hd, Option.some.injEq, Option.map_some]; split <;> rfl

private theorem run_throws {rls : Bool} {t : Tx} {e : Failure} (h : t.run rls db = (.error e, db')) :
    (t.body.exec (Statement.exec ⟨rls, t.tenantId⟩) db).1 = .error e := by
  rw [Tx.run] at h
  split at h <;> simp_all

private theorem map_owned {t : Uuid} (hs : db.Sound) (hc : (Session.mk true t).admitsChild db d') (f : Record → Record) :
    ((db.record d).map fun r => if d' = d then f r else r) =
      (db.record d).map fun r => if d' = d ∧ t = r.row.tenantId then f r else r := by
  obtain ⟨r', hr', ht⟩ := (admitsChild_iff hs).1 hc
  cases hr : db.record d with
  | none => rfl
  | some r =>
    by_cases hd : d' = d
    · obtain rfl : r' = r := Option.some.inj (hr'.symm.trans (hd ▸ hr))
      simp [hd, ht]
    · simp [hd]

private theorem error_outcome {t : Tx} {e : Failure} (h : t.run true db = (.error e, db'))
    (hn : ¬ t.sure d (db.record d)) : t.Outcome db.now d (db.record d) (.error e) (db'.record d) :=
  ⟨by rw [run_error h], hn⟩

private theorem ok_outcome {t : Tx} {x : t.Result} (hd : t.documentId = some d')
    (hg : ∃ r, db.record d' = some r ∧ t.tenantId = r.row.tenantId ∧ t.guard r)
    (hrec : ∀ d, db'.record d = (db.record d).map fun r =>
      if d' = d ∧ t.tenantId = r.row.tenantId then t.commit db.now r else r) :
    t.Outcome db.now d (db.record d) (.ok x) (db'.record d) := by
  refine ⟨(hrec d).trans (map_after hd).symm, ?_, ?_⟩
  · cases t <;> simp only [documentId, Option.some.injEq, reduceCtorEq] at hd <;> subst hd
    case updateDocument => trivial
    all_goals exact fun h => Option.some.inj h ▸ hg
  · cases t <;> trivial

private theorem run_quiet {t : Tx} (hd : t.documentId = none) (hi : ∀ p id, t ≠ .insertDocument p id) :
    (t.run true db).2.record d = db.record d := by
  cases t with
  | updateDocument _ _ _ | writeAuditLog _ _ | insertExtraction _ _ => cases hd
  | approve _ _ _ | reject _ _ _ _ | edit _ _ _ _ | reprocess _ _ _ => cases hd
  | insertDocument p id => exact absurd rfl (hi p id)
  | updateTenant tid set =>
    simp only [Tx.run, body, updateTenantTx]
    split_ifs <;> exact Db.record_congr rfl rfl rfl
  | insertDelivery tid row =>
    rcases h : (Tx.insertDelivery tid row).run true db with ⟨e | x, db'⟩
    · rw [run_error h]
    · obtain ⟨rows, m, hm, h⟩ := Program.exec_bind_ok _ (run_ok h)
      simp only [statement, Program.exec_perform, Statement.exec] at hm
      split_ifs at hm
      iterate 4 simp at hm
      obtain ⟨rfl, rfl⟩ : [row] = rows ∧ _ = m := by simpa using hm
      obtain ⟨-, rfl⟩ := Prod.mk.inj h
      exact Db.record_congr rfl rfl rfl
  | listDocuments tid status page pageSize =>
    rcases h : (Tx.listDocuments tid status page pageSize).run true db with ⟨e | x, db'⟩
    · rw [run_error h]
    · obtain ⟨rows, m, hm, h⟩ := Program.exec_bind_ok _ (run_ok h)
      rw [statement, Program.exec_perform] at hm
      obtain ⟨-, rfl⟩ := Prod.mk.inj hm
      obtain ⟨-, rfl⟩ := Prod.mk.inj h
      rfl
  | _ => rfl

private theorem quiet_outcome {t : Tx} (hd : t.documentId = none) (hi : ∀ p id, t ≠ .insertDocument p id)
    (hr : ∀ x, (t.run true db).1 = .ok x → t.returns d (db.record d) x)
    (hn : ∀ e, (t.run true db).1 = .error e → ¬ t.sure d (db.record d)) :
    t.Outcome db.now d (db.record d) (t.run true db).1 ((t.run true db).2.record d) := by
  have ha : t.after db.now d (db.record d) = db.record d := by
    cases hrec : db.record d with
    | none => cases t <;> first | rfl | exact absurd rfl (hi _ _)
    | some r => simp [after, hd]
  have hq : t.admitted d (db.record d) := by
    cases t with
    | insertDocument p id => exact absurd rfl (hi p id)
    | updateDocument _ _ _ => trivial
    | _ => exact fun h => absurd (hd.symm.trans h) nofun
  rcases h : (t.run true db).1 with e | x
  · exact ⟨run_quiet hd hi, hn e h⟩
  · exact ⟨(run_quiet hd hi).trans ha.symm, hq, hr x h⟩

private theorem insertDocument_outcome (hs : db.Sound) (p : Upload) (d' : Uuid) :
    (Tx.insertDocument p d').Outcome db.now d (db.record d) ((Tx.insertDocument p d').run true db).1
      (((Tx.insertDocument p d').run true db).2.record d) := by
  rcases h : (Tx.insertDocument p d').run true db with ⟨e | x, db'⟩
  · exact error_outcome h id
  · obtain ⟨rows, m, hm, h⟩ := Program.exec_bind_ok _ (run_ok h)
    simp only [statement, Program.exec_perform, Statement.exec, any_key_eq] at hm
    split_ifs at hm with _ hid
    iterate 4 simp at hm
    obtain ⟨hrows, rfl⟩ := Prod.mk.inj hm
    obtain ⟨hx, rfl⟩ := Prod.mk.inj h
    obtain rfl := Except.ok.inj hrows
    have hnone : db.document d' = none := by simpa [Db.document] using hid
    refine ⟨?_, ?_, _, (Except.ok.inj hx).symm, rfl⟩
    · rw [Db.record_concat_document hs hnone]
      cases hrec : db.record d with
      | none => simp [after, Record.fresh]
      | some r =>
        have : d' ≠ d := fun hd => by simp [Db.record_eq_none.2 (hd ▸ hnone)] at hrec
        simp [after, documentId, this]
    · rintro rfl
      exact Db.record_eq_none.2 hnone

/-- Every transaction acts on the record of a document as its `Outcome` says. -/
theorem run_outcome (hs : db.Sound) (t : Tx) :
    t.Outcome db.now d (db.record d) (t.run true db).1 ((t.run true db).2.record d) := by
  cases t with
  | insertDocument p id => exact insertDocument_outcome hs p id
  | updateDocument tid d' set =>
    refine ⟨?_, trivial, trivial⟩
    rw [map_after rfl]
    refine (update_record (s := ⟨true, tid⟩) set { id := some d' }).trans ?_
    cases hr : db.record d with
    | none => rfl
    | some r =>
      by_cases hd : d' = d <;> by_cases ht : tid = r.row.tenantId <;>
        simp [DocumentsWhere.holds, Session.admitsTenant, Db.id_of_record hr, tenantId, commit, hd, ht, Ne.symm]
  | approve tid d' a =>
    rcases h : (Tx.approve tid d' a).run true db with ⟨e | x, db'⟩
    · exact error_outcome h id
    · exact ok_outcome rfl (decide_ok hs (run_ok h)).1 (decide_ok hs (run_ok h)).2
  | reject tid d' a reason =>
    rcases h : (Tx.reject tid d' a reason).run true db with ⟨e | x, db'⟩
    · exact error_outcome h id
    · exact ok_outcome rfl (decide_ok hs (run_ok h)).1 (decide_ok hs (run_ok h)).2
  | edit tid d' a changes =>
    rcases h : (Tx.edit tid d' a changes).run true db with ⟨e | x, db'⟩
    · exact error_outcome h id
    · exact ok_outcome rfl (edit_ok hs (run_ok h)).1 (edit_ok hs (run_ok h)).2
  | reprocess tid d' a =>
    rcases h : (Tx.reprocess tid d' a).run true db with ⟨e | x, db'⟩
    · exact error_outcome h id
    · exact ok_outcome rfl (reprocess_ok hs (run_ok h)).1 (reprocess_ok hs (run_ok h)).2
  | writeAuditLog tid row =>
    rcases h : (Tx.writeAuditLog tid row).run true db with ⟨e | x, db'⟩
    · refine error_outcome h ?_
      rintro ⟨ha, rfl, r, hr, ht⟩
      have hl := log_sure (s := ⟨true, tid⟩) ha ((admitsChild_iff hs).2 ⟨r, hr, ht⟩)
        (by rw [Db.document_of_record hr]; rfl)
      cases hl.symm.trans ((congrArg Prod.fst (Program.exec_perform _ _ _)).symm.trans (run_throws h))
    · have hx : (Statement.insertAuditLog row).exec ⟨true, tid⟩ db = (.ok x, db') :=
        (Program.exec_perform _ _ _).symm.trans (run_ok h)
      have hc := fun d => log_ok (d := d) hx
      exact ok_outcome rfl ((admitsChild_iff hs).1 (hc d).1 |>.imp fun r hr => ⟨hr.1, hr.2, trivial⟩)
        fun d => (hc d).2.trans (map_owned hs (hc d).1 _)
  | insertExtraction tid row =>
    rcases h : (Tx.insertExtraction tid row).run true db with ⟨e | x, db'⟩
    · refine error_outcome h ?_
      rintro ⟨rfl, r, hr, ht⟩
      have hl := insertExtraction_sure (s := ⟨true, tid⟩) ((admitsChild_iff hs).2 ⟨r, hr, ht⟩)
        (by rw [Db.document_of_record hr]; rfl)
      cases hl.symm.trans ((congrArg Prod.fst (Program.exec_perform _ _ _)).symm.trans (run_throws h))
    · have hx : (Statement.insertExtraction row).exec ⟨true, tid⟩ db = (.ok x, db') :=
        (Program.exec_perform _ _ _).symm.trans (run_ok h)
      have hc := fun d => insertExtraction_ok (d := d) hx
      exact ok_outcome rfl ((admitsChild_iff hs).1 (hc d).1 |>.imp fun r hr => ⟨hr.1, hr.2, trivial⟩)
        fun d => (hc d).2.trans (map_owned hs (hc d).1 _)
  | findDocument tid d' =>
    refine quiet_outcome rfl (by rintro _ _ ⟨⟩) ?_ (by rintro _ ⟨⟩)
    rintro x hx rfl
    obtain rfl : (Statement.matching ⟨true, tid⟩ { id := some d' } db).head? = x := Except.ok.inj hx
    rw [select_head hs]
    cases hd : db.document d' <;> simp [Db.record, hd, Option.filter]
  | findDocumentWithExtraction tid d' =>
    refine quiet_outcome rfl (by rintro _ _ ⟨⟩) ?_ (by rintro _ ⟨⟩)
    rintro x hx rfl
    obtain rfl : ((Statement.matching ⟨true, tid⟩ { id := some d' } db).map
      (Statement.withExtraction ⟨true, tid⟩ db)).head? = x := Except.ok.inj hx
    rw [List.head?_map, select_head hs]
    cases hd : db.document d' with
    | none => simp [Db.record, hd]
    | some row =>
      by_cases ht : row.tenantId = tid
      · have hr := Db.record_of_document hd
        have hc : (Session.mk true tid).admitsChild db d' := (admitsChild_iff hs).2 ⟨_, hr, ht.symm⟩
        have hid : row.id = d' := key_of_lookup hd
        simp [hr, ht, Statement.withExtraction, visibleExtraction_eq hs, hid, hc, Option.filter]
      · simp [Db.record, hd, ht, Option.filter]
  | findTenant _ => exact quiet_outcome rfl (by rintro _ _ ⟨⟩) (fun _ _ => trivial) (by rintro _ ⟨⟩)
  | _ => exact quiet_outcome rfl (by rintro _ _ ⟨⟩) (fun _ _ => trivial) fun _ _ => id

/-- A record keeps its id and its tenant. -/
theorem after_some (t : Tx) (now : Timestamp) (r : Record) :
    ∃ r', t.after now d (some r) = some r' ∧ r'.row.tenantId = r.row.tenantId ∧ r'.row.id = r.row.id := by
  simp only [after]
  split
  · refine ⟨_, rfl, ?_⟩
    cases t <;> exact ⟨rfl, rfl⟩
  · exact ⟨r, rfl, rfl, rfl⟩

theorem after_of_ne {t : Tx} {now : Timestamp} {rec : Option Record} (hd : t.documentId ≠ some d)
    (hi : ∀ p, t ≠ .insertDocument p d) : t.after now d rec = rec := by
  cases rec with
  | some r => exact if_neg fun h => hd h.1
  | none =>
    cases t with
    | insertDocument p id => exact if_neg fun h : id = d => hi p (h ▸ rfl)
    | _ => rfl

/-- The status a transaction sets. -/
def statusSet : Tx → Option DocumentStatus
  | .updateDocument _ _ set => set.status
  | .approve _ _ _ => some .approved
  | .reject _ _ _ _ => some .rejected
  | .reprocess _ _ _ => some .uploaded
  | _ => none

theorem commit_status (t : Tx) (now : Timestamp) (r : Record) :
    (t.commit now r).row.status = t.statusSet.getD r.row.status := by
  cases t <;> rfl

/-- A status changes only by a transaction that sets it, run for the document's tenant. -/
theorem after_status (t : Tx) (now : Timestamp) (r : Record) : ∃ r', t.after now d (some r) = some r' ∧
    (r'.row.status = r.row.status ∨
      t.documentId = some d ∧ t.tenantId = r.row.tenantId ∧ t.statusSet = some r'.row.status) := by
  simp only [after]
  split
  · next h =>
    refine ⟨_, rfl, ?_⟩
    rw [commit_status]
    cases hs : t.statusSet with
    | none => exact .inl rfl
    | some st => exact .inr ⟨h.1, h.2, rfl⟩
  · exact ⟨r, rfl, .inl rfl⟩

end Tx
end DocAuto.Database
