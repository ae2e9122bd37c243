import DocAuto.Database.Table
import DocAuto.Database.Transaction

/-! The record of one document: its row, its extraction and its audit trail. Every
transaction acts on a record as a whole, or not at all. -/
namespace DocAuto
open Process Database Table

structure Record where
  row : DocumentRow
  extraction : Option ExtractionRow
  audit : List AuditRow
  deriving DecidableEq, Repr

namespace Record

def set (r : Record) (set : DocumentsSet) : Record := { r with row := set.apply r.row }

def log (r : Record) (now : Timestamp) (row : AuditRow) : Record :=
  { r with audit := r.audit ++ [{ row with createdAt := now }] }

def fresh (p : Upload) (id : Uuid) (now : Timestamp) : Record :=
  ⟨{ id := id, tenantId := p.tenantId, uploadedBy := p.uploadedBy, storageKey := "pending"
     fileName := p.fileName, mimeType := p.mimeType, status := .uploaded
     docType := none, rawText := none, createdAt := now }, none, []⟩

end Record

namespace Db
variable (db : Db)

def document (d : Uuid) : Option DocumentRow := lookup (·.id) d db.documents

def extraction (d : Uuid) : Option ExtractionRow := lookup (·.documentId) d db.documentsExtraction

def audit (d : Uuid) : List AuditRow := db.documentAuditLog.filter fun r => r.documentId == d

/-- The rows of the database, without its clock. -/
def tables : Db := { db with now := 0 }

def record (d : Uuid) : Option Record :=
  (db.document d).map fun row => ⟨row, db.extraction d, db.audit d⟩

/-- The primary key, the unique key and the foreign keys that the records rest on. -/
structure Sound : Prop where
  documents : Keyed (·.id) db.documents
  extractions : Keyed (·.documentId) db.documentsExtraction
  extractionOf : ∀ r ∈ db.documentsExtraction, (db.document r.documentId).isSome
  auditOf : ∀ r ∈ db.documentAuditLog, (db.document r.documentId).isSome

end Db

section Statements
variable {db : Db} {d : Uuid} {s : Session}

@[simp] theorem Database.DocumentsSet.apply_id (set : DocumentsSet) (r : DocumentRow) : (set.apply r).id = r.id := rfl

@[simp] theorem Database.DocumentsSet.apply_tenantId (set : DocumentsSet) (r : DocumentRow) :
    (set.apply r).tenantId = r.tenantId := rfl

@[simp] theorem Database.applyEdit_documentId (changes : ExtractionEdit) (r : ExtractionRow) :
    (applyEdit changes r).documentId = r.documentId := rfl

namespace Db

theorem record_of_document {row : DocumentRow} (h : db.document d = some row) :
    db.record d = some ⟨row, db.extraction d, db.audit d⟩ := by simp [record, h]

theorem document_of_record {r : Record} (h : db.record d = some r) : db.document d = some r.row := by
  obtain ⟨row, hd, rfl⟩ := Option.map_eq_some_iff.1 h
  exact hd

theorem record_eq_none : db.record d = none ↔ db.document d = none := by simp [record]

theorem id_of_record {r : Record} (h : db.record d = some r) : r.row.id = d :=
  key_of_lookup (document_of_record h)

theorem ownsDocument_eq (hs : db.Sound) (t : Uuid) :
    db.ownsDocument t d = (db.document d).any (·.tenantId == t) :=
  any_key hs.documents _

/-- Documents of a table that only changes rows in place. -/
theorem document_map {f : DocumentRow → DocumentRow} (hf : ∀ r, (f r).id = r.id) :
    ({ db with documents := db.documents.map f } : Db).document d = (db.document d).map f :=
  lookup_map hf

theorem Sound.congr {db' : Db} (hs : db.Sound) (hd : db'.documents = db.documents)
    (he : db'.documentsExtraction = db.documentsExtraction) (ha : db'.documentAuditLog = db.documentAuditLog) :
    db'.Sound := by
  refine ⟨hd ▸ hs.documents, he ▸ hs.extractions, ?_, ?_⟩ <;> simp only [he, ha, document, hd]
  · exact hs.extractionOf
  · exact hs.auditOf

theorem Sound.of_tables {db' : Db} (hs : db.Sound) (h : db'.tables = db.tables) : db'.Sound := by
  simp only [tables, Db.mk.injEq] at h
  exact hs.congr h.2.2.1 h.2.2.2.1 h.2.2.2.2.1

theorem record_congr {db' : Db} (hd : db'.documents = db.documents)
    (he : db'.documentsExtraction = db.documentsExtraction) (ha : db'.documentAuditLog = db.documentAuditLog) :
    db'.record d = db.record d := by
  simp only [record, document, extraction, audit, hd, he, ha]

theorem Sound.map_documents (hs : db.Sound) {f : DocumentRow → DocumentRow} (hf : ∀ r, (f r).id = r.id) :
    ({ db with documents := db.documents.map f } : Db).Sound := by
  refine ⟨hs.documents.map hf, hs.extractions, fun r hr => ?_, fun r hr => ?_⟩
  · simpa [document_map hf] using hs.extractionOf r hr
  · simpa [document_map hf] using hs.auditOf r hr

theorem record_map_documents {f : DocumentRow → DocumentRow} (hf : ∀ r, (f r).id = r.id) :
    ({ db with documents := db.documents.map f } : Db).record d =
      (db.record d).map fun r => { r with row := f r.row } := by
  rw [record, document_map hf, record, Option.map_map, Option.map_map]
  rfl

theorem Sound.concat_document (hs : db.Sound) {row : DocumentRow} (h : db.document row.id = none) :
    ({ db with documents := db.documents ++ [row] } : Db).Sound := by
  have hkeep : ∀ d, (db.document d).isSome → (({ db with documents := db.documents ++ [row] } : Db).document d).isSome := by
    intro d hd
    simp only [document] at hd ⊢
    rw [lookup_concat, Option.isSome_or, hd, Bool.true_or]
  exact ⟨hs.documents.concat h, hs.extractions, fun r hr => hkeep _ (hs.extractionOf r hr),
    fun r hr => hkeep _ (hs.auditOf r hr)⟩

theorem record_concat_document (hs : db.Sound) {row : DocumentRow} (h : db.document row.id = none) :
    ({ db with documents := db.documents ++ [row] } : Db).record d =
      if row.id = d then some ⟨row, none, []⟩ else db.record d := by
  split
  · next hd =>
    subst hd
    have he : db.extraction row.id = none :=
      lookup_eq_none.2 fun r hr hk => by simpa [hk, h] using hs.extractionOf r hr
    have ha : db.audit row.id = [] :=
      List.filter_eq_nil_iff.2 fun r hr hk => by simpa [beq_iff_eq.1 hk, h] using hs.auditOf r hr
    simp only [record, document, lookup_concat_self h, Option.map_some]
    exact congrArg some (by simpa using ⟨he, ha⟩)
  · next hd => simp only [record, document, lookup_concat_ne hd]; rfl

theorem Sound.map_extractions (hs : db.Sound) {f : ExtractionRow → ExtractionRow}
    (hf : ∀ r, (f r).documentId = r.documentId) :
    ({ db with documentsExtraction := db.documentsExtraction.map f } : Db).Sound := by
  refine ⟨hs.documents, hs.extractions.map hf, fun r hr => ?_, hs.auditOf⟩
  obtain ⟨e, he, rfl⟩ := List.mem_map.1 hr
  exact (hf e).symm ▸ hs.extractionOf e he

theorem record_map_extractions {f : ExtractionRow → ExtractionRow} (hf : ∀ r, (f r).documentId = r.documentId) :
    ({ db with documentsExtraction := db.documentsExtraction.map f } : Db).record d =
      (db.record d).map fun r => { r with extraction := r.extraction.map f } := by
  simp only [record, extraction, Option.map_map, Function.comp_def, lookup_map hf]
  rfl

theorem Sound.filter_extractions (hs : db.Sound) (p : ExtractionRow → Bool) :
    ({ db with documentsExtraction := db.documentsExtraction.filter p } : Db).Sound :=
  ⟨hs.documents, hs.extractions.filter p, fun r hr => hs.extractionOf r (List.mem_filter.1 hr).1, hs.auditOf⟩

theorem Sound.concat_extraction (hs : db.Sound) {row : ExtractionRow} (h : db.extraction row.documentId = none)
    (hd : (db.document row.documentId).isSome) :
    ({ db with documentsExtraction := db.documentsExtraction ++ [row] } : Db).Sound := by
  refine ⟨hs.documents, hs.extractions.concat h, fun r hr => ?_, hs.auditOf⟩
  rcases List.mem_append.1 hr with hr | hr
  · exact hs.extractionOf r hr
  · exact (List.mem_singleton.1 hr) ▸ hd

theorem Sound.concat_audit (hs : db.Sound) {row : AuditRow} (hd : (db.document row.documentId).isSome) :
    ({ db with documentAuditLog := db.documentAuditLog ++ [row] } : Db).Sound := by
  refine ⟨hs.documents, hs.extractions, hs.extractionOf, fun r hr => ?_⟩
  rcases List.mem_append.1 hr with hr | hr
  · exact hs.auditOf r hr
  · exact (List.mem_singleton.1 hr) ▸ hd

end Db
end Statements
end DocAuto
