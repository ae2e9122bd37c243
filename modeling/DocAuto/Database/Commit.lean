import DocAuto.Database.Outcome

/-! What a committed transaction does to the three parts of a record. -/
namespace DocAuto.Database.Tx

variable {d : Uuid}

/-- A transaction commits its change to the record of `d`, or has nothing to do with it. -/
theorem after_cases (t : Tx) (now : Timestamp) (r : Record) : t.after now d (some r) = some r ∨
    t.documentId = some d ∧ t.tenantId = r.row.tenantId ∧ t.after now d (some r) = some (t.commit now r) := by
  simp only [after]
  split
  · next h => exact .inr ⟨h.1, h.2, rfl⟩
  · exact .inl rfl

theorem after_own {t : Tx} {now : Timestamp} {r : Record} (hd : t.documentId = some d)
    (ht : t.tenantId = r.row.tenantId) : t.after now d (some r) = some (t.commit now r) :=
  if_pos ⟨hd, ht⟩

/-- The audit rows a transaction writes. -/
def logged (now : Timestamp) (r : Record) : Tx → List AuditRow
  | .writeAuditLog _ row => [{ row with createdAt := now }]
  | .approve _ d actorId => [{ decisionRow d actorId .approved .approved none with createdAt := now }]
  | .reject _ d actorId reason =>
    [{ decisionRow d actorId .rejected .rejected (some (.rejection reason)) with createdAt := now }]
  | .edit _ d actorId changes => [{
      documentId := d, actorId := some actorId, event := .fieldEdited, prevStatus := some r.row.status
      newStatus := some r.row.status, payload := some (.edit changes), createdAt := now }]
  | .reprocess _ d actorId => [{
      documentId := d, actorId := some actorId, event := .reprocessed
      prevStatus := some r.row.status, newStatus := some .uploaded, createdAt := now }]
  | _ => []

theorem commit_audit (t : Tx) (now : Timestamp) (r : Record) : (t.commit now r).audit = r.audit ++ t.logged now r := by
  cases t <;> first | exact (List.append_nil _).symm | rfl

/-- The stored extraction survives everything but an edit and a reprocess; an insert
only fills the place of a missing one. -/
theorem commit_extraction (t : Tx) (now : Timestamp) (r : Record) :
    (t.commit now r).extraction = r.extraction ∨
      (∃ tid row, t = .insertExtraction tid row ∧ (t.commit now r).extraction = r.extraction.or (some row)) ∨
      (∃ tid d actorId changes, t = .edit tid d actorId changes) ∨ ∃ tid d actorId, t = .reprocess tid d actorId := by
  cases t with
  | insertExtraction tid row => exact .inr (.inl ⟨tid, row, rfl, rfl⟩)
  | edit tid d actorId changes => exact .inr (.inr (.inl ⟨tid, d, actorId, changes, rfl⟩))
  | reprocess tid d actorId => exact .inr (.inr (.inr ⟨tid, d, actorId, rfl⟩))
  | _ => exact .inl rfl

/-- The storage key is written by an update that names it, and by nothing else. -/
theorem commit_storageKey (t : Tx) (now : Timestamp) (r : Record) :
    (t.commit now r).row.storageKey = r.row.storageKey ∨
      ∃ tid d set key, t = .updateDocument tid d set ∧ set.storageKey = some key ∧
        (t.commit now r).row.storageKey = key := by
  cases t with
  | updateDocument tid d set =>
    cases hkey : set.storageKey with
    | none => exact .inl (congrArg (Option.getD · r.row.storageKey) hkey)
    | some key => exact .inr ⟨tid, d, set, key, rfl, hkey, congrArg (Option.getD · r.row.storageKey) hkey⟩
  | _ => exact .inl rfl

end DocAuto.Database.Tx
