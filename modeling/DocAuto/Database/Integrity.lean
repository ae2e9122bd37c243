import DocAuto.Database.Outcome

/-! The foreign keys that point to tenants and users, and those of the deliveries. -/
namespace DocAuto
open Process Database

/-- The rows name tenants, users and documents that are there. -/
structure Db.Referential (db : Db) : Prop where
  tenant : db.documents.map DocumentRow.tenantId ⊆ db.tenants.map TenantRow.id
  uploader : db.documents.map DocumentRow.uploadedBy ⊆ db.users.map UserRow.id
  actor : db.documentAuditLog.filterMap AuditRow.actorId ⊆ db.users.map UserRow.id
  delivered : db.webhookDeliveries.map DeliveryRow.documentId ⊆ db.documents.map DocumentRow.id
  receiver : db.webhookDeliveries.map DeliveryRow.tenantId ⊆ db.tenants.map TenantRow.id

namespace Database

section Referential
variable {db : Db} {s : Session}

/-- An update of some rows that keeps `key` keeps the column. -/
theorem map_key_update {α β : Type} (key : α → β) (f : α → α) (hf : ∀ r, key (f r) = key r) (p : α → Bool)
    (rows : List α) : (rows.map fun r => if p r then f r else r).map key = rows.map key := by
  rw [List.map_map]
  refine List.map_congr_left fun r _ => ?_
  dsimp only [Function.comp]
  split
  · exact hf r
  · rfl

/-- A column with a new entry that the check has found. -/
theorem subset_concat {α : Type} [DecidableEq α] {β : Type} {column : List α} {x : α} {targets : List β} {id : β → α}
    (h : column ⊆ targets.map id) (hx : (targets.any fun t => id t == x) = true) : column ++ [x] ⊆ targets.map id := by
  refine List.append_subset.2 ⟨h, List.cons_subset.2 ⟨?_, List.nil_subset _⟩⟩
  obtain ⟨t, ht, he⟩ := List.any_eq_true.1 hx
  exact List.mem_map.2 ⟨t, ht, beq_iff_eq.1 he⟩

/-- Foreign keys are kept by every statement. -/
theorem Statement.exec_referential (q : Statement) (h : db.Referential) : (q.exec s db).2.Referential := by
  cases q with
  | insertTenant row =>
    simp only [Statement.exec]
    split_ifs
    iterate 3 exact h
    refine { h with tenant := ?_, receiver := ?_ } <;> dsimp only <;> rw [List.map_append] <;>
      refine List.Subset.trans ?_ (List.subset_append_left _ _)
    · exact h.tenant
    · exact h.receiver
  | insertUser row =>
    simp only [Statement.exec]
    split_ifs
    iterate 4 exact h
    refine { h with uploader := ?_, actor := ?_ } <;> dsimp only <;> rw [List.map_append] <;>
      refine List.Subset.trans ?_ (List.subset_append_left _ _)
    · exact h.uploader
    · exact h.actor
  | insertDocument row =>
    simp only [Statement.exec]
    split_ifs with _ _ ht hu
    iterate 4 exact h
    refine { h with tenant := ?_, uploader := ?_, delivered := ?_ } <;> dsimp only <;> rw [List.map_append]
    · exact subset_concat h.tenant (by simpa using ht)
    · exact subset_concat h.uploader (by simpa using hu)
    · exact List.Subset.trans h.delivered (List.subset_append_left _ _)
  | insertAuditLog row =>
    simp only [Statement.exec]
    split_ifs with _ _ ha
    iterate 3 exact h
    refine { h with actor := ?_ }
    dsimp only
    rw [List.filterMap_append]
    cases hr : row.actorId with
    | none => simpa [hr] using h.actor
    | some a => simpa [hr] using subset_concat h.actor (x := a) (by simpa [hr] using ha)
  | insertDelivery row =>
    simp only [Statement.exec]
    split_ifs with _ _ hd ht
    iterate 4 exact h
    refine { h with delivered := ?_, receiver := ?_ } <;> dsimp only <;> rw [List.map_append]
    · exact subset_concat h.delivered (by simpa using hd)
    · exact subset_concat h.receiver (by simpa using ht)
  | updateTenants set id =>
    refine { h with tenant := ?_, receiver := ?_ } <;> dsimp only [Statement.exec] <;>
      rw [map_key_update TenantRow.id set.apply fun _ => rfl]
    · exact h.tenant
    · exact h.receiver
  | updateDocuments set w =>
    refine { h with tenant := ?_, uploader := ?_, delivered := ?_ } <;> dsimp only [Statement.exec]
    · rw [map_key_update DocumentRow.tenantId set.apply fun _ => rfl]
      exact h.tenant
    · rw [map_key_update DocumentRow.uploadedBy set.apply fun _ => rfl]
      exact h.uploader
    · rw [map_key_update DocumentRow.id set.apply fun _ => rfl]
      exact h.delivered
  | updateDelivery set id =>
    refine { h with delivered := ?_, receiver := ?_ } <;> dsimp only [Statement.exec]
    · rw [map_key_update DeliveryRow.documentId (set.apply db.now) fun _ => rfl]
      exact h.delivered
    · rw [map_key_update DeliveryRow.tenantId (set.apply db.now) fun _ => rfl]
      exact h.receiver
  | insertExtraction row =>
    simp only [Statement.exec]
    split_ifs <;> exact { h with }
  | _ => exact { h with }

theorem Tx.run_referential (rls : Bool) (t : Tx) (h : db.Referential) : (t.run rls db).2.Referential := by
  have hx := Program.exec_preserves (Statement.exec ⟨rls, t.tenantId⟩) (I := Db.Referential)
    (fun q _ => q.exec_referential) t.body h
  rw [Tx.run]
  rcases hr : t.body.exec (Statement.exec ⟨rls, t.tenantId⟩) db with ⟨e | a, db'⟩
  · exact h
  · simpa [hr] using hx

end Referential
end Database
end DocAuto
