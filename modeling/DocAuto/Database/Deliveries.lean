import DocAuto.Database.Outcome

/-! The transactions of the webhook worker on the table of deliveries. -/
namespace DocAuto.Database.Tx
open Process

variable {db : Db} {t d id : Uuid} {row : DeliveryRow} {set : DeliveriesSet}

/-- The subject of a delivery is the record of the document, if it is of the tenant, and the tenant. -/
theorem webhookSubject_run (hs : db.Sound) : (webhookSubject t d).run true db =
    (.ok (((db.record d).filter (·.row.tenantId == t)).map fun r => (r.row, r.extraction),
      Table.lookup TenantRow.id t db.tenants), db) := by
  have hfound := (run_outcome (d := d) hs (findDocumentWithExtraction t d)).2.2 rfl
  rw [← select_tenant]
  exact congrArg (fun found => (Except.ok (found, _), db)) hfound

theorem countDeliveries_run : (countDeliveries t d).run true db =
    (.ok (db.webhookDeliveries.filter fun r => r.tenantId == t && r.documentId == d).length, db) := by
  have h : (countDeliveries t d).run true db = (.ok (db.webhookDeliveries.filter fun r =>
    (Session.mk true t).admitsTenant r.tenantId && r.documentId == d).length, db) := rfl
  rw [h]
  simp [Session.admitsTenant]

/-- An insertion adds its row under a new id, or throws. -/
theorem insertDelivery_run : (∃ e, (insertDelivery t row).run true db = (.error e, db)) ∨
    (insertDelivery t row).run true db =
        (.ok row.id, { db with webhookDeliveries := db.webhookDeliveries ++ [row] }) ∧
      ∀ r ∈ db.webhookDeliveries, r.id ≠ row.id := by
  rcases h : (insertDelivery t row).run true db with ⟨e | x, db'⟩
  · exact .inl ⟨e, by rw [run_error h]⟩
  · obtain ⟨rows, m, hm, h⟩ := Program.exec_bind_ok _ (run_ok h)
    simp only [statement, Program.exec_perform, Statement.exec] at hm
    split_ifs at hm with _ hid
    iterate 4 simp at hm
    obtain ⟨rfl, rfl⟩ : [row] = rows ∧ _ = m := by simpa using hm
    obtain ⟨hx, rfl⟩ := Prod.mk.inj h
    obtain rfl := Except.ok.inj hx
    exact .inr ⟨rfl, by simpa using hid⟩

/-- Nothing stops the insertion of a row under a new id, for a document and a tenant that exist. -/
theorem insertDelivery_sure (ht : row.tenantId = t) (hid : ∀ r ∈ db.webhookDeliveries, r.id ≠ row.id)
    (hd : (db.document row.documentId).isSome) (hn : (Table.lookup TenantRow.id t db.tenants).isSome) :
    (insertDelivery t row).run true db = (.ok row.id, { db with webhookDeliveries := db.webhookDeliveries ++ [row] }) := by
  subst ht
  have hdocument : (db.documents.any fun r => r.id == row.documentId) = true := by rw [Table.any_key_eq]; exact hd
  have htenant : (db.tenants.any fun r => r.id == row.tenantId) = true := by rw [Table.any_key_eq]; exact hn
  have hexec : (Statement.insertDelivery row).exec ⟨true, row.tenantId⟩ db =
      (.ok [row], { db with webhookDeliveries := db.webhookDeliveries ++ [row] }) := by
    simpa [Statement.exec, Session.admitsTenant, hdocument, htenant] using hid
  refine run_of_exec (t := .insertDelivery row.tenantId row) ?_
  exact Program.exec_bind_of_ok _ ((Program.exec_perform _ _ _).trans hexec)

theorem writeAuditLog_sure {log : AuditRow} (ha : log.actorId = none) (hs : db.Sound)
    (hd : ∃ r, db.record log.documentId = some r ∧ t = r.row.tenantId) : (writeAuditLog t log).run true db =
      (.ok (), { db with documentAuditLog := db.documentAuditLog ++ [{ log with createdAt := db.now }] }) := by
  have hadmits : (Session.mk true t).admitsChild db log.documentId = true := (admitsChild_iff hs).2 hd
  have hdocument : (db.documents.any fun r => r.id == log.documentId) = true := by
    obtain ⟨r, hr, -⟩ := hd
    rw [Table.any_key_eq, ← Db.document, Db.document_of_record hr]
    rfl
  have hexec : (Statement.insertAuditLog log).exec ⟨true, t⟩ db =
      (.ok (), { db with documentAuditLog := db.documentAuditLog ++ [{ log with createdAt := db.now }] }) := by
    simp [Statement.exec, hadmits, hdocument, ha]
  exact run_of_exec (t := .writeAuditLog t log) ((Program.exec_perform _ _ _).trans hexec)

theorem updateDelivery_run : (updateDelivery t set id).run true db = (.ok (), { db with
    webhookDeliveries := db.webhookDeliveries.map fun r => if r.tenantId = t ∧ r.id = id then set.apply db.now r else r }) := by
  have h : (updateDelivery t set id).run true db = (.ok (), { db with
    webhookDeliveries := db.webhookDeliveries.map fun r =>
      if (Session.mk true t).admitsTenant r.tenantId && r.id == id then set.apply db.now r else r }) := rfl
  rw [h]
  simp [Session.admitsTenant]

end DocAuto.Database.Tx
