import DocAuto.Database.Columns
import DocAuto.Decision.Rounding
import DocAuto.Decision.Routing
import DocAuto.Pipeline.Redelivery
import DocAuto.Pipeline.Secrets
import DocAuto.Validators.Extraction

/-! The tenant's threshold on its way through `updateTenantConfig` and the database to the decisions of
the extraction worker. -/
namespace DocAuto

/-- The line items match, and the lowest confidence meets one of the two thresholds only. -/
def InvoiceExtraction.Splits (e : InvoiceExtraction) (t t' : ℚ) : Prop :=
  e.Balances ∧ ∃ m, (e.confidence.map Prod.snd).min? = some m ∧ min t t' ≤ m ∧ m < max t t'

section Decision
variable {e : InvoiceExtraction} {t t' : ℚ}

theorem confident_iff : e.Confident t ↔ ∀ m, (e.confidence.map Prod.snd).min? = some m → t ≤ m := by
  by_cases hnil : e.confidence = []
  · simp [InvoiceExtraction.Confident, hnil]
  · rw [← least_iff e t hnil]
    constructor
    · rintro ⟨m, hm, hle⟩ m' hm'
      exact Option.some.inj (hm.symm.trans hm') ▸ hle
    · intro h
      have hne : e.confidence.map Prod.snd ≠ [] := fun h => hnil (List.map_eq_nil_iff.1 h)
      obtain ⟨m, hm⟩ := Option.isSome_iff_exists.1 (List.isSome_min?_of_ne_nil hne)
      exact ⟨m, hm, h m hm⟩

/-- Two thresholds decide alike exactly when the lowest confidence does not lie between them. -/
theorem decision_eq_iff : (evaluateExtraction e t').decision = (evaluateExtraction e t).decision ↔ ¬ e.Splits t t' := by
  rw [Decision.eq_iff, decision_iff, decision_iff, confident_iff, confident_iff, InvoiceExtraction.Splits]
  cases (e.confidence.map Prod.snd).min? with
  | none => simp
  | some m =>
    simp only [Option.some.injEq, forall_eq', exists_eq_left']
    rcases le_total t t' with h | h
    · rw [min_eq_left h, max_eq_right h]
      grind
    · rw [min_eq_right h, max_eq_left h]
      grind

end Decision

namespace Pipeline
open Process Database Table

/-- The program returns `v`. -/
def Returns (p : Providers) (v : JobResult) (program : Proc JobResult) (w : World) : Prop :=
  (program.exec p.answer w).1 = .ok v

section Worker
variable {job : JobData} {p : Providers} {w : World} {r : Record} {v : JobResult}

theorem Returns.of_exec {program next : Proc JobResult} {w' : World} (he : program.exec p.answer w = next.exec p.answer w')
    (h : Returns p v next w') : Returns p v program w := (congrArg Prod.fst he).trans h

theorem Returns.update {set : DocumentsSet} {f : Unit → Proc JobResult} (hw : w.Holds job r)
    (h : ∀ w', w'.Holds job (r.set set) → Returns p v (f ()) w') :
    Returns p v (transaction (.updateDocument job.tenantId job.documentId set) >>= f) w := by
  obtain ⟨_, w', he, hw'⟩ := exec_sure (.updateDocument job.tenantId job.documentId set) f hw trivial rfl rfl
  exact .of_exec he (h w' hw')

theorem Returns.audit {event : AuditEvent} {prev new : DocumentStatus} {payload : AuditPayload} {f : Unit → Proc JobResult}
    (hw : w.Holds job r) (h : ∀ w' r', w'.Holds job r' → Returns p v (f ()) w') :
    Returns p v (workerAudit job event prev new payload >>= f) w := by
  obtain ⟨_, w', he, hw'⟩ := exec_sure (.writeAuditLog job.tenantId {
    documentId := job.documentId, event := event, prevStatus := some prev
    newStatus := some new, payload := some payload }) f hw ⟨rfl, rfl, r, rfl, hw.tenant.symm⟩ rfl rfl
  exact .of_exec he (h w' _ hw')

theorem applyDecision_returns {tenant : Option TenantRow} {threshold : ℚ} {result : ExtractionResult} (hw : w.Holds job r) :
    Returns p (.decided (evaluateExtraction result.extraction threshold)) (applyDecision job tenant threshold result) w := by
  unfold applyDecision
  dsimp only
  split
  · refine Returns.update hw fun w hw => Returns.audit hw fun w _ hw => Returns.audit hw fun w _ hw => ?_
    unfold enqueueWebhook
    split <;> rfl
  · exact Returns.update hw fun w hw => Returns.audit hw fun w _ hw => Returns.audit hw fun w _ hw => rfl

theorem classifyAndExtract_returns {rawText : String} {tenant : Option TenantRow} {threshold : ℚ} {c : ClassificationResult}
    {result : ExtractionResult} (hw : w.Holds job r) (hc : p.classify = .ok c) (hknown : c.docType ≠ .unknown)
    (hresult : p.extract = .ok result) :
    Returns p (.decided (evaluateExtraction result.extraction threshold)) (classifyAndExtract job rawText tenant threshold) w := by
  have hclassify : (perform (.classifyDocument rawText job.documentId)).exec p.answer w = (.ok c, w) :=
    (Program.exec_perform _ _ _).trans (Prod.ext hc rfl)
  refine Returns.of_exec (Program.exec_bind_of_ok _ hclassify) ?_
  rw [if_neg hknown]
  refine Returns.update hw fun w hw => ?_
  have hextract : (perform (.extractInvoice rawText job.documentId)).exec p.answer w = (.ok result, w) :=
    (Program.exec_perform _ _ _).trans (Prod.ext hresult rfl)
  refine Returns.of_exec (Program.exec_bind_of_ok _ hextract) ?_
  obtain ⟨_, w', he, hw'⟩ := exec_sure (.insertExtraction job.tenantId (extractionRow job.documentId result))
    (fun _ => applyDecision job tenant threshold result) hw ⟨rfl, _, rfl, hw.tenant.symm⟩ rfl rfl
  exact .of_exec he (applyDecision_returns hw')

theorem Returns.tryCatch {body : Proc JobResult} {handler : Failure → Proc JobResult} (h : Returns p v body w) :
    Returns p v (MonadExcept.tryCatch body handler) w := by
  have hexec : body.exec p.answer w = (.ok v, (body.exec p.answer w).2) := Prod.ext h rfl
  exact congrArg Prod.fst (Program.exec_tryCatch_of_ok p.answer hexec)

/-- A worker whose providers answer decides with the threshold of the tenant's row. -/
theorem extract_decides {c : ClassificationResult} {result : ExtractionResult} (hw : w.Holds job r) (hp : ¬ Processed r)
    (htext : hasText r) (hc : p.classify = .ok c) (hknown : c.docType ≠ .unknown) (hresult : p.extract = .ok result) :
    (extract job p w).1 = .ok (.decided (evaluateExtraction result.extraction
      (((lookup TenantRow.id job.tenantId w.db.tenants).map (·.extractionThreshold)).getD (85 / 100)))) := by
  have hfind := @find_exec job p w hw.sound
  rw [hw.visible] at hfind
  refine Returns.of_exec (Program.exec_bind_of_ok _ hfind) ?_
  dsimp only [Option.map_some]
  rw [Processed] at hp
  rw [if_neg hp]
  obtain ⟨rawText, hraw⟩ := Option.isSome_iff_exists.1 htext
  rw [hraw]
  dsimp only
  have htenant : (transaction (.findTenant job.tenantId)).exec p.answer w =
      (.ok (lookup TenantRow.id job.tenantId w.db.tenants), w) := by
    rw [transaction_exec, findTenant_run]
  refine Returns.of_exec (Program.exec_bind_of_ok _ htenant) (Returns.update hw fun w hw => ?_)
  exact (classifyAndExtract_returns hw hc hknown hresult).tryCatch

end Worker

section Tenant
variable {p : Providers} {w : World} {tenantId : Uuid} {row : TenantRow} {set : TenantsSet} {params : TenantUpdate}

theorem getTenantConfig_exec (h : lookup TenantRow.id tenantId w.db.tenants = some row) :
    (getTenantConfig tenantId).exec p.answer w = (.ok {
      id := row.id, name := row.name, slug := row.slug, extractionThreshold := row.extractionThreshold
      webhookUrl := row.webhookUrl, webhookSecretConfigured := row.webhookSecret.isSome }, w) := by
  have hfind : (transaction (.findTenant tenantId)).exec p.answer w = (.ok (some row), w) := by
    rw [transaction_exec, findTenant_run, h]
  exact Program.exec_bind_of_ok _ hfind

theorem updateTenant_run (db : Db) (hset : set ≠ {}) : ((Tx.updateTenant tenantId set).run true db).1 =
    .ok ((lookup TenantRow.id tenantId db.tenants).map set.apply) := by
  have hbody : (Tx.updateTenant tenantId set).body = (updateTenantTx tenantId set) := rfl
  rw [Tx.run, hbody, updateTenantTx, if_neg hset, ← select_tenant, ← List.head?_map]
  rfl

/-- The tenant's row after an update of its configuration. -/
theorem updateTenantConfig_exec (hset : params.updates ≠ {}) (h : lookup TenantRow.id tenantId w.db.tenants = some row) :
    ∃ w', (updateTenantConfig tenantId params).exec p.answer w = (getTenantConfig tenantId).exec p.answer w' ∧
      lookup TenantRow.id tenantId w'.db.tenants = some (params.updates.apply row) := by
  have hid : ∀ r : TenantRow, (if r.id = tenantId then params.updates.apply r else r).id = r.id := by
    intro r
    split <;> rfl
  refine ⟨{ w with db := ((Tx.updateTenant tenantId params.updates).run true w.db).2 }, ?_, ?_⟩
  · have hrun : (transaction (.updateTenant tenantId params.updates)).exec p.answer w =
        (.ok (some (params.updates.apply row)), { w with db := ((Tx.updateTenant tenantId params.updates).run true w.db).2 }) := by
      rw [transaction_exec, updateTenant_run _ hset, h]
      rfl
    exact Program.exec_bind_of_ok _ hrun
  · rw [updateTenant_tenants, lookup_map hid, h, Option.map_some, if_pos (key_of_lookup h)]

/-- What becomes of the threshold `t` that an update of the configuration takes from `w` to `w'`. -/
structure StoredThreshold (tenantId : Uuid) (t : ℚ) (result : Except Failure TenantConfig) (w' : World) : Prop where
  /-- The column holds the rounded number, and both calls report it. -/
  reported : ∃ config, result = .ok config ∧ config.extractionThreshold = toFixed2 t ∧
    ∀ p : Providers, (getTenantConfig tenantId).exec p.answer w' = (.ok config, w')
  representable : isNumeric 3 2 (toFixed2 t)
  close : |toFixed2 t - t| ≤ 1 / 200
  kept : toFixed2 t = t ↔ IsCents t
  /-- As long as the tenants are as the update has left them, the worker decides with the rounded number. -/
  used : ∀ (job : JobData) (p : Providers) (v : World) (r : Record) (c : ClassificationResult) (x : ExtractionResult),
    job.tenantId = tenantId → v.db.tenants = w'.db.tenants → v.Holds job r → ¬ Processed r → hasText r →
    p.classify = .ok c → c.docType ≠ .unknown → p.extract = .ok x →
    (extract job p v).1 = .ok (.decided (evaluateExtraction x.extraction (toFixed2 t)))
  /-- This decides as `t` would, unless the lowest confidence lies between the two. -/
  decides : ∀ e, (evaluateExtraction e (toFixed2 t)).decision = (evaluateExtraction e t).decision ↔ ¬ e.Splits t (toFixed2 t)

theorem toFixed2_numeric {t : ℚ} (h : Validators.isScore t) : isNumeric 3 2 (toFixed2 t) := by
  obtain ⟨hzero, hone⟩ : 0 ≤ t ∧ t ≤ 1 := by simpa [Validators.isScore] using h
  have hlow : 0 ≤ roundHalfAway (t * 10 ^ 2) := le_roundHalfAway (by push_cast; linarith)
  have hhigh : roundHalfAway (t * 10 ^ 2) ≤ 100 := roundHalfAway_le (by push_cast; linarith)
  rw [isNumeric_toFixed2, isNumeric, decide_eq_true_iff]
  omega

/-- A threshold is stored, reported and used as its nearest number of hundredths. -/
theorem threshold_stored (p : Providers) (w : World) (t : ℚ) (hparams : params.extractionThreshold = some t)
    (ht : Validators.isScore t) (hrow : lookup TenantRow.id tenantId w.db.tenants = some row) :
    StoredThreshold tenantId t ((updateTenantConfig tenantId params).exec p.answer w).1
      ((updateTenantConfig tenantId params).exec p.answer w).2 := by
  have hset : params.updates ≠ {} := by
    intro h
    have hthreshold := congrArg TenantsSet.extractionThreshold h
    rw [TenantUpdate.updates, hparams] at hthreshold
    cases hthreshold
  have hstored : (params.updates.apply row).extractionThreshold = toFixed2 t := by
    rw [TenantsSet.apply, TenantUpdate.updates, hparams]
    rfl
  obtain ⟨w', hexec, hrow'⟩ := updateTenantConfig_exec (p := p) hset hrow
  have hreport := fun p : Providers => getTenantConfig_exec (p := p) hrow'
  rw [hexec, hreport p]
  refine ⟨⟨_, rfl, hstored, hreport⟩, toFixed2_numeric ht, abs_toFixed2_sub_le t, toFixed2_eq_iff, ?_, fun e => decision_eq_iff⟩
  rintro job q v r c x rfl htenants hw hp htext hc hknown hx
  rw [extract_decides hw hp htext hc hknown hx, htenants, hrow']
  exact congrArg (fun threshold => Except.ok (JobResult.decided (evaluateExtraction x.extraction threshold))) hstored

end Tenant

section Demo

/-- Document 3 waits for its extraction. -/
private def waitingWorld : World where
  db := { tenants := [⟨1, "Acme", "acme", 85 / 100, none, none⟩]
          users := [⟨2, 1, "alice@acme.test", "hash", .admin⟩]
          documents := [⟨3, 1, 2, "1/3", "a.pdf", "application/pdf", .extracted, none, some "text", 0⟩]
          documentsExtraction := [], documentAuditLog := [], webhookDeliveries := [], now := 0 }
  jobs _ := none
  serial := 0

private def waitingJob : JobData := { documentId := 3, tenantId := 1 }

private def narrowInvoice : InvoiceExtraction :=
  { (demoResult 10 1).extraction with confidence := Validators.uniformConfidence (852 / 1000) }

private def narrow : Providers := ⟨.ok ⟨.invoice, 1⟩, .ok ⟨narrowInvoice, "claude-sonnet-5", 10, 10⟩⟩

private def narrowThreshold : TenantUpdate := { extractionThreshold := some (854 / 1000) }

/-- The document is approved below the threshold that the admin has set. -/
theorem threshold_rounded_down : Validators.isScore (854 / 1000) ∧ Validators.invoiceExtractionSchema narrowInvoice ∧
    ((updateTenantConfig 1 narrowThreshold).exec narrow.answer waitingWorld).1 =
      .ok ⟨1, "Acme", "acme", 85 / 100, none, false⟩ ∧
    (extract waitingJob narrow ((updateTenantConfig 1 narrowThreshold).exec narrow.answer waitingWorld).2).1 =
      .ok (.decided (evaluateExtraction narrowInvoice (85 / 100))) ∧
    (evaluateExtraction narrowInvoice (85 / 100)).decision = .autoApprove ∧
    (evaluateExtraction narrowInvoice (854 / 1000)).decision = .routeToReview := by
  refine ⟨by decide +kernel, Validators.uniform_accepted (by decide +kernel), ?_⟩
  decide +kernel

theorem threshold_stored_one_third :
    StoredThreshold 1 (1 / 3) ((updateTenantConfig 1 { extractionThreshold := some (1 / 3) }).exec narrow.answer waitingWorld).1
      ((updateTenantConfig 1 { extractionThreshold := some (1 / 3) }).exec narrow.answer waitingWorld).2 :=
  threshold_stored narrow waitingWorld (1 / 3) rfl (by decide +kernel) rfl

end Demo
end Pipeline
end DocAuto
