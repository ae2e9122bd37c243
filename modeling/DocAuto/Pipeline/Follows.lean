import DocAuto.Pipeline.Point

/-! The services and the workers follow the control points: at every point the program
issues the command the point names, whatever answers it has received. -/
namespace DocAuto.Pipeline
open Process Database Protocol

/-- How the body of a `try` hands over to what follows it. -/
def handsOver {α : Type} (recover : Failure → Point) (pt : Point) (r : Except Failure α) : Prop :=
  match r with
  | .ok _ => pt = .aside
  | .error e => pt = recover e

private theorem runOcr_follows (job : JobData) (document : DocumentRow) :
    control.wp (handsOver fun _ => .ocr job .recover) (runOcr job document) (.ocr job (.download document)) := by
  refine wp_step rfl (fun _ _ => rfl) fun buffer _ => ?_
  refine wp_step rfl (fun _ _ => rfl) fun ocr _ => ?_
  refine wp_step rfl (fun _ _ => rfl) fun _ _ => ?_
  refine wp_step rfl (fun _ _ => rfl) fun _ _ => ?_
  exact wp_step rfl (fun _ _ => rfl) fun _ _ => rfl

private theorem void_follows {α : Type} {p : Proc α} {pt : Point} (h : control.wp Point.ends p pt) :
    control.wp Point.ends p.void pt := by
  refine (wp_bind _ _ _).2 (wp_mono ?_ h)
  rintro pt (e | a) (h | ⟨h, e, he⟩)
  · exact .inl h
  · exact .inr ⟨h, _, rfl⟩
  · exact .inl h
  · cases he

private theorem ocr_follows (job : JobData) : control.wp Point.ends (ocrProcessor job) (.ocr job .read) := by
  refine wp_step rfl (fun _ _ => .inr ⟨rfl, _, rfl⟩) fun document _ => ?_
  cases document with
  | none => exact .inl rfl
  | some document =>
    refine wp_step rfl (fun _ _ => .inr ⟨rfl, _, rfl⟩) fun _ _ => ?_
    refine (wp_tryCatch _ _ _).2 (wp_mono ?_ (runOcr_follows job document))
    rintro pt (e | r) rfl
    · exact wp_step rfl (fun _ _ => .inr ⟨rfl, _, rfl⟩) fun _ _ => .inl rfl
    · exact .inl rfl

private theorem enqueueWebhook_follows {job : JobData} {tenant : Option TenantRow} {r : ExtractionResult} {pt : Point}
    (h : pt = if truthy (tenant.bind (·.webhookUrl)) then .extraction job (.notify r) else .aside) :
    control.wp (handsOver fun e => .extraction job (.recover e)) (enqueueWebhook job tenant) pt := by
  subst h
  unfold enqueueWebhook
  split
  · exact wp_step rfl (fun _ _ => rfl) fun _ _ => rfl
  · exact rfl

private theorem applyDecision_follows (job : JobData) (tenant : Option TenantRow) (r : ExtractionResult) :
    control.wp (handsOver fun e => .extraction job (.recover e)) (applyDecision job tenant (threshold tenant) r)
      (.extraction job (.decide tenant r)) := by
  simp only [applyDecision]
  split
  · next hd =>
    have hd : (decision tenant r).decision = .autoApprove := hd
    refine wp_step (show _ = ExtractionPoint.command job (.decide tenant r) by
      simp only [ExtractionPoint.command, decided, if_pos hd]) (fun _ _ => rfl) fun _ _ => ?_
    refine wp_step (show _ = ExtractionPoint.command job (.report tenant r) by
      simp only [ExtractionPoint.command, decided, if_pos hd]; rfl) (fun _ _ => rfl) fun _ _ => ?_
    refine wp_step (show _ = ExtractionPoint.command job (.conclude tenant r) by
      simp only [ExtractionPoint.command, concludeRow, if_pos hd]; rfl) (fun _ _ => rfl) fun _ _ => ?_
    show control.wp _ (enqueueWebhook job tenant >>= fun _ => pure _) (if _ then _ else _)
    refine (wp_bind _ _ _).2 (wp_mono ?_ (enqueueWebhook_follows (if_congr (and_iff_right hd) rfl rfl)))
    rintro pt (e | u) h <;> exact h
  · next hd =>
    have hd : ¬ (decision tenant r).decision = .autoApprove := hd
    refine wp_step (show _ = ExtractionPoint.command job (.decide tenant r) by
      simp only [ExtractionPoint.command, decided, if_neg hd]) (fun _ _ => rfl) fun _ _ => ?_
    refine wp_step (show _ = ExtractionPoint.command job (.report tenant r) by
      simp only [ExtractionPoint.command, decided, if_neg hd]; rfl) (fun _ _ => rfl) fun _ _ => ?_
    refine wp_step (show _ = ExtractionPoint.command job (.conclude tenant r) by
      simp only [ExtractionPoint.command, concludeRow, if_neg hd]; rfl) (fun _ _ => rfl) fun _ _ => ?_
    exact if_neg fun h => hd h.1

private theorem classifyAndExtract_follows (job : JobData) (rawText : String) (tenant : Option TenantRow) :
    control.wp (handsOver fun e => .extraction job (.recover e))
      (classifyAndExtract job rawText tenant (threshold tenant)) (.extraction job (.classify rawText tenant)) := by
  refine wp_step rfl (fun _ _ => rfl) fun c _ => wp_ite (fun hc => ?_) fun hc => ?_
  · have hn : control.next (.extraction job (.classify rawText tenant)) (.classifyDocument rawText job.documentId)
        (.ok c) = .extraction job (.park c) := if_pos hc
    rw [hn]
    refine wp_step rfl (fun _ _ => rfl) fun _ _ => ?_
    exact wp_step rfl (fun _ _ => rfl) fun _ _ => rfl
  · have hn : control.next (.extraction job (.classify rawText tenant)) (.classifyDocument rawText job.documentId)
        (.ok c) = .extraction job (.setType rawText tenant c.docType) := if_neg hc
    rw [hn]
    refine wp_step rfl (fun _ _ => rfl) fun _ _ => ?_
    refine wp_step rfl (fun _ _ => rfl) fun r _ => ?_
    exact wp_step rfl (fun _ _ => rfl) fun _ _ => applyDecision_follows job tenant r

private theorem extraction_follows (job : JobData) :
    control.wp Point.ends (extractionProcessor job) (.extraction job .read) := by
  refine wp_step rfl (fun _ _ => .inr ⟨rfl, _, rfl⟩) fun found _ => ?_
  rcases found with _ | ⟨document, extraction⟩
  · exact .inl rfl
  have hn : control.next (.extraction job .read) (.tx (.findDocumentWithExtraction job.tenantId job.documentId))
    (.ok (some (document, extraction))) = ExtractionPoint.found job document extraction := rfl
  rw [hn, ExtractionPoint.found]
  refine wp_ite (fun hg => ?_) fun hg => ?_
  · exact .inl (if_pos hg)
  rw [if_neg hg]
  cases document.rawText.filter fun t => !isBlank t with
  | none =>
    refine wp_step rfl (fun _ _ => .inr ⟨rfl, _, rfl⟩) fun _ _ => ?_
    exact wp_step rfl (fun _ _ => .inl rfl) fun _ _ => .inl rfl
  | some rawText =>
    refine wp_step rfl (fun _ _ => .inr ⟨rfl, _, rfl⟩) fun tenant _ => ?_
    refine wp_step rfl (fun _ _ => .inr ⟨rfl, _, rfl⟩) fun _ _ => ?_
    refine (wp_tryCatch _ _ _).2 (wp_mono ?_ (classifyAndExtract_follows job rawText tenant))
    rintro pt (e | r) rfl
    · refine wp_step rfl (fun _ _ => .inr ⟨rfl, _, rfl⟩) fun _ _ => ?_
      exact wp_step rfl (fun _ _ => .inl rfl) fun _ _ => .inl rfl
    · exact .inl rfl

private theorem upload_follows (p : Upload) (id : Uuid) :
    control.wp Point.ends (uploadNewDocument p id) (.upload p id .insert) := by
  refine wp_step rfl (fun _ _ => .inl rfl) fun document hid => ?_
  cases document with
  | none => exact .inl rfl
  | some document =>
    have hid : document.id = id := hid
    subst hid
    have hbody : control.wp (handsOver fun _ => .upload p document.id .recover) (do
        let storageKey ← perform (.uploadDocument p document.id)
        transaction (.updateDocument p.tenantId document.id { storageKey := some storageKey })
        writeAuditLog p.tenantId (uploadRow p document.id)
        perform (.queueAdd { documentId := document.id, tenantId := p.tenantId } (ocrJobId document.id))
        return { document with storageKey := storageKey }) (.upload p document.id .store) := by
      refine wp_step rfl (fun _ _ => rfl) fun storageKey _ => ?_
      refine wp_step rfl (fun _ _ => rfl) fun _ _ => ?_
      refine wp_step rfl (fun _ _ => rfl) fun _ _ => ?_
      exact wp_step rfl (fun _ _ => rfl) fun _ _ => rfl
    refine (wp_tryCatch _ _ _).2 (wp_mono ?_ hbody)
    rintro pt (e | r) rfl
    · exact wp_step rfl (fun _ _ => .inr ⟨rfl, _, rfl⟩) fun _ _ => .inl rfl
    · exact .inl rfl

/-- A program of neutral commands stands aside throughout. -/
def Aside {α : Type} (p : Proc α) : Prop := control.Keeps (· = Point.aside) p

namespace Aside
variable {α : Type}

theorem ends {p : Proc α} (h : Aside p) : control.wp Point.ends p .aside := wp_mono (fun _ _ => .inl) (h _ rfl)

theorem perform {c : Cmd} (h : c.neutral) : Aside (perform c) := by
  refine Keeps.perform ?_
  rintro _ rfl
  exact ⟨h, fun _ _ => rfl⟩

theorem read {t : Tx} (h : t.documentId = none) (hi : ∀ p id, t ≠ .insertDocument p id) :
    Aside (transaction t) := by
  refine perform ?_
  cases t with
  | insertDocument p id => exact absurd rfl (hi p id)
  | writeAuditLog _ _ => cases h
  | _ => exact h

end Aside

private theorem enqueueWebhookIfConfigured_aside (tenantId d : Uuid) : Aside (enqueueWebhookIfConfigured tenantId d) :=
  .bind (Aside.read rfl nofun) fun _ => .ite (Aside.perform trivial) (.ret ())

private theorem deliver_aside (url : String) (payload : WebhookPayload) (secret : String) :
    Aside (deliver url payload secret) :=
  .tryCatch (.bind (Aside.perform trivial) fun _ => .ret _) fun _ => .ret _

private theorem buildPayload_aside (job : JobData) (document : DocumentRow) (extraction : Option ExtractionRow) :
    Aside (buildPayload job document extraction) :=
  .ite (.ret _) (.bind (Aside.read rfl nofun) fun _ => .ret _)

private theorem recordDelivery_aside (job : JobData) (attempt : Nat) (deliveryId : Uuid) (d : Delivery) :
    Aside (recordDelivery job attempt deliveryId d) := by
  refine .bind (Aside.read rfl nofun) fun _ => .ite ?_ ?_
  · exact .bind (Aside.perform ⟨.inl rfl, rfl⟩) fun _ => .ret _
  · exact .bind (Aside.perform ⟨.inr rfl, rfl⟩) fun _ => .ite (.ret _) (.throw _)

private theorem webhook_aside (job : JobData) (deliveryId : Uuid) : Aside (processWebhookJob job deliveryId) := by
  refine .bind (Aside.read rfl nofun) fun found => ?_
  rcases found with ⟨_ | ⟨document, extraction⟩, _ | tenant⟩
  iterate 3 exact .ret _
  dsimp only
  split
  · refine .ite (.ret _) ?_
    refine .bind (Aside.read rfl nofun) fun _ => .bind (buildPayload_aside _ _ _) fun _ => ?_
    exact .bind (Aside.read rfl nofun) fun _ => .bind (deliver_aside _ _ _) fun _ => recordDelivery_aside _ _ _ _
  · exact .ret _

private theorem review_follows {α : Type} {t : Tx} {k : t.Result → Proc α} (hk : ∀ x, Aside (k x)) :
    control.wp Point.ends (transaction t >>= k) (.review t) :=
  wp_step rfl (fun _ _ => .inl rfl) fun x _ => (hk x).ends

private theorem reprocess_follows (tenantId d actorId run : Uuid) :
    control.wp Point.ends (reprocessDocument tenantId d actorId run) (.reset tenantId d actorId run) := by
  refine wp_step rfl (fun _ _ => .inl rfl) fun document _ => ?_
  exact wp_step rfl (fun _ _ => .inr ⟨rfl, _, rfl⟩) fun _ _ => .inl rfl

/-- Every call follows the control points from its start on. -/
theorem call_follows (call : ApiCall) : control.wp Point.ends call.program (Owner.api call).start := by
  cases call with
  | upload p id => exact void_follows (upload_follows p id)
  | list tenantId status page pageSize => exact void_follows (Aside.ends (Aside.read rfl nofun))
  | get tenantId d =>
    refine void_follows (Aside.ends (.bind (Aside.read rfl nofun) fun document => ?_))
    rcases document with _ | ⟨document, extraction⟩
    · exact .throw _
    · exact .bind (Aside.read rfl nofun) fun _ => .ret _
  | fileUrl tenantId d =>
    refine void_follows (Aside.ends (.bind (Aside.read rfl nofun) fun key => ?_))
    cases key with
    | none => exact .throw _
    | some key => exact Aside.perform trivial
  | approve tenantId d actorId =>
    exact void_follows (review_follows fun _ => .bind (enqueueWebhookIfConfigured_aside _ _) fun _ => .ret _)
  | reject tenantId d actorId reason =>
    exact void_follows (review_follows fun _ => .bind (enqueueWebhookIfConfigured_aside _ _) fun _ => .ret _)
  | edit tenantId d actorId changes =>
    exact void_follows (wp_step rfl (fun _ _ => .inl rfl) fun _ _ => .inl rfl)
  | reprocess tenantId d actorId run => exact void_follows (reprocess_follows tenantId d actorId run)
  | getTenant tenantId =>
    refine void_follows (Aside.ends (.bind (Aside.read rfl nofun) fun tenant => ?_))
    cases tenant with
    | none => exact .throw _
    | some tenant => exact .ret _
  | updateTenant tenantId params =>
    refine void_follows (Aside.ends (.bind (Aside.read rfl nofun) fun updated => ?_))
    cases updated with
    | none => exact .throw _
    | some _ =>
      refine .bind (Aside.read rfl nofun) fun tenant => ?_
      cases tenant with
      | none => exact .throw _
      | some tenant => exact .ret _
  | rotateSecret tenantId secret =>
    refine void_follows (Aside.ends (.bind (Aside.read rfl nofun) fun tenant => ?_))
    cases tenant with
    | none => exact .throw _
    | some tenant => exact .ite (.bind (Aside.read rfl nofun) fun _ => .ret _) (.throw _)

/-- Every processor follows the control points from its start on. -/
theorem processor_follows (jobId : JobId) (data : JobData) (draw : Uuid) :
    control.wp Point.ends (processor jobId data draw) (Owner.job jobId data).start := by
  cases jobId with
  | ocr _ _ => exact void_follows (ocr_follows data)
  | extraction _ _ => exact void_follows (extraction_follows data)
  | webhook _ => exact void_follows (webhook_aside data draw).ends

end DocAuto.Pipeline
