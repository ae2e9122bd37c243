import DocAuto.Pipeline.Completion

/-! An extraction job that is run again after it has finished: the database and the queues work,
the providers answer whatever they like, and reviewers act on the document in between. -/
namespace DocAuto.Pipeline
open Process Database Table

/-- The answers of the providers during one execution. -/
structure Providers where
  classify : Except Failure ClassificationResult
  extract : Except Failure ExtractionResult

def Providers.answer (p : Providers) : (c : Cmd) → World → Except Failure c.Resp × World
  | .classifyDocument _ _, w => (p.classify, w)
  | .extractInvoice _ _, w => (p.extract, w)
  | c, w => (c.exec .execute w).getD (.error (.other "unanswered"), w)

/-- The classifier names a type other than `unknown`. -/
def Providers.Recognizes (p : Providers) : Prop := ∃ c, p.classify = .ok c ∧ c.docType ≠ .unknown

/-- One execution of the extraction processor. -/
def extract (job : JobData) (p : Providers) (w : World) : Except Failure JobResult × World :=
  (extractionProcessor job).exec p.answer w

def World.setNow (w : World) (now : Timestamp) : World := { w with db := { w.db with now := now } }

/-- A review operation at some time, any of whose calls may throw. -/
structure TimedReview where
  call : ReviewCall
  faults : Nat → Option Failure
  now : Timestamp

def TimedReview.run (review : TimedReview) (w : World) : World := (review.call.run review.faults (w.setNow review.now)).2

def ReviewCall.Reprocesses : ReviewCall → Prop
  | reprocess _ _ _ _ => True
  | _ => False

/-- Review operations one after the other. -/
def reviewAll (reviews : List TimedReview) (w : World) : World := reviews.foldl (fun w review => review.run w) w

/-- The status, the type, the extraction and the audit log of the document, and the webhook queue. -/
def Unchanged (d : Uuid) (w w' : World) : Prop :=
  (w'.db.record d).map (fun r => (r.row.status, r.row.docType, r.extraction, r.audit)) =
      (w.db.record d).map (fun r => (r.row.status, r.row.docType, r.extraction, r.audit)) ∧
    ∀ n, w'.jobs (.webhook n) = w.jobs (.webhook n)

/-- The record of the job's document, as its tenant sees it. -/
def World.visible (w : World) (job : JobData) : Option Record :=
  (w.db.record job.documentId).filter (·.row.tenantId == job.tenantId)

/-- The state the processor takes for a duplicate job. -/
def Processed (r : Record) : Prop :=
  r.extraction.isSome ∧ (r.row.status = .approved ∨ r.row.status = .pendingReview)

def hasText (r : Record) : Bool := (r.row.rawText.filter fun t => !isBlank t).isSome

/-- The execution finds the document processed, or it finds text and leaves an extraction. -/
def Resolved (p : Providers) (r : Record) : Prop :=
  Processed r ∨ hasText r ∧ (r.extraction.isSome ∨ p.Recognizes)

/-- Rows that satisfy their constraints, with the record `r` of the job's document. -/
structure World.Holds (w : World) (job : JobData) (r : Record) : Prop where
  sound : w.db.Sound
  record : w.db.record job.documentId = some r
  tenant : r.row.tenantId = job.tenantId

/-- The program leaves at least `n` audit rows, and when it returns, at least `m` and a record in `Q`. -/
def Ends (p : Providers) (job : JobData) (n m : Nat) (Q : Record → Prop) (program : Proc JobResult) (w : World) : Prop :=
  ∃ r, (program.exec p.answer w).2.Holds job r ∧ n ≤ r.audit.length ∧
    ((program.exec p.answer w).1.isOk → m ≤ r.audit.length ∧ Q r)

section Execution
variable {job : JobData} {p : Providers} {w : World} {r : Record} {n m : Nat} {Q : Record → Prop} {α : Type}

theorem transaction_exec (x : Tx) : (transaction x).exec p.answer w =
    ((x.run true w.db).1, { w with db := (x.run true w.db).2 }) := Program.exec_perform _ _ _

/-- A transaction that nothing can stop. -/
theorem exec_sure (x : Tx) (f : x.Result → Proc α) (hw : w.Holds job r) (hx : x.sure job.documentId (some r))
    (hd : x.documentId = some job.documentId) (ht : x.tenantId = job.tenantId) :
    ∃ a w', (transaction x >>= f).exec p.answer w = (f a).exec p.answer w' ∧ w'.Holds job (x.commit w.db.now r) := by
  have hout := @Tx.run_outcome w.db job.documentId hw.sound x
  have hsound := Tx.run_sound true x hw.sound
  rw [hw.record] at hout
  rcases hrun : x.run true w.db with ⟨e | a, db'⟩
  · rw [hrun] at hout
    exact absurd hx hout.2
  · rw [hrun] at hout hsound
    have hexec : (transaction x).exec p.answer w = (.ok a, { w with db := db' }) := by
      rw [transaction_exec, hrun]
    refine ⟨a, _, Program.exec_bind_of_ok _ hexec, hsound, ?_, ?_⟩
    · exact hout.1.trans (Tx.after_own hd (ht.trans hw.tenant.symm))
    · refine Eq.trans ?_ hw.tenant
      cases x <;> rfl

theorem Ends.of_exec {program next : Proc JobResult} {w' : World}
    (he : program.exec p.answer w = next.exec p.answer w') (h : Ends p job n m Q next w') : Ends p job n m Q program w := by
  unfold Ends
  rw [he]
  exact h

theorem Ends.returned {v : JobResult} (hw : w.Holds job r) (hn : n ≤ r.audit.length) (hm : m ≤ r.audit.length)
    (hq : Q r) : Ends p job n m Q (.ret v) w := ⟨r, hw, hn, fun _ => ⟨hm, hq⟩⟩

theorem Ends.thrown {e : Failure} (hw : w.Holds job r) (hn : n ≤ r.audit.length) : Ends p job n m Q (.throw e) w := by
  refine ⟨r, hw, hn, fun h => ?_⟩
  cases h

/-- A transaction that nothing can stop. -/
theorem Ends.sure (x : Tx) {f : x.Result → Proc JobResult} (hw : w.Holds job r) (hx : x.sure job.documentId (some r))
    (hd : x.documentId = some job.documentId) (ht : x.tenantId = job.tenantId)
    (h : ∀ a w', w'.Holds job (x.commit w.db.now r) → Ends p job n m Q (f a) w') :
    Ends p job n m Q (transaction x >>= f) w := by
  obtain ⟨a, w', he, hw'⟩ := exec_sure x f hw hx hd ht
  exact .of_exec he (h a w' hw')

theorem Ends.update {set : DocumentsSet} {f : Unit → Proc JobResult} (hw : w.Holds job r)
    (h : ∀ w', w'.Holds job (r.set set) → Ends p job n m Q (f ()) w') :
    Ends p job n m Q (transaction (.updateDocument job.tenantId job.documentId set) >>= f) w :=
  .sure (.updateDocument job.tenantId job.documentId set) hw trivial rfl rfl fun _ => h

theorem Ends.audit {event : AuditEvent} {prev new : DocumentStatus} {payload : AuditPayload} {f : Unit → Proc JobResult}
    (hw : w.Holds job r) (h : ∀ w' row, w'.Holds job { r with audit := r.audit ++ [row] } → Ends p job n m Q (f ()) w') :
    Ends p job n m Q (workerAudit job event prev new payload >>= f) w := by
  refine .sure (.writeAuditLog job.tenantId {
    documentId := job.documentId, event := event, prevStatus := some prev
    newStatus := some new, payload := some payload }) hw ⟨rfl, rfl, r, rfl, hw.tenant.symm⟩ rfl rfl ?_
  exact fun _ w' hw' => h w' _ hw'

/-- A provider answers or throws. -/
theorem Ends.ask {c : Cmd} {result : Except Failure c.Resp} {f : c.Resp → Proc JobResult} (hw : w.Holds job r)
    (hn : n ≤ r.audit.length) (hc : p.answer c w = (result, w)) (h : ∀ a, result = .ok a → Ends p job n m Q (f a) w) :
    Ends p job n m Q (perform c >>= f) w := by
  have hexec := (Program.exec_perform p.answer c w).trans hc
  cases result with
  | error e =>
    have hthrow : (perform c >>= f).exec p.answer w = (Program.throw e : Proc JobResult).exec p.answer w :=
      Program.exec_bind_of_error _ hexec
    exact .of_exec hthrow (.thrown hw hn)
  | ok a => exact .of_exec (Program.exec_bind_of_ok _ hexec) (h a rfl)

/-- Enqueueing a webhook job leaves the rows alone. -/
theorem Ends.enqueue {tenant : Option TenantRow} {f : Unit → Proc JobResult} (hw : w.Holds job r)
    (h : ∀ w', w'.Holds job r → Ends p job n m Q (f ()) w') : Ends p job n m Q (enqueueWebhook job tenant >>= f) w := by
  unfold enqueueWebhook
  split
  · have hexec : (perform (.webhookQueueAdd job.documentId job.tenantId)).exec p.answer w = (.ok (), _) :=
      Program.exec_perform _ _ _
    refine .of_exec (Program.exec_bind_of_ok _ hexec) (h _ ?_)
    have hdb := w.add_db (.webhook w.serial) { documentId := job.documentId, tenantId := job.tenantId }
    exact ⟨hdb ▸ hw.sound, hdb ▸ hw.record, hw.tenant⟩
  · exact h w hw

/-- A decided document is approved or waits for review, and its extraction is stored. -/
theorem applyDecision_ends {tenant : Option TenantRow} {threshold : ℚ} {result : ExtractionResult} (hw : w.Holds job r)
    (hn : n ≤ r.audit.length)
    (hq : ∀ r', (r'.row.status = .approved ∨ r'.row.status = .pendingReview) → r'.extraction = r.extraction → Q r') :
    Ends p job n (n + 1) Q (applyDecision job tenant threshold result) w := by
  unfold applyDecision
  dsimp only
  split
  · refine Ends.update hw fun w hw => Ends.audit hw fun w _ hw => Ends.audit hw fun w _ hw => Ends.enqueue hw fun w hw => ?_
    refine .returned hw ?_ ?_ (hq _ (.inl rfl) rfl)
    · simp only [Record.set, List.length_append, List.length_singleton]
      omega
    · simp only [Record.set, List.length_append, List.length_singleton]
      omega
  · refine Ends.update hw fun w hw => Ends.audit hw fun w _ hw => Ends.audit hw fun w _ hw => ?_
    refine .returned hw ?_ ?_ (hq _ (.inr rfl) rfl)
    · simp only [Record.set, List.length_append, List.length_singleton]
      omega
    · simp only [Record.set, List.length_append, List.length_singleton]
      omega

/-- What a finished execution has made of a document with text. -/
def Landed (p : Providers) (r r' : Record) : Prop :=
  (r'.row.status = .approved ∨ r'.row.status = .pendingReview) ∧
    (r'.extraction.isSome ↔ r.extraction.isSome ∨ p.Recognizes)

theorem classifyAndExtract_ends {rawText : String} {tenant : Option TenantRow} {threshold : ℚ} (hw : w.Holds job r) :
    Ends p job r.audit.length (r.audit.length + 1) (Landed p r) (classifyAndExtract job rawText tenant threshold) w := by
  refine Ends.ask hw (le_refl _) rfl fun c hc => ?_
  split
  · next hunknown =>
    have hnot : ¬ p.Recognizes := by
      rintro ⟨c', hc', hknown⟩
      obtain rfl : c = c' := Except.ok.inj (hc.symm.trans hc')
      exact hknown hunknown
    refine Ends.update hw fun w hw => Ends.audit hw fun w _ hw => ?_
    refine .returned hw ?_ ?_ ⟨.inr rfl, (or_iff_left hnot).symm⟩
    · simp [Record.set]
    · simp [Record.set]
  · next hknown =>
    refine Ends.update hw fun w hw => Ends.ask hw (le_refl _) rfl fun result _ => ?_
    refine Ends.sure (.insertExtraction job.tenantId (extractionRow job.documentId result)) hw
      ⟨rfl, _, rfl, hw.tenant.symm⟩ rfl rfl fun _ w hw => applyDecision_ends hw (le_refl _) fun r' hs he => ⟨hs, ?_⟩
    rw [he]
    refine iff_of_true ?_ (.inr ⟨c, hc, hknown⟩)
    simp [Tx.commit]

/-- An exception is recorded before it is thrown again. -/
theorem Ends.recover {body : Proc JobResult} (h : Ends p job n (n + 1) Q body w) :
    Ends p job (n + 1) (n + 1) Q (tryCatch body fun err => do
      setStatus job .failed
      workerAudit job .extracted .extracting .failed (.error (message err))
      throw err) w := by
  obtain ⟨r, hw, hn, hok⟩ := h
  rcases hexec : body.exec p.answer w with ⟨e | v, w'⟩
  · rw [hexec] at hw
    refine .of_exec (Program.exec_tryCatch_of_error _ hexec) ?_
    refine Ends.update hw fun w hw => Ends.audit hw fun w _ hw => .thrown hw ?_
    simpa [Record.set] using hn
  · rw [hexec] at hw hok
    obtain ⟨hm, hq⟩ := hok rfl
    have hreturn : Ends p job (n + 1) (n + 1) Q (.ret v) w' := .returned hw hm hm hq
    exact .of_exec (Program.exec_tryCatch_of_ok _ hexec) hreturn

theorem findTenant_ends {f : Option TenantRow → Proc JobResult}
    (h : ∀ a, Ends p job n m Q (f a) w) : Ends p job n m Q (transaction (.findTenant job.tenantId) >>= f) w := by
  have hexec : (transaction (.findTenant job.tenantId)).exec p.answer w =
      (.ok (lookup TenantRow.id job.tenantId w.db.tenants), w) := by
    rw [transaction_exec, findTenant_run]
  exact .of_exec (Program.exec_bind_of_ok _ hexec) (h _)

end Execution

section Guard
variable {job : JobData} {p : Providers} {w : World} {r : Record}

theorem find_exec (hs : w.db.Sound) :
    (transaction (.findDocumentWithExtraction job.tenantId job.documentId)).exec p.answer w =
      (.ok ((w.visible job).map fun r => (r.row, r.extraction)), w) := by
  obtain ⟨-, -, hret⟩ := @Tx.run_outcome w.db job.documentId hs (.findDocumentWithExtraction job.tenantId job.documentId)
  exact (transaction_exec _).trans (Prod.ext (congrArg Except.ok (hret rfl)) rfl)

theorem extract_invisible (hs : w.db.Sound) (h : w.visible job = none) : extract job p w = (.ok (.skipped none), w) := by
  have hfind := @find_exec job p w hs
  rw [h] at hfind
  exact Program.exec_bind_of_ok _ hfind

theorem World.Holds.visible (hw : w.Holds job r) : w.visible job = some r := by
  rw [World.visible, hw.record, Option.filter_some, if_pos (beq_iff_eq.2 hw.tenant)]

/-- The guard skips a processed document. -/
theorem extract_processed (hw : w.Holds job r) (h : Processed r) :
    extract job p w = (.ok (.skipped (some "already_processed")), w) := by
  have hfind := @find_exec job p w hw.sound
  rw [hw.visible] at hfind
  refine (Program.exec_bind_of_ok _ hfind).trans ?_
  dsimp only [Option.map_some]
  rw [Processed] at h
  rw [if_pos h]
  rfl

/-- Past the guard every execution leaves an audit row. -/
theorem extract_ends (hw : w.Holds job r) (h : ¬ Processed r) :
    Ends p job (r.audit.length + 1) (r.audit.length + 1)
      (fun r' => if hasText r then Landed p r r' else r'.row.status = .failed) (extractionProcessor job) w := by
  have hfind := @find_exec job p w hw.sound
  rw [hw.visible] at hfind
  refine .of_exec (Program.exec_bind_of_ok _ hfind) ?_
  dsimp only [Option.map_some]
  rw [Processed] at h
  rw [if_neg h]
  unfold hasText
  cases r.row.rawText.filter fun t => !isBlank t with
  | none =>
    refine Ends.update hw fun w hw => Ends.audit hw fun w _ hw => .returned hw ?_ ?_ rfl
    · simp [Record.set]
    · simp [Record.set]
  | some rawText =>
    refine findTenant_ends fun tenant => Ends.update hw fun w hw => Ends.recover ?_
    exact classifyAndExtract_ends (r := r.set { status := some .extracting }) hw

end Guard

section Review
variable {w w' w'' : World} {r r' r'' : Record} {d : Uuid}

/-- Reviews other than a reprocess decide on a document that waits for them, and keep its extraction. -/
structure Reviewed (r r' : Record) : Prop where
  tenant : r'.row.tenantId = r.row.tenantId
  extraction : r'.extraction.isSome = r.extraction.isSome
  status : r'.row.status = r.row.status ∨
    r.row.status = .pendingReview ∧ (r'.row.status = .approved ∨ r'.row.status = .rejected)

theorem Reviewed.refl (r : Record) : Reviewed r r := ⟨rfl, rfl, .inl rfl⟩

theorem Reviewed.trans (h : Reviewed r r') (h' : Reviewed r' r'') : Reviewed r r'' := by
  refine ⟨h'.tenant.trans h.tenant, h'.extraction.trans h.extraction, ?_⟩
  rcases h'.status with heq | ⟨hpending, hdecided⟩
  · rw [heq]
    exact h.status
  · rcases h.status with heq | ⟨-, happroved | hrejected⟩
    · exact .inr ⟨heq.symm.trans hpending, hdecided⟩
    · cases happroved.symm.trans hpending
    · cases hrejected.symm.trans hpending

theorem Reviewed.status_iff (h : Reviewed r r') (hs : r.row.status = .approved ∨ r.row.status = .pendingReview) :
    (r'.row.status = .approved ∨ r'.row.status = .pendingReview) ↔ r'.row.status ≠ .rejected := by
  rcases h.status with heq | ⟨-, heq | heq⟩
  · rw [heq]
    rcases hs with hs | hs <;> simp [hs]
  · simp [heq]
  · simp [heq]

theorem ReviewCall.outcome_reviewed {call : ReviewCall} (hc : ¬ call.Reprocesses) (hs : r.row.status ∈ call.expects)
    (audit : List AuditRow) : Reviewed r ⟨(call.outcome r).1, (call.outcome r).2, audit⟩ := by
  cases call with
  | approve t d a => exact ⟨rfl, rfl, .inr ⟨List.mem_singleton.1 hs, .inl rfl⟩⟩
  | reject t d a reason => exact ⟨rfl, rfl, .inr ⟨List.mem_singleton.1 hs, .inr rfl⟩⟩
  | edit t d a changes => exact ⟨rfl, Option.isSome_map, .inl rfl⟩
  | reprocess t d a run => exact absurd trivial hc

/-- The rows keep their constraints, and the document is at most reviewed. -/
structure KeptInReview (d : Uuid) (w w' : World) : Prop where
  sound : w'.db.Sound
  absent : w.db.record d = none → w'.db.record d = none
  reviewed : ∀ r, w.db.record d = some r → ∃ r', w'.db.record d = some r' ∧ Reviewed r r'

theorem KeptInReview.of_record (hs : w'.db.Sound) (h : w'.db.record d = w.db.record d) : KeptInReview d w w' :=
  ⟨hs, h.trans, fun r hr => ⟨r, h.trans hr, .refl r⟩⟩

theorem KeptInReview.trans (h : KeptInReview d w w') (h' : KeptInReview d w' w'') : KeptInReview d w w'' := by
  refine ⟨h'.sound, fun hn => h'.absent (h.absent hn), fun r hr => ?_⟩
  obtain ⟨r', hr', hrel⟩ := h.reviewed r hr
  obtain ⟨r'', hr'', hrel'⟩ := h'.reviewed r' hr'
  exact ⟨r'', hr'', hrel.trans hrel'⟩

theorem TimedReview.run_kept {review : TimedReview} (hc : ¬ review.call.Reprocesses) (hs : w.db.Sound) :
    KeptInReview d w (review.run w) := by
  have hs : (w.setNow review.now).db.Sound := hs.congr rfl rfl rfl
  rcases review.call.run_db review.faults (w.setNow review.now) with hdb | ⟨x, db', htx, hdb⟩
  · rw [TimedReview.run]
    refine .of_record (hdb ▸ hs) ?_
    rw [hdb]
    rfl
  · have hsound : db'.Sound := by simpa only [htx] using Tx.run_sound true review.call.tx hs
    obtain ⟨⟨r, hr, -, hstatus, hr'⟩, hothers⟩ := ReviewCall.committed hs htx
    rw [TimedReview.run]
    by_cases hd : d = review.call.documentId
    · subst hd
      refine ⟨hdb ▸ hsound, fun hn => ?_, fun r₀ hr₀ => ?_⟩
      · cases hn.symm.trans hr
      · obtain rfl : r₀ = r := Option.some.inj (hr₀.symm.trans hr)
        exact ⟨_, hdb ▸ hr', ReviewCall.outcome_reviewed hc hstatus _⟩
    · exact .of_record (hdb ▸ hsound) (hdb ▸ hothers d hd)

theorem reviewAll_kept {reviews : List TimedReview} (hc : ∀ review ∈ reviews, ¬ review.call.Reprocesses)
    (hs : w.db.Sound) : KeptInReview d w (reviewAll reviews w) := by
  induction reviews generalizing w with
  | nil => exact .of_record hs rfl
  | cons review reviews ih =>
    obtain ⟨hfirst, hrest⟩ := List.forall_mem_cons.1 hc
    have hstep := @TimedReview.run_kept w d review hfirst hs
    exact hstep.trans (ih hrest hstep.sound)

end Review

section Redelivery
variable {job : JobData} {p : Providers} {w w' : World} {r : Record}

/-- A second execution changes nothing exactly when its guard recognises the document. -/
theorem unchanged_iff (hw : w.Holds job r) : Unchanged job.documentId w (extract job p w).2 ↔ Processed r := by
  by_cases h : Processed r
  · rw [extract_processed hw h]
    exact iff_of_true ⟨rfl, fun _ => rfl⟩ h
  · refine iff_of_false ?_ h
    obtain ⟨r', hw', hlonger, -⟩ := extract_ends (p := p) hw h
    rintro ⟨hsame, -⟩
    have hrecord : (extract job p w).2.db.record job.documentId = some r' := hw'.record
    rw [hrecord, hw.record] at hsame
    simp only [Option.map_some, Option.some.injEq, Prod.mk.injEq] at hsame
    have hlen := congrArg List.length hsame.2.2.2
    omega

/-- Once a first execution has returned and the document has been reviewed, the guard recognises it
exactly when it was resolved and has not been rejected. -/
theorem processed_iff {r' r'' : Record} (hw : w.Holds job r) (hok : (extract job p w).1.isOk)
    (hr' : (extract job p w).2.db.record job.documentId = some r') (h : Reviewed r' r'') :
    Processed r'' ↔ Resolved p r ∧ r''.row.status ≠ .rejected := by
  by_cases hp : Processed r
  · rw [extract_processed hw hp, hw.record] at hr'
    obtain rfl : r = r' := Option.some.inj hr'
    obtain ⟨hext, hstatus⟩ := id hp
    rw [Processed, Resolved, h.extraction, h.status_iff hstatus]
    exact and_congr_left' (iff_of_true hext (.inl hp))
  · obtain ⟨r₁, hw', -, hresult⟩ := extract_ends (p := p) hw hp
    obtain rfl : r₁ = r' := Option.some.inj (hw'.record.symm.trans hr')
    obtain ⟨-, hresult⟩ := hresult hok
    rw [Processed, Resolved, or_iff_right hp, h.extraction]
    cases htext : hasText r with
    | true =>
      rw [htext, if_pos rfl] at hresult
      rw [h.status_iff hresult.1, hresult.2]
      simp
    | false =>
      rw [htext, if_neg Bool.false_ne_true] at hresult
      rcases h.status with heq | ⟨hpending, -⟩
      · simp [heq, hresult]
      · cases hpending.symm.trans hresult

theorem World.Holds.of_visible (hs : w.db.Sound) (h : w.visible job = some r) : w.Holds job r := by
  obtain ⟨hr, ht⟩ := Option.filter_eq_some_iff.1 h
  exact ⟨hs, hr, beq_iff_eq.1 ht⟩

theorem extract_holds (hw : w.Holds job r) : ∃ r', (extract job p w).2.Holds job r' := by
  by_cases hp : Processed r
  · rw [extract_processed hw hp]
    exact ⟨r, hw⟩
  · obtain ⟨r', hw', -⟩ := extract_ends (p := p) hw hp
    exact ⟨r', hw'⟩

theorem KeptInReview.invisible (h : KeptInReview job.documentId w w') (hn : w.visible job = none) :
    w'.visible job = none := by
  cases hr : w.db.record job.documentId with
  | none =>
    rw [World.visible, h.absent hr]
    rfl
  | some r =>
    obtain ⟨r', hr', hrel⟩ := h.reviewed r hr
    rw [World.visible, hr, Option.filter_some, ← hrel.tenant] at hn
    rw [World.visible, hr', Option.filter_some]
    split at hn
    · cases hn
    · next hne => rw [if_neg hne]

/-- After a first execution that returned and reviews without a reprocess, running the job again
changes nothing exactly when its tenant does not see the document, or the first execution resolved
it and the reviews have not rejected it. -/
theorem redelivery_unchanged_iff (job : JobData) (first second : Providers) (reviews : List TimedReview) (w : World)
    (now : Timestamp) (hs : w.db.Sound) (hok : (extract job first w).1.isOk)
    (hc : ∀ review ∈ reviews, ¬ review.call.Reprocesses) :
    Unchanged job.documentId ((reviewAll reviews (extract job first w).2).setNow now)
        (extract job second ((reviewAll reviews (extract job first w).2).setNow now)).2 ↔
      ∀ r, w.visible job = some r → Resolved first r ∧
        ((reviewAll reviews (extract job first w).2).db.document job.documentId).map (·.status) ≠ some .rejected := by
  cases hv : w.visible job with
  | none =>
    have hkept := @reviewAll_kept w job.documentId reviews hc hs
    rw [extract_invisible hs hv] at hok ⊢
    have hlater : ((reviewAll reviews w).setNow now).visible job = none := hkept.invisible hv
    have hsound : ((reviewAll reviews w).setNow now).db.Sound := hkept.sound.congr rfl rfl rfl
    rw [extract_invisible hsound hlater]
    refine iff_of_true ⟨rfl, fun _ => rfl⟩ ?_
    rintro _ ⟨⟩
  | some r =>
    have hw := World.Holds.of_visible hs hv
    obtain ⟨r', hw'⟩ := @extract_holds job first w r hw
    have hkept := @reviewAll_kept _ job.documentId reviews hc hw'.sound
    obtain ⟨r'', hr'', hrel⟩ := hkept.reviewed r' hw'.record
    have hw'' : ((reviewAll reviews (extract job first w).2).setNow now).Holds job r'' :=
      ⟨hkept.sound.congr rfl rfl rfl, hr'', hrel.tenant.trans hw'.tenant⟩
    rw [unchanged_iff hw'', processed_iff hw hok hw'.record hrel, Db.document_of_record hr'']
    simp

end Redelivery

section Demo

/-- Document 3 waits for its extraction. -/
private def extractedWorld : World where
  db := { tenants := [⟨1, "Acme", "acme", 85 / 100, none, none⟩]
          users := [⟨2, 1, "alice@acme.test", "hash", .admin⟩]
          documents := [⟨3, 1, 2, "1/3", "a.pdf", "application/pdf", .extracted, none, some "text", 0⟩]
          documentsExtraction := [], documentAuditLog := [], webhookDeliveries := [], now := 0 }
  jobs _ := none
  serial := 0

private def finishedJob : JobData := { documentId := 3, tenantId := 1 }

private def doubtful : Providers := ⟨.ok ⟨.invoice, 1⟩, .ok (demoResult 10 (1 / 2))⟩

private def rejection : TimedReview := ⟨.reject 1 3 2 "wrong vendor", fun _ => none, 1⟩

/-- A rejected document is back in review after the job has been run again. -/
theorem rejection_reopened :
    (extract finishedJob doubtful extractedWorld).1.isOk ∧ ¬ rejection.call.Reprocesses ∧
    ¬ Unchanged 3 (reviewAll [rejection] (extract finishedJob doubtful extractedWorld).2)
      (extract finishedJob doubtful (reviewAll [rejection] (extract finishedJob doubtful extractedWorld).2)).2 ∧
    ((extract finishedJob doubtful (reviewAll [rejection] (extract finishedJob doubtful extractedWorld).2)).2.db.document 3).map
      (·.status) = some .pendingReview := by
  refine ⟨by decide +kernel, id, ?_, by decide +kernel⟩
  rintro ⟨hsame, -⟩
  revert hsame
  decide +kernel

private def correction : TimedReview := ⟨.edit 1 3 2 { invoiceNumber := some "2" }, fun _ => none, 1⟩

private def signOff : TimedReview := ⟨.approve 1 3 2, fun _ => none, 1⟩

/-- A document that has been corrected and approved is not touched again. -/
theorem redelivery_after_approval :
    ((reviewAll [correction, signOff] (extract finishedJob doubtful extractedWorld).2).db.document 3).map (·.status) =
      some .approved ∧
    Unchanged 3 ((reviewAll [correction, signOff] (extract finishedJob doubtful extractedWorld).2).setNow 5)
      (extract finishedJob doubtful
        ((reviewAll [correction, signOff] (extract finishedJob doubtful extractedWorld).2).setNow 5)).2 := by
  have hsound : extractedWorld.db.Sound := by
    refine ⟨?_, ?_, by decide, by decide⟩ <;> unfold Keyed <;> decide
  have happroved : ((reviewAll [correction, signOff] (extract finishedJob doubtful extractedWorld).2).db.document 3).map
      (·.status) = some .approved := by decide +kernel
  refine ⟨happroved, (redelivery_unchanged_iff finishedJob doubtful doubtful [correction, signOff] extractedWorld 5 hsound
    (by decide +kernel) ?_).2 fun r hr => ⟨.inr ⟨?_, .inr ⟨_, rfl, by decide⟩⟩, ?_⟩⟩
  · intro review hreview
    rcases List.mem_pair.1 hreview with rfl | rfl <;> exact id
  · obtain rfl := Option.some.inj (World.Holds.of_visible hsound hr).record
    decide +kernel
  · rw [show finishedJob.documentId = 3 from rfl, happroved]
    decide

end Demo
end DocAuto.Pipeline
