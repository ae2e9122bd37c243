import DocAuto.Pipeline.Conduct

/-! Where an execution of the webhook processor stands, and what it does next. -/
namespace DocAuto.Webhook
open Process Database Pipeline Protocol

/-- What the first transaction has read, once the execution goes on with it. -/
structure Subject where
  document : DocumentRow
  extraction : Option ExtractionRow
  url : String
  secret : String
  deriving DecidableEq, Repr

/-- The subject of a delivery, or the reason to skip the job. -/
def subject (found : Option (DocumentRow × Option ExtractionRow)) (tenant : Option TenantRow) : Except String Subject :=
  match found, tenant with
  | some (document, extraction), some tenant =>
    match tenant.webhookUrl.filter (· ≠ ""), tenant.webhookSecret.filter (· ≠ "") with
    | some url, some secret =>
      if document.status ≠ .approved ∧ document.status ≠ .rejected then .error "not_terminal"
      else .ok ⟨document, extraction, url, secret⟩
    | _, _ => .error "not_configured"
  | _, _ => .error "not_found"

/-- A delivery goes on with the row and the extraction it has found. -/
theorem subject_ok {found : Option (DocumentRow × Option ExtractionRow)} {tenant : Option TenantRow}
    {s : Subject} (h : subject found tenant = .ok s) : found = some (s.document, s.extraction) ∧
      (s.document.status = .approved ∨ s.document.status = .rejected) := by
  unfold subject at h
  split at h
  · split at h
    · split at h
      · cases h
      · next hst =>
        obtain rfl := Except.ok.inj h
        exact ⟨rfl, by tauto⟩
    · cases h
  · cases h

/-- `count` to `insert` come before the delivery row exists, `post` and `record` while it is
pending, `report` once its outcome is written. -/
inductive WebhookPoint where
  | read
  | count (s : Subject)
  | reason (s : Subject) (existingAttempts : Nat)
  | insert (s : Subject) (existingAttempts : Nat) (payload : WebhookPayload)
  | post (s : Subject) (attempt : Nat) (payload : WebhookPayload) (deliveryId : Uuid)
  | record (attempt : Nat) (deliveryId : Uuid) (outcome : Delivery)
  | report (attempt : Nat) (outcome : Delivery)
  | ended (result : Except Failure JobResult)

def received (res : FetchResponse) : Delivery :=
  { responseStatus := some res.status
    responseBodyText := some (Text.sliceStart maxResponseBodyChars res.body)
    deliveryError := if res.ok then none else some ("Non-2xx response: " ++ toString res.status) }

def succeeded (outcome : Delivery) : Bool := !truthy outcome.deliveryError

def isFinalAttempt (attempt : Nat) : Bool := decide (webhookMaxAttempts ≤ attempt)

/-- The status the row of an attempt ends with. -/
def verdict (attempt : Nat) (outcome : Delivery) : WebhookStatus :=
  if succeeded outcome then .success else if isFinalAttempt attempt then .deadLetter else .failed

def outcomeSet (attempt : Nat) (outcome : Delivery) : DeliveriesSet :=
  { status := verdict attempt outcome
    responseStatus := outcome.responseStatus
    responseBody := outcome.responseBodyText.or outcome.deliveryError
    delivered := succeeded outcome }

def deliveryRow (job : JobData) (attempt : Nat) (id : Uuid) : DeliveryRow :=
  { id := id, documentId := job.documentId, tenantId := job.tenantId, status := .pending
    attempt := attempt, responseStatus := none, responseBody := none, deliveredAt := none }

def reportRow (job : JobData) (attempt : Nat) (outcome : Delivery) : AuditRow :=
  if succeeded outcome then
    { documentId := job.documentId, event := .webhookSent, payload := some (.sent attempt outcome.responseStatus) }
  else
    { documentId := job.documentId, event := .webhookFailed
      payload := some (.undelivered attempt (isFinalAttempt attempt) (outcome.deliveryError.getD "")
        outcome.responseStatus) }

/-- How an execution ends that has written its audit row. -/
def result (attempt : Nat) (outcome : Delivery) : Except Failure JobResult :=
  if succeeded outcome then .ok (.delivered attempt)
  else if isFinalAttempt attempt then .ok (.deadLetter attempt)
  else .error (.other ("Webhook delivery failed (attempt " ++ toString attempt ++ "/" ++
    toString webhookMaxAttempts ++ "): " ++ outcome.deliveryError.getD ""))

namespace WebhookPoint

def allows (job : JobData) : WebhookPoint → Cmd → Prop
  | read, c => c = .tx (.webhookSubject job.tenantId job.documentId)
  | count _, c => c = .tx (.countDeliveries job.tenantId job.documentId)
  | reason _ _, c => c = .tx (.selectAuditLog job.tenantId job.documentId)
  | insert _ existingAttempts _, c =>
    ∃ id, c = .tx (.insertDelivery job.tenantId (deliveryRow job (existingAttempts + 1) id))
  | post s _ payload _, c => c = .fetch s.url payload s.secret
  | record attempt id outcome, c => c = .tx (.updateDelivery job.tenantId (outcomeSet attempt outcome) id)
  | report attempt outcome, c => c = .tx (.writeAuditLog job.tenantId (reportRow job attempt outcome))
  | ended _, _ => False

/-- From the subject on: the payload of an approval is ready, that of a rejection needs the audit log. -/
def counted (job : JobData) (s : Subject) (existingAttempts : Nat) : WebhookPoint :=
  if s.document.status = .approved then
    insert s existingAttempts (approvedPayload job s.document s.extraction)
  else reason s existingAttempts

def next (job : JobData) (pt : WebhookPoint) (c : Cmd) (r : Except Failure c.Resp) : WebhookPoint :=
  match pt, c, r with
  | read, .tx (.webhookSubject _ _), .ok (found, tenant) =>
    match subject found tenant with
    | .ok s => count s
    | .error why => ended (.ok (.skipped (some why)))
  | count s, .tx (.countDeliveries _ _), .ok existingAttempts => counted job s existingAttempts
  | reason s existingAttempts, .tx (.selectAuditLog _ _), .ok auditLog =>
    insert s existingAttempts (rejectedPayload job s.document auditLog)
  | insert s existingAttempts payload, .tx (.insertDelivery _ _), .ok id => post s (existingAttempts + 1) payload id
  | post _ attempt _ id, .fetch _ _ _, .ok res => record attempt id (received res)
  | post _ attempt _ id, _, .error e => record attempt id { deliveryError := some (message e) }
  | record attempt _ outcome, _, .ok _ => report attempt outcome
  | report attempt outcome, _, .ok _ => ended (result attempt outcome)
  | _, _, .error e => ended (.error e)
  | pt, _, .ok _ => pt

/-- After the first transaction. -/
theorem next_read (job : JobData) (t d : Uuid) (found : Option (DocumentRow × Option ExtractionRow))
    (tenant : Option TenantRow) :
    (∃ s, subject found tenant = .ok s ∧ next job read (.tx (.webhookSubject t d)) (.ok (found, tenant)) = count s) ∨
      ∃ why, subject found tenant = .error why ∧
        next job read (.tx (.webhookSubject t d)) (.ok (found, tenant)) = ended (.ok (.skipped (some why))) := by
  cases h : subject found tenant with
  | ok s => exact .inl ⟨s, rfl, by simp only [next, h]⟩
  | error why => exact .inr ⟨why, rfl, by simp only [next, h]⟩

end WebhookPoint

/-- The errand of a process: the delivery for a job, or none. -/
inductive Errand where
  | aside
  | at (job : JobData) (pt : WebhookPoint)

/-- The points as a protocol. Processes of other owners stand aside. -/
def courier : Protocol Cmd Cmd.Resp Failure where
  Phase := Errand
  allowed
    | .aside, _ => True
    | .at job pt, c => pt.allows job c
  answers _ _ _ := True
  next
    | .aside, _, _ => .aside
    | .at job pt, c, r => .at job (pt.next job c r)

def errand : Owner → Errand
  | .job (.webhook _) data => .at data .read
  | _ => .aside

/-- A processor ends as its point says. -/
def Errand.ends {α : Type} (f : JobResult → α) : Errand → Except Failure α → Prop
  | .aside, _ => True
  | .at _ pt, r => ∃ result, pt = .ended result ∧ r = result.map f

def couriers : Conduct := ⟨fun _ => courier, errand, fun _ => Errand.ends fun _ => ()⟩

private theorem aside_follows {α : Type} (f : JobResult → α) (p : Proc α) :
    courier.wp (Errand.ends f) p .aside := by
  induction p with
  | ret a => trivial
  | throw e => trivial
  | call c k ih => exact ⟨trivial, fun r _ => ih r⟩

private theorem recordDelivery_follows (job : JobData) (attempt : Nat) (deliveryId : Uuid) (outcome : Delivery) :
    courier.wp (Errand.ends id) (recordDelivery job attempt deliveryId outcome)
      (.at job (.record attempt deliveryId outcome)) := by
  refine wp_step rfl (fun e _ => ⟨.error e, rfl, rfl⟩) fun _ _ => wp_ite (fun hs => ?_) fun hs => ?_
  · have hs : succeeded outcome := hs
    refine wp_step (show _ = Cmd.tx _ by rw [reportRow, if_pos hs]) (fun e _ => ⟨.error e, rfl, rfl⟩) fun _ _ => ?_
    exact ⟨.ok (.delivered attempt), congrArg WebhookPoint.ended (if_pos hs), rfl⟩
  · have hs : ¬ succeeded outcome := hs
    refine wp_step (show _ = Cmd.tx _ by rw [reportRow, if_neg hs]; rfl) (fun e _ => ⟨.error e, rfl, rfl⟩) fun _ _ => ?_
    refine wp_ite (fun hf => ?_) fun hf => ?_
    · have hf : isFinalAttempt attempt := hf
      exact ⟨.ok (.deadLetter attempt), congrArg WebhookPoint.ended ((if_neg hs).trans (if_pos hf)), rfl⟩
    · have hf : ¬ isFinalAttempt attempt := hf
      exact ⟨.error _, congrArg WebhookPoint.ended ((if_neg hs).trans (if_neg hf)), rfl⟩

private theorem deliver_follows (job : JobData) (s : Subject) (attempt : Nat) (payload : WebhookPayload)
    (deliveryId : Uuid) :
    courier.wp (fun e r => ∃ outcome, r = .ok outcome ∧ e = .at job (.record attempt deliveryId outcome))
      (deliver s.url payload s.secret) (.at job (.post s attempt payload deliveryId)) := by
  refine (wp_tryCatch _ _ _).2 ?_
  exact wp_step rfl (fun e _ => ⟨_, rfl, rfl⟩) fun res _ => ⟨received res, rfl, rfl⟩

private theorem buildPayload_follows (job : JobData) (s : Subject) (n : Nat) :
    courier.wp (fun e r => (∃ payload, r = .ok payload ∧ e = .at job (.insert s n payload)) ∨
        ∃ err, r = .error err ∧ e = .at job (.ended (.error err)))
      (buildPayload job s.document s.extraction) (.at job (WebhookPoint.counted job s n)) := by
  unfold buildPayload WebhookPoint.counted
  by_cases ha : s.document.status = .approved
  · rw [if_pos ha, if_pos ha]
    exact .inl ⟨_, rfl, rfl⟩
  · rw [if_neg ha, if_neg ha]
    exact wp_step rfl (fun e _ => .inr ⟨e, rfl, rfl⟩) fun auditLog _ => .inl ⟨_, rfl, rfl⟩

private theorem webhook_follows (job : JobData) (draw : Uuid) :
    courier.wp (Errand.ends id) (processWebhookJob job draw) (.at job .read) := by
  refine wp_step rfl (fun e _ => ⟨.error e, rfl, rfl⟩) fun read _ => ?_
  obtain ⟨found, tenant⟩ := read
  have hn : courier.next (.at job .read) (.tx (.webhookSubject job.tenantId job.documentId)) (.ok (found, tenant)) =
    .at job (match subject found tenant with
      | .ok s => .count s
      | .error why => .ended (.ok (.skipped (some why)))) := rfl
  rw [hn]
  rcases found with _ | ⟨document, extraction⟩
  · exact ⟨_, rfl, rfl⟩
  rcases tenant with _ | tenant
  · exact ⟨_, rfl, rfl⟩
  dsimp only [subject, Program.ofExcept, Program.bind]
  generalize tenant.webhookUrl.filter _ = url, tenant.webhookSecret.filter _ = secret
  rcases url with _ | url
  · exact ⟨_, rfl, rfl⟩
  rcases secret with _ | secret
  · exact ⟨_, rfl, rfl⟩
  refine wp_ite (fun ht => ?_) fun ht => ?_
  · dsimp only
    rw [if_pos ht]
    exact ⟨_, rfl, rfl⟩
  · dsimp only
    rw [if_neg ht]
    refine wp_step rfl (fun e _ => ⟨.error e, rfl, rfl⟩) fun n _ => ?_
    change courier.wp _ (buildPayload job document extraction >>= _)
      (.at job (WebhookPoint.counted job ⟨document, extraction, url, secret⟩ n))
    refine (wp_bind _ _ _).2 (wp_mono ?_ (buildPayload_follows job ⟨document, extraction, url, secret⟩ n))
    rintro e r (⟨payload, rfl, rfl⟩ | ⟨err, rfl, rfl⟩)
    · refine wp_step ⟨draw, rfl⟩ (fun e _ => ⟨.error e, rfl, rfl⟩) fun deliveryId _ => ?_
      change courier.wp _ (deliver url payload secret >>= _)
        (.at job (.post ⟨document, extraction, url, secret⟩ (n + 1) payload deliveryId))
      refine (wp_bind _ _ _).2 (wp_mono ?_ (deliver_follows job _ (n + 1) payload deliveryId))
      rintro e r ⟨outcome, rfl, rfl⟩
      exact recordDelivery_follows job (n + 1) deliveryId outcome
    · exact ⟨.error err, rfl, rfl⟩

private theorem void_follows {p : Proc JobResult} {e : Errand} (h : courier.wp (Errand.ends id) p e) :
    courier.wp (Errand.ends fun _ => ()) p.void e := by
  refine (wp_bind _ _ _).2 (wp_mono (fun e r h => ?_) h)
  cases e with
  | aside => cases r <;> trivial
  | «at» job pt =>
    obtain ⟨result, hpt, rfl⟩ := h
    cases result <;> exact ⟨_, hpt, rfl⟩

theorem couriers_start : couriers.Starts where
  call _ := aside_follows _ _
  job jobId data draw := by
    cases jobId with
    | webhook n => exact void_follows (webhook_follows data draw)
    | _ => exact aside_follows _ _

end DocAuto.Webhook
