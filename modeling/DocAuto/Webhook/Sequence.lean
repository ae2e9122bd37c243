import DocAuto.Database.Deliveries
import DocAuto.Webhook.Point

/-! A webhook job executed again and again, for any outcomes of the HTTP requests: the database
works, and nothing else happens in between. -/
namespace DocAuto.Webhook
open Process Database Pipeline Table

/-- One execution: what `fetch` does, the UUID of the delivery row, and the time. -/
structure Round where
  outcome : Except Failure FetchResponse
  draw : Uuid
  now : Timestamp

namespace Round

/-- The answers of the database and of `fetch`. -/
def answer (round : Round) : (c : Cmd) → Db → Except Failure c.Resp × Db
  | .tx t, db => t.run true db
  | .fetch _ _ _, db => (round.outcome, db)
  | _, db => (.error (.other "unanswered"), db)

def run (job : JobData) (round : Round) (db : Db) : Except Failure JobResult × Db :=
  (processWebhookJob job round.draw).exec round.answer { db with now := round.now }

/-- The response is 2xx. -/
def accepted (round : Round) : Bool :=
  match round.outcome with
  | .ok res => res.ok
  | .error _ => false

/-- A fetch that throws says why. -/
def Explained (round : Round) : Prop := ∀ e, round.outcome = .error e → message e ≠ ""

/-- The outcome as it is recorded. -/
def delivery (round : Round) : Delivery :=
  match round.outcome with
  | .ok res => received res
  | .error e => { deliveryError := some (message e) }

end Round

/-- One execution for each round. -/
def runAll (job : JobData) : List Round → Db → List (Except Failure JobResult) × Db
  | [], db => ([], db)
  | round :: rounds, db =>
    let (result, db) := round.run job db
    let (results, db) := runAll job rounds db
    (result :: results, db)

/-- What one execution leaves: its delivery row, its audit row, and how it ends. -/
structure Trace where
  row : DeliveryRow
  log : AuditRow
  result : Except Failure JobResult

/-- The row, the audit row and the end that the outcome of the `n`-th attempt calls for. -/
structure Settles (job : JobData) (round : Round) (n : Nat) (x : Trace) : Prop where
  attempt : x.row.attempt = n
  status : x.row.status =
    if round.accepted then .success else if n < webhookMaxAttempts then .failed else .deadLetter
  deliveredAt : x.row.deliveredAt.isSome = round.accepted
  logged : x.log.documentId = job.documentId
  event : x.log.event = if round.accepted then .webhookSent else .webhookFailed
  throws : (∃ e, x.result = .error e) ↔ ¬ round.accepted ∧ n < webhookMaxAttempts

/-- A document in a terminal status, of a tenant with a URL and a secret. -/
structure Deliverable (job : JobData) (db : Db) : Prop where
  sound : db.Sound
  document : ∃ r, db.record job.documentId = some r ∧ r.row.tenantId = job.tenantId ∧
    (r.row.status = .approved ∨ r.row.status = .rejected)
  tenant : ∃ tenant, lookup TenantRow.id job.tenantId db.tenants = some tenant ∧
    truthy tenant.webhookUrl ∧ truthy tenant.webhookSecret

/-- The rows of the document. -/
def deliveriesOf (job : JobData) (db : Db) : List DeliveryRow :=
  db.webhookDeliveries.filter (·.documentId == job.documentId)

/-- The UUIDs drawn are new and distinct. -/
def Drawn (rounds : List Round) (db : Db) : Prop :=
  (rounds.map (·.draw)).Nodup ∧ ∀ round ∈ rounds, ∀ r ∈ db.webhookDeliveries, r.id ≠ round.draw

section Execution
variable {job : JobData} {round : Round} {db : Db} {n : Nat}

theorem succeeded_delivery (h : round.Explained) : succeeded round.delivery = round.accepted := by
  unfold Round.delivery Round.accepted
  unfold Round.Explained at h
  cases ho : round.outcome with
  | ok res => cases hr : res.ok <;> simp [received, succeeded, truthy, hr]
  | error e => simpa [succeeded, truthy] using h e ho

/-- The rows an execution leaves, as the `n`-th attempt. -/
def Round.trace (job : JobData) (n : Nat) (round : Round) : Trace where
  row := (outcomeSet n round.delivery).apply round.now (deliveryRow job n round.draw)
  log := { reportRow job n round.delivery with createdAt := round.now }
  result := result n round.delivery

theorem trace_settles (h : round.Explained) : Settles job round n (round.trace job n) := by
  have hs := succeeded_delivery h
  have hfinal : isFinalAttempt n = !decide (n < webhookMaxAttempts) := by
    simp [isFinalAttempt, ← decide_not]
  cases ha : round.accepted <;> rw [ha] at hs <;> by_cases hn : n < webhookMaxAttempts <;>
    constructor <;> simp [Round.trace, outcomeSet, DeliveriesSet.apply, deliveryRow, reportRow, result, verdict, hs, ha, hn, hfinal]

/-- The database after an execution. -/
def Round.settled (job : JobData) (n : Nat) (round : Round) (db : Db) : Db :=
  { db with
    now := round.now
    webhookDeliveries := db.webhookDeliveries ++ [(round.trace job n).row]
    documentAuditLog := db.documentAuditLog ++ [(round.trace job n).log] }

theorem filter_of_truthy {s : Option String} (h : truthy s) : ∃ x, s.filter (· ≠ "") = some x := by
  cases s with
  | none => cases h
  | some x => exact ⟨x, by simpa [truthy] using h⟩

theorem exec_transaction (t : Tx) (db : Db) : (transaction t).exec round.answer db = t.run true db :=
  Program.exec_perform _ _ _

theorem buildPayload_exec (document : DocumentRow) (extraction : Option ExtractionRow) :
    ∃ payload, (buildPayload job document extraction).exec round.answer db = (.ok payload, db) := by
  unfold buildPayload
  split
  · exact ⟨_, rfl⟩
  · exact ⟨_, Program.exec_bind_of_ok _ (exec_transaction _ _)⟩

theorem deliver_exec (url : String) (payload : WebhookPayload) (secret : String) :
    (deliver url payload secret).exec round.answer db = (.ok round.delivery, db) := by
  unfold deliver Round.delivery
  cases ho : round.outcome with
  | ok res =>
    have hfetch : (perform (.fetch url payload secret)).exec round.answer db = (.ok res, db) := by
      rw [← ho]
      exact Program.exec_perform _ _ _
    exact Program.exec_tryCatch_of_ok _ (Program.exec_bind_of_ok _ hfetch)
  | error e =>
    have hfetch : (perform (.fetch url payload secret)).exec round.answer db = (.error e, db) := by
      rw [← ho]
      exact Program.exec_perform _ _ _
    exact Program.exec_tryCatch_of_error _ (Program.exec_bind_of_error _ hfetch)

theorem reportRow_actor (job : JobData) (attempt : Nat) (outcome : Delivery) : (reportRow job attempt outcome).actorId = none := by
  unfold reportRow
  split <;> rfl

theorem reportRow_document (job : JobData) (attempt : Nat) (outcome : Delivery) :
    (reportRow job attempt outcome).documentId = job.documentId := by
  unfold reportRow
  split <;> rfl

theorem report_exec (hs : db.Sound) (hd : ∃ r, db.record job.documentId = some r ∧ r.row.tenantId = job.tenantId)
    (attempt : Nat) (outcome : Delivery) :
    (writeAuditLog job.tenantId (reportRow job attempt outcome)).exec round.answer db = (.ok (), { db with
      documentAuditLog := db.documentAuditLog ++ [{ reportRow job attempt outcome with createdAt := db.now }] }) := by
  refine (exec_transaction _ _).trans (Tx.writeAuditLog_sure (reportRow_actor job attempt outcome) hs ?_)
  obtain ⟨r, hr, ht⟩ := hd
  exact ⟨r, (reportRow_document job attempt outcome).symm ▸ hr, ht.symm⟩

/-- The outcome of an attempt is written to its row and to the audit log. -/
theorem recordDelivery_exec (hs : db.Sound)
    (hd : ∃ r, db.record job.documentId = some r ∧ r.row.tenantId = job.tenantId) (attempt : Nat) (id : Uuid) (outcome : Delivery) :
    (recordDelivery job attempt id outcome).exec round.answer db = (result attempt outcome, { db with
      webhookDeliveries := db.webhookDeliveries.map fun r =>
        if r.tenantId = job.tenantId ∧ r.id = id then (outcomeSet attempt outcome).apply db.now r else r
      documentAuditLog := db.documentAuditLog ++ [{ reportRow job attempt outcome with createdAt := db.now }] }) := by
  have hupdate := (@exec_transaction round (.updateDelivery job.tenantId (outcomeSet attempt outcome) id) db).trans
    Tx.updateDelivery_run
  generalize db.webhookDeliveries.map _ = rows at hupdate ⊢
  refine (Program.exec_bind_of_ok _ hupdate).trans ?_
  have hlog := @report_exec job round { db with webhookDeliveries := rows } (hs.congr rfl rfl rfl) hd attempt outcome
  unfold result
  by_cases hsucceeded : succeeded outcome
  · rw [if_pos hsucceeded]
    rw [reportRow, if_pos hsucceeded] at hlog ⊢
    refine (congrArg (fun p => Program.exec _ p _) (if_pos hsucceeded)).trans ?_
    exact Program.exec_bind_of_ok _ hlog
  · rw [if_neg hsucceeded]
    rw [reportRow, if_neg hsucceeded] at hlog ⊢
    refine (congrArg (fun p => Program.exec _ p _) (if_neg hsucceeded)).trans ?_
    refine (Program.exec_bind_of_ok _ hlog).trans ?_
    by_cases hfinal : isFinalAttempt attempt
    · rw [if_pos hfinal]
      exact congrArg (fun p => Program.exec _ p _) (if_pos hfinal)
    · rw [if_neg hfinal]
      exact congrArg (fun p => Program.exec _ p _) (if_neg hfinal)

/-- The update after the request reaches the row inserted before it, and no other. -/
theorem map_new {rows : List DeliveryRow} {id : Uuid} {f : DeliveryRow → DeliveryRow} (hnew : ∀ r ∈ rows, r.id ≠ id) :
    (rows ++ [deliveryRow job n id]).map (fun r => if r.tenantId = job.tenantId ∧ r.id = id then f r else r) =
      rows ++ [f (deliveryRow job n id)] := by
  rw [List.map_append, List.map_singleton, if_pos ⟨rfl, rfl⟩]
  refine congrArg (· ++ _) ((List.map_congr_left fun r hr => ?_).trans (List.map_id rows))
  exact if_neg fun h => hnew r hr h.2

/-- An execution that finds `n` rows makes the attempt after them. -/
theorem processWebhookJob_exec (h : Deliverable job db) (hnow : db.now = round.now)
    (hnew : ∀ r ∈ db.webhookDeliveries, r.id ≠ round.draw)
    (hn : (db.webhookDeliveries.filter fun r => r.tenantId == job.tenantId && r.documentId == job.documentId).length = n) :
    (processWebhookJob job round.draw).exec round.answer db =
      ((round.trace job (n + 1)).result, round.settled job (n + 1) db) := by
  obtain ⟨r, hr, ht, hstatus⟩ := h.document
  obtain ⟨tenant, htenant, hurl, hsecret⟩ := h.tenant
  obtain ⟨url, hurl⟩ := filter_of_truthy hurl
  obtain ⟨secret, hsecret⟩ := filter_of_truthy hsecret
  have hsubject := (@exec_transaction round (.webhookSubject job.tenantId job.documentId) db).trans
    (Tx.webhookSubject_run h.sound)
  rw [hr, htenant, Option.filter_some, if_pos (beq_iff_eq.2 ht)] at hsubject
  refine (Program.exec_bind_of_ok _ hsubject).trans ?_
  dsimp only [Option.map_some]
  rw [hurl, hsecret]
  dsimp only
  rw [if_neg (by tauto)]
  have hcount := (@exec_transaction round (.countDeliveries job.tenantId job.documentId) db).trans Tx.countDeliveries_run
  refine (Program.exec_bind_of_ok _ hcount).trans ?_
  obtain ⟨payload, hpayload⟩ := @buildPayload_exec job round db r.row r.extraction
  refine (Program.exec_bind_of_ok _ hpayload).trans ?_
  rw [hn]
  have hdocument : (db.document job.documentId).isSome := by rw [Db.document_of_record hr, Option.isSome_some]
  have hinsert := (@exec_transaction round (.insertDelivery job.tenantId (deliveryRow job (n + 1) round.draw)) db).trans
    (Tx.insertDelivery_sure rfl hnew hdocument (by rw [htenant, Option.isSome_some]))
  refine (Program.exec_bind_of_ok _ hinsert).trans ?_
  refine (Program.exec_bind_of_ok _ (deliver_exec url payload secret)).trans ?_
  have hrecord := @recordDelivery_exec job round
    { db with webhookDeliveries := db.webhookDeliveries ++ [deliveryRow job (n + 1) round.draw] }
    (h.sound.congr rfl rfl rfl) ⟨r, hr, ht⟩ (n + 1) round.draw round.delivery
  dsimp only at hrecord
  rw [map_new hnew] at hrecord
  refine hrecord.trans ?_
  unfold Round.settled Round.trace
  rw [← hnow]

theorem Deliverable.settled (h : Deliverable job db) : Deliverable job (round.settled job n db) := by
  have hlog : (round.trace job n).log.documentId = job.documentId := reportRow_document job n round.delivery
  have hdocument : (db.document (round.trace job n).log.documentId).isSome := by
    obtain ⟨r, hr, -⟩ := h.document
    rw [hlog, Db.document_of_record hr, Option.isSome_some]
  refine ⟨(h.sound.concat_audit hdocument).congr rfl rfl rfl, ?_, h.tenant⟩
  obtain ⟨r, hr, ht, hstatus⟩ := h.document
  obtain ⟨row, hrow, rfl⟩ := Option.map_eq_some_iff.1 hr
  exact ⟨_, congrArg (Option.map _) hrow, ht, hstatus⟩

theorem deliveriesOf_settled : deliveriesOf job (round.settled job n db) = deliveriesOf job db ++ [(round.trace job n).row] := by
  refine (List.filter_append ..).trans (congrArg (deliveriesOf job db ++ ·) (List.filter_eq_self.2 fun r hr => ?_))
  rw [List.mem_singleton.1 hr]
  exact beq_self_eq_true job.documentId

/-- The rows counted are those of the document. -/
theorem counted_rows (h : ∀ r ∈ deliveriesOf job db, r.tenantId = job.tenantId) :
    (db.webhookDeliveries.filter fun r => r.tenantId == job.tenantId && r.documentId == job.documentId) = deliveriesOf job db := by
  refine List.filter_congr fun r hr => ?_
  by_cases hd : r.documentId = job.documentId
  · have ht := h r (List.mem_filter.2 ⟨hr, beq_iff_eq.2 hd⟩)
    rw [beq_iff_eq.2 ht, Bool.true_and]
  · rw [beq_eq_false_iff_ne.2 hd, Bool.and_false]

theorem Drawn.settled {rounds : List Round} (h : Drawn (round :: rounds) db) : Drawn rounds (round.settled job n db) := by
  obtain ⟨hdistinct, hnew⟩ := h
  obtain ⟨hround, hdistinct⟩ := List.nodup_cons.1 hdistinct
  refine ⟨hdistinct, fun next hnext r hr => ?_⟩
  rcases List.mem_append.1 hr with hr | hr
  · exact hnew next (List.mem_cons_of_mem _ hnext) r hr
  · obtain rfl := List.mem_singleton.1 hr
    exact fun he => hround (List.mem_map.2 ⟨next, hnext, he.symm⟩)

/-- What the executions leave, when they find `n` rows of the document. -/
theorem runAll_traces {rounds : List Round} (h : Deliverable job db) (hrows : ∀ r ∈ deliveriesOf job db, r.tenantId = job.tenantId)
    (hn : (deliveriesOf job db).length = n) (hdrawn : Drawn rounds db) (hexplained : ∀ round ∈ rounds, round.Explained) :
    ∃ traces, List.Forall₂ (fun x trace => Settles job x.1 x.2 trace) (rounds.zipIdx (n + 1)) traces ∧
      (runAll job rounds db).1 = traces.map (·.result) ∧
      deliveriesOf job (runAll job rounds db).2 = deliveriesOf job db ++ traces.map (·.row) ∧
      (runAll job rounds db).2.documentAuditLog = db.documentAuditLog ++ traces.map (·.log) ∧
      (runAll job rounds db).2.documents = db.documents := by
  induction rounds generalizing db n with
  | nil => exact ⟨[], .nil, rfl, (List.append_nil _).symm, (List.append_nil _).symm, rfl⟩
  | cons round rounds ih =>
    have hrun : round.run job db = ((round.trace job (n + 1)).result, round.settled job (n + 1) db) :=
      @processWebhookJob_exec job round { db with now := round.now } n ⟨h.sound.congr rfl rfl rfl, h.document, h.tenant⟩ rfl
        (hdrawn.2 round List.mem_cons_self) ((congrArg List.length (counted_rows hrows)).trans hn)
    have hnext := @deliveriesOf_settled job round db (n + 1)
    have hrows' : ∀ r ∈ deliveriesOf job (round.settled job (n + 1) db), r.tenantId = job.tenantId := by
      rw [hnext]
      intro r hr
      rcases List.mem_append.1 hr with hr | hr
      · exact hrows r hr
      · rw [List.mem_singleton.1 hr]
        rfl
    have hn' : (deliveriesOf job (round.settled job (n + 1) db)).length = n + 1 := by
      rw [hnext, List.length_append, hn, List.length_singleton]
    obtain ⟨traces, hsettles, hresults, hdeliveries, hlog, hdocuments⟩ := ih h.settled hrows' hn' hdrawn.settled
      fun next hnext => hexplained next (List.mem_cons_of_mem _ hnext)
    refine ⟨round.trace job (n + 1) :: traces, .cons (trace_settles (hexplained round List.mem_cons_self)) hsettles, ?_⟩
    have hall : runAll job (round :: rounds) db = ((round.trace job (n + 1)).result ::
        (runAll job rounds (round.settled job (n + 1) db)).1, (runAll job rounds (round.settled job (n + 1) db)).2) := by
      rw [runAll, hrun]
    rw [hall]
    refine ⟨congrArg _ hresults, hdeliveries.trans ?_, hlog.trans ?_, hdocuments⟩
    · rw [hnext, List.append_assoc]
      rfl
    · exact List.append_assoc _ _ _

end Execution

/-- Executions of one webhook job: the `i`-th leaves one delivery row with attempt `i` and one
audit row, as its outcome calls for, and throws when the outcome is not 2xx and attempts are left. -/
theorem sequential_delivery (job : JobData) (rounds : List Round) (db : Db) (h : Deliverable job db)
    (hnone : deliveriesOf job db = []) (hdrawn : Drawn rounds db) (hexplained : ∀ round ∈ rounds, round.Explained) :
    ∃ traces, List.Forall₂ (fun x trace => Settles job x.1 x.2 trace) (rounds.zipIdx 1) traces ∧
      (runAll job rounds db).1 = traces.map (·.result) ∧
      deliveriesOf job (runAll job rounds db).2 = traces.map (·.row) ∧
      (runAll job rounds db).2.documentAuditLog = db.documentAuditLog ++ traces.map (·.log) ∧
      (runAll job rounds db).2.documents = db.documents := by
  have hrun := runAll_traces h (by rw [hnone]; exact nofun) (congrArg List.length hnone) hdrawn hexplained
  rw [hnone] at hrun
  exact hrun

section Demo

/-- Document 3 of a tenant with a webhook is approved. -/
private def approvedDb : Db where
  tenants := [⟨1, "Acme", "acme", 85 / 100, some "https://acme.test/hook", some "secret"⟩]
  users := [⟨2, 1, "alice@acme.test", "hash", .admin⟩]
  documents := [⟨3, 1, 2, "1/3", "a.pdf", "application/pdf", .approved, some .invoice, some "text", 0⟩]
  documentsExtraction := []
  documentAuditLog := []
  webhookDeliveries := []
  now := 0

/-- A refused request, an aborted one, one that is refused again, and a success. -/
private def fourRounds : List Round :=
  [⟨.ok ⟨503, ""⟩, 10, 1⟩, ⟨.error (.other "This operation was aborted"), 11, 2⟩, ⟨.ok ⟨404, "gone"⟩, 12, 3⟩, ⟨.ok ⟨204, ""⟩, 13, 4⟩]

theorem sequential_delivery_four :
    ∃ traces, List.Forall₂ (fun x trace => Settles { documentId := 3, tenantId := 1 } x.1 x.2 trace) (fourRounds.zipIdx 1) traces ∧
      (runAll { documentId := 3, tenantId := 1 } fourRounds approvedDb).1 = traces.map (·.result) ∧
      deliveriesOf { documentId := 3, tenantId := 1 } (runAll { documentId := 3, tenantId := 1 } fourRounds approvedDb).2 =
        traces.map (·.row) ∧
      (runAll { documentId := 3, tenantId := 1 } fourRounds approvedDb).2.documentAuditLog = [] ++ traces.map (·.log) ∧
      (runAll { documentId := 3, tenantId := 1 } fourRounds approvedDb).2.documents = approvedDb.documents := by
  have hsound : approvedDb.Sound := by
    refine ⟨?_, ?_, by decide, by decide⟩ <;> unfold Keyed <;> decide
  refine sequential_delivery _ fourRounds approvedDb ⟨hsound, ⟨_, rfl, rfl, .inl rfl⟩, ⟨_, rfl, by decide, by decide⟩⟩ rfl
    ⟨by decide, by decide⟩ ?_
  intro round hround e he
  simp only [fourRounds, List.mem_cons, List.not_mem_nil, or_false] at hround
  rcases hround with rfl | rfl | rfl | rfl <;> cases he
  decide

end Demo
end DocAuto.Webhook
