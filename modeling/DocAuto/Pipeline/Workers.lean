import DocAuto.Pipeline.Coherence

/-! The transactions of the workers: none is refused, none misses its row. -/
namespace DocAuto.Pipeline
open Process Database Protocol
open Webhook (Owns Served)

/-- The transactions of a worker name the document and the tenant of its job. -/
def JobData.works (data : JobData) : Tx → Prop
  | .findDocument t d | .findDocumentWithExtraction t d | .webhookSubject t d | .countDeliveries t d
  | .selectAuditLog t d | .updateDocument t d _ => t = data.tenantId ∧ d = data.documentId
  | .findTenant t | .updateDelivery t _ _ => t = data.tenantId
  | .writeAuditLog t row => t = data.tenantId ∧ row.documentId = data.documentId ∧ row.actorId = none
  | .insertExtraction t row => t = data.tenantId ∧ row.documentId = data.documentId
  | .insertDelivery t row => t = data.tenantId ∧ row.documentId = data.documentId ∧ row.tenantId = data.tenantId
  | _ => False

def Owner.worksOn : Owner → Cmd → Prop
  | .job _ data, .tx x => data.works x
  | _, _ => True

def workers : Conduct := ⟨fun o => footprint o.worksOn, fun _ => (), fun _ _ _ => True⟩

section Works
variable {j : JobId} {job : JobData} {α : Type}

private theorem Issuing.voided {I : Cmd → Prop} {p : Proc α} (h : Issuing I p) :
    (footprint I).wp (fun _ _ => True) p.void () := Keeps.bind h (fun _ => .ret ()) () trivial

private abbrev Works (job : JobData) (p : Proc α) : Prop := Issuing (Owner.job j job).worksOn p

private theorem works {x : Tx} (h : job.works x) : Works (j := j) job (transaction x) := .perform h

private theorem setStatus_works (status : DocumentStatus) : Works (j := j) job (setStatus job status) := works ⟨rfl, rfl⟩

private theorem workerAudit_works (event : AuditEvent) (prev new : DocumentStatus) (payload : AuditPayload) :
    Works (j := j) job (workerAudit job event prev new payload) := works ⟨rfl, rfl, rfl⟩

private theorem runOcr_works (document : DocumentRow) : Works (j := j) job (runOcr job document) := by
  refine .bind (Issuing.perform trivial) fun _ => .bind (Issuing.perform trivial) fun _ => .bind (works ⟨rfl, rfl⟩) fun _ => ?_
  exact .bind (workerAudit_works _ _ _ _) fun _ => .bind (Issuing.perform trivial) fun _ => .ret _

private theorem ocr_works : Works (j := j) job (ocrProcessor job) := by
  refine .bind (works ⟨rfl, rfl⟩) fun document => ?_
  cases document with
  | none => exact .ret _
  | some document =>
    refine .bind (setStatus_works _) fun _ => .tryCatch (runOcr_works document) fun _ => ?_
    exact .bind (setStatus_works _) fun _ => .throw _

private theorem applyDecision_works (tenant : Option TenantRow) (threshold : ℚ) (r : ExtractionResult) :
    Works (j := j) job (applyDecision job tenant threshold r) := by
  refine .ite ?_ ?_ <;> refine .bind (setStatus_works _) fun _ => .bind (workerAudit_works _ _ _ _) fun _ =>
    .bind (workerAudit_works _ _ _ _) fun _ => ?_
  · exact .bind (.ite (Issuing.perform trivial) (.ret ())) fun _ => .ret _
  · exact .ret _

private theorem classifyAndExtract_works (rawText : String) (tenant : Option TenantRow) (threshold : ℚ) :
    Works (j := j) job (classifyAndExtract job rawText tenant threshold) := by
  refine .bind (Issuing.perform trivial) fun c => .ite ?_ ?_
  · exact .bind (works ⟨rfl, rfl⟩) fun _ => .bind (workerAudit_works _ _ _ _) fun _ => .ret _
  · refine .bind (works ⟨rfl, rfl⟩) fun _ => .bind (Issuing.perform trivial) fun r => .bind (works ⟨rfl, rfl⟩) fun _ => ?_
    exact applyDecision_works tenant threshold r

private theorem extraction_works : Works (j := j) job (extractionProcessor job) := by
  refine .bind (works ⟨rfl, rfl⟩) fun found => ?_
  cases found with
  | none => exact .ret _
  | some found =>
    refine .ite (.ret _) ?_
    dsimp only
    split
    · exact .bind (setStatus_works _) fun _ => .bind (workerAudit_works _ _ _ _) fun _ => .ret _
    · refine .bind (works rfl) fun tenant => .bind (setStatus_works _) fun _ =>
        .tryCatch (classifyAndExtract_works _ _ _) fun _ => ?_
      exact .bind (setStatus_works _) fun _ => .bind (workerAudit_works _ _ _ _) fun _ => .throw _

private theorem recordDelivery_works (attempt : Nat) (id : Uuid) (d : Delivery) :
    Works (j := j) job (recordDelivery job attempt id d) := by
  refine .bind (works rfl) fun _ => .ite ?_ ?_
  · exact .bind (works ⟨rfl, rfl, rfl⟩) fun _ => .ret _
  · exact .bind (works ⟨rfl, rfl, rfl⟩) fun _ => .ite (.ret _) (.throw _)

private theorem buildPayload_works (document : DocumentRow) (extraction : Option ExtractionRow) :
    Works (j := j) job (buildPayload job document extraction) :=
  .ite (.ret _) (.bind (works ⟨rfl, rfl⟩) fun _ => .ret _)

private theorem deliver_works (url : String) (payload : WebhookPayload) (secret : String) :
    Works (j := j) job (deliver url payload secret) :=
  .tryCatch (.bind (Issuing.perform trivial) fun _ => .ret _) fun _ => .ret _

private theorem webhook_works (draw : Uuid) : Works (j := j) job (processWebhookJob job draw) := by
  refine .bind (works ⟨rfl, rfl⟩) fun found => ?_
  rcases found with ⟨_ | ⟨document, extraction⟩, _ | tenant⟩
  iterate 3 exact .ret _
  dsimp only
  split
  · refine .ite (.ret _) (.bind (works ⟨rfl, rfl⟩) fun n => .bind (buildPayload_works _ _) fun payload => ?_)
    refine .bind (works ⟨rfl, rfl, rfl⟩) fun id => .bind (deliver_works _ _ _) fun d => ?_
    exact recordDelivery_works (n + 1) id d
  · exact .ret _

end Works

private theorem call_works {call : ApiCall} {p : Proc Unit} : (footprint (Owner.api call).worksOn).wp (fun _ _ => True) p () := by
  induction p with
  | ret a => trivial
  | throw e => trivial
  | call c k ih => exact ⟨trivial, fun r _ => ih r⟩

theorem workers_start : workers.Starts where
  call _ := call_works
  job j data draw := by
    cases j with
    | ocr d run => exact ocr_works.voided
    | extraction d run => exact extraction_works.voided
    | webhook n => exact (webhook_works draw).voided

/-! The row of a delivery is inserted under an id that no other row has. -/

def Cmd.inserts : Cmd → Bool
  | .tx (.insertDelivery _ _) => true
  | _ => false

/-- The process has tried to insert its delivery. -/
def Activity.inserted (p : Activity) : Bool := p.transcript.any fun e => e.1.inserts

/-- One delivery at most, under the id `draw`. -/
def inserting (draw : Uuid) : Protocol Cmd Cmd.Resp Failure where
  Phase := Bool
  allowed inserted c := ∀ t row, c = .tx (.insertDelivery t row) → row.id = draw ∧ inserted = false
  answers _ _ _ := True
  next inserted c _ := c.inserts || inserted

section Inserting
variable {draw : Uuid} {α : Type}

/-- Programs that insert nothing. -/
private abbrev Uninserting (p : Proc α) : Prop := Issuing (fun c => c.inserts = false) p

private theorem uninserting_wp {p : Proc α} (h : Uninserting p) (inserted : Bool) :
    (inserting draw).wp (fun b _ => b = inserted) p inserted := by
  replace h := h () trivial
  induction p with
  | ret a => rfl
  | throw e => rfl
  | call c k ih =>
    have hc : c.inserts = false := h.1
    refine ⟨?_, fun r _ => ?_⟩
    · rintro t row rfl
      cases hc
    · rw [show (inserting draw).next inserted c r = (c.inserts || inserted) from rfl, hc, Bool.false_or]
      exact ih r (h.2 r trivial)

private theorem uninserting_bind {β : Type} {p : Proc α} {f : α → Proc β} {inserted : Bool} (hp : Uninserting p)
    (hf : ∀ a, (inserting draw).wp (fun _ _ => True) (f a) inserted) :
    (inserting draw).wp (fun _ _ => True) (p >>= f) inserted := by
  refine (wp_bind _ _ _).2 (wp_mono ?_ (uninserting_wp hp inserted))
  rintro _ (e | x) rfl
  · trivial
  · exact hf x

private theorem uninserting_end {p : Proc α} (hp : Uninserting p) (inserted : Bool) : (inserting draw).wp (fun _ _ => True) p inserted :=
  wp_mono (fun _ _ _ => trivial) (uninserting_wp hp inserted)

private theorem webhook_inserts (job : JobData) (draw : Uuid) :
    (inserting draw).wp (fun _ _ => True) (processWebhookJob job draw) false := by
  refine uninserting_bind (Issuing.perform rfl) fun found => ?_
  rcases found with ⟨_ | ⟨document, extraction⟩, _ | tenant⟩
  iterate 3 trivial
  dsimp only
  split
  swap
  · trivial
  refine wp_ite (fun _ => trivial) fun _ => uninserting_bind (Issuing.perform rfl) fun n => ?_
  refine uninserting_bind (.ite (.ret _) (.bind (Issuing.perform rfl) fun _ => .ret _)) fun payload => ?_
  -- The insertion is the one command that the two phases tell apart.
  refine wp_step ?_ (fun e _ => trivial) fun id _ => ?_
  · rintro t row ⟨⟩
    exact ⟨rfl, rfl⟩
  · refine uninserting_end (.bind (.tryCatch (.bind (Issuing.perform rfl) fun _ => .ret _) fun _ => .ret _) fun d => ?_) _
    refine .bind (Issuing.perform rfl) fun _ => .ite (.bind (Issuing.perform rfl) fun _ => .ret _) ?_
    exact .bind (Issuing.perform rfl) fun _ => .ite (.ret _) (.throw _)

/-- An execution keeps to the id it has drawn. -/
theorem processor_inserts (n : Nat) (job : JobData) (draw : Uuid) :
    (inserting draw).wp (fun _ _ => True) (processor (.webhook n) job draw) false := by
  refine (wp_bind _ _ _).2 (wp_mono ?_ (webhook_inserts job draw))
  rintro _ (e | x) - <;> trivial

end Inserting

/-- An execution has drawn `draw` for its row, which no other row has before it is inserted. -/
structure Activity.Draws (p : Activity) (c : Config) (draw : Uuid) : Prop where
  drawn : draw ∈ c.issued
  keeps : (inserting draw).wp (fun _ _ => True) p.program p.inserted
  unused : p.inserted = false → ∀ r ∈ c.world.db.webhookDeliveries, r.id ≠ draw

/-- The rows there are have ids drawn before, and every execution has one of its own. -/
structure Config.Draws (c : Config) (draw : ProcId → Uuid) : Prop where
  rows : ∀ r ∈ c.world.db.webhookDeliveries, r.id ∈ c.issued
  own : ∀ i p n data, c.procs i = some p → p.owner = .job (.webhook n) data → p.Draws c (draw i)
  apart : ∀ i j p q n m data data', c.procs i = some p → p.owner = .job (.webhook n) data → c.procs j = some q →
    q.owner = .job (.webhook m) data' → draw i = draw j → i = j

section Draws
variable {c c' : Config} {a : Action} {draw : ProcId → Uuid}

/-- Where a delivery of the next configuration comes from. -/
theorem delivery_origin (hs : Served c) (h : step c a = some c') {r' : DeliveryRow} (hr : r' ∈ c'.world.db.webhookDeliveries) :
    (∃ r ∈ c.world.db.webhookDeliveries, r.id = r'.id) ∨
      ∃ i p n data t row, a = .step i .execute ∧ c.procs i = some p ∧ p.owner = .job (.webhook n) data ∧
        c.command i = some (.tx (.insertDelivery t row)) ∧ row.id = r'.id := by
  rcases Webhook.step_deliveries hs h with he | ⟨i, p, k, rfl, hp, hk, ⟨_, n, _, id, _, hcmd, _, he⟩ | ⟨n, id, outcome, _, he⟩⟩ <;>
    rw [he] at hr
  · exact .inl ⟨r', hr, rfl⟩
  · rcases List.mem_append.1 hr with hr | hr
    · exact .inl ⟨r', hr, rfl⟩
    · obtain rfl := List.mem_singleton.1 hr
      obtain ⟨serial, data, ho⟩ : ∃ serial data, p.owner = .job (.webhook serial) data := by
        unfold Webhook.courierOf at hk
        split at hk
        · next serial job ho => exact ⟨serial, job, ho⟩
        · cases hk
      exact .inr ⟨i, p, serial, data, _, _, rfl, hp, ho, hcmd, rfl⟩
  · obtain ⟨x, hx, rfl⟩ := List.mem_map.1 hr
    refine .inl ⟨x, hx, ?_⟩
    split <;> rfl

/-- What a process inserts has the id it has drawn. -/
theorem Config.Draws.inserted_id (hd : c.Draws draw) {i : ProcId} {p : Activity} {n : Nat} {data : JobData} {t : Uuid}
    {row : DeliveryRow} (hp : c.procs i = some p) (ho : p.owner = .job (.webhook n) data)
    (hcmd : c.command i = some (.tx (.insertDelivery t row))) : row.id = draw i ∧ p.inserted = false := by
  obtain ⟨q, hq, hc⟩ := Option.bind_eq_some_iff.1 hcmd
  obtain rfl := Option.some.inj (hp.symm.trans hq)
  obtain ⟨k, hk⟩ := Activity.program_of hc
  have h := (hd.own i p n data hp ho).keeps
  rw [hk] at h
  exact h.1 t row rfl

/-- The ids drawn stay drawn. -/
theorem step_issued (hv : c.Valid) (h : step c a = some c') : c.issued ⊆ c'.issued := (step_move 0 hv h).issued

private theorem Config.Draws.taken (hd : c.Draws draw) (hs : Served c) (h : step c a = some c') {i : ProcId} {p : Activity}
    {n : Nat} {data : JobData} (hp : c.procs i = some p) (ho : p.owner = .job (.webhook n) data) {r' : DeliveryRow}
    (hr' : r' ∈ c'.world.db.webhookDeliveries) (he : r'.id = draw i) :
    p.inserted = true ∨ a = .step i .execute ∧ ∃ t row, c.command i = some (.tx (.insertDelivery t row)) := by
  rcases delivery_origin hs h hr' with ⟨r, hr, hid⟩ | ⟨j, q, m, data', t, row, rfl, hq, hoq, hcmd, hid⟩
  · refine .inl (Bool.not_eq_false _ ▸ fun hn => ?_)
    exact (hd.own i p n data hp ho).unused hn r hr (hid.trans he)
  · obtain ⟨hrow, -⟩ := hd.inserted_id hq hoq hcmd
    obtain rfl := hd.apart i j p q n m data data' hp ho hq hoq (he.symm.trans (hid.symm.trans hrow))
    exact .inr ⟨rfl, t, row, hcmd⟩

private theorem step_rows (hd : c.Draws draw) (hs : Served c) (h : step c a = some c') :
    ∀ r ∈ c'.world.db.webhookDeliveries, r.id ∈ c'.issued := by
  intro r' hr'
  have hsub := step_issued hs.regular.valid h
  rcases delivery_origin hs h hr' with ⟨r, hr, hid⟩ | ⟨j, q, m, data', t, row, rfl, hq, hoq, hcmd, hid⟩
  · exact hid ▸ hsub (hd.rows r hr)
  · rw [← hid, (hd.inserted_id hq hoq hcmd).1]
    exact hsub (hd.own j q m data' hq hoq).drawn

private theorem step_own (hd : c.Draws draw) (hs : Served c) (h : step c a = some c') {i : ProcId} {p' : Activity} {n : Nat}
    {data : JobData} (hp' : c'.procs i = some p') (ho : p'.owner = .job (.webhook n) data) :
    ∃ u, p'.Draws c' u ∧ ((∃ p, c.procs i = some p ∧ p.owner = p'.owner ∧ u = draw i) ∨ u ∉ c.issued ∧ a.actor = some i) := by
  have hsub := step_issued hs.regular.valid h
  by_cases hi : a.actor = some i
  swap
  · have hp : c.procs i = some p' := (step_procs h hi).symm.trans hp'
    have hold := hd.own i p' n data hp ho
    refine ⟨draw i, ⟨hsub hold.drawn, hold.keeps, fun hn r' hr' he => ?_⟩, .inl ⟨p', hp, rfl, rfl⟩⟩
    rcases hd.taken hs h hp ho hr' he with ht | ⟨rfl, -⟩
    · rw [hn] at ht
      cases ht
    · exact hi rfl
  have hdb := fun r' (hr' : r' ∈ c'.world.db.webhookDeliveries) => delivery_origin hs h hr'
  cases step_turn h with
  | @call id call hfresh =>
    obtain rfl := Option.some.inj hi
    obtain rfl : (⟨.api call, call.program, []⟩ : Activity) = p' := by simpa [Config.spawn] using hp'
    cases ho
  | @start id j u job hj hst hfresh =>
    obtain rfl := Option.some.inj hi
    obtain rfl : (⟨.job j job.data, processor j job.data u, []⟩ : Activity) = p' := by simpa [Config.spawn] using hp'
    cases ho
    have hu : u ∉ c.issued := by
      have := ((fresh_iff 0).1 hfresh).1 u (by simp)
      exact this
    refine ⟨u, ⟨?_, processor_inserts n job.data u, fun _ r' hr' he => ?_⟩, .inr ⟨hu, rfl⟩⟩
    · exact List.mem_cons_of_mem _ (List.mem_append_left _ (List.mem_singleton_self _))
    · rcases hdb r' hr' with ⟨r, hr, hid⟩ | ⟨_, _, _, _, _, _, ha, -⟩
      · exact hu ((hid.trans he) ▸ hd.rows r hr)
      · cases ha
  | @step id answer p cmd k r w hp hc he =>
    obtain rfl := Option.some.inj hi
    obtain rfl : (⟨p.owner, k r, ⟨cmd, r⟩ :: p.transcript⟩ : Activity) = p' := by simpa using hp'
    have hold := hd.own id p n data hp ho
    have hk := hold.keeps
    rw [hc] at hk
    refine ⟨draw id, ⟨hold.drawn, hk.2 r trivial, fun hn r' hr' he => ?_⟩, .inl ⟨p, hp, rfl, rfl⟩⟩
    obtain ⟨hcmd, hins⟩ : cmd.inserts = false ∧ p.inserted = false := Bool.or_eq_false_iff.1 hn
    rcases hd.taken hs h hp ho hr' he with ht | ⟨-, t, row, hrow⟩
    · rw [hins] at ht
      cases ht
    · rw [Config.command_of hp hc] at hrow
      cases hrow
      cases hcmd
  | finish _ _ | crash _ =>
    obtain rfl := Option.some.inj hi
    simp [Config.kill] at hp'
  | stall _ _ | evict _ _ | tick => cases hi

/-- Every step leaves the executions with ids of their own. -/
theorem step_draws (hd : c.Draws draw) (hs : Served c) (h : step c a = some c') : ∃ draw, c'.Draws draw := by
  have hown : ∀ i, ∃ u, ∀ p' n data, c'.procs i = some p' → p'.owner = .job (.webhook n) data →
      p'.Draws c' u ∧ ((∃ p, c.procs i = some p ∧ p.owner = p'.owner ∧ u = draw i) ∨ u ∉ c.issued ∧ a.actor = some i) := by
    intro i
    by_cases hx : ∃ p' n data, c'.procs i = some p' ∧ p'.owner = .job (.webhook n) data
    · obtain ⟨p', n, data, hp', ho⟩ := hx
      obtain ⟨u, hu⟩ := step_own hd hs h hp' ho
      refine ⟨u, fun q m data' hq _ => ?_⟩
      obtain rfl := Option.some.inj (hp'.symm.trans hq)
      exact hu
    · exact ⟨0, fun p' n data hp' ho => absurd ⟨p', n, data, hp', ho⟩ hx⟩
  choose draw' hdraw using hown
  refine ⟨draw', step_rows hd hs h, fun i p n data hp ho => (hdraw i p n data hp ho).1, ?_⟩
  intro i j p q n m data data' hp hop hq hoq he
  rcases (hdraw i p n data hp hop).2 with ⟨p₀, hp₀, hop₀, hi⟩ | ⟨hi, hai⟩ <;>
    rcases (hdraw j q m data' hq hoq).2 with ⟨q₀, hq₀, hoq₀, hj⟩ | ⟨hj, haj⟩
  · exact hd.apart i j p₀ q₀ n m data data' hp₀ (hop₀.trans hop) hq₀ (hoq₀.trans hoq) (hi.symm.trans (he.trans hj))
  · refine absurd ?_ hj
    rw [← he, hi]
    exact (hd.own i p₀ n data hp₀ (hop₀.trans hop)).drawn
  · refine absurd ?_ hi
    rw [he, hj]
    exact (hd.own j q₀ m data' hq₀ (hoq₀.trans hoq)).drawn
  · exact Option.some.inj (hai.symm.trans haj)

theorem Reachable.draws {c : Config} (h : Reachable c) : ∃ draw, c.Draws draw := by
  obtain ⟨tenants, users, actions, h⟩ := h
  have hfirst : Served (initial tenants users) ∧ ∃ draw, (initial tenants users).Draws draw := by
    refine ⟨Webhook.initial_served tenants users, fun _ => 0, ⟨?_, ?_, ?_⟩⟩
    · rintro r hr
      cases hr
    · rintro i p n data hp
      cases hp
    · rintro i j p q n m data data' hp
      cases hp
  refine (run_inductive (I := fun c => Served c ∧ ∃ draw, c.Draws draw) ?_ hfirst h).2
  rintro c a c' ⟨hs, draw, hd⟩ h
  exact ⟨Webhook.step_served hs h, step_draws hd hs h⟩

end Draws

theorem Reachable.holds {K : Conduct} (hK : K.Starts)
    (ha : ∀ o (ph : (K.protocol o).Phase) cmd r, (K.protocol o).answers ph cmd r) {c : Config} (h : Reachable c) :
    ∀ i p, c.procs i = some p → K.Holds p := by
  obtain ⟨tenants, users, actions, h⟩ := h
  refine run_inductive (I := fun c => ∀ i p, c.procs i = some p → K.Holds p) (fun c a c' hf h => ?_) ?_ h
  · exact Conduct.step_holds hK hf (fun _ _ p _ _ _ _ _ _ _ _ => ha p.owner _ _ _) h
  · rintro i p hp
    cases hp

/-- What the lookups of a worker return: the rows they look for. -/
def found : (x : Tx) → x.Result → Prop
  | .findDocument _ d, row => ∃ r, row = some r ∧ r.id = d
  | .findDocumentWithExtraction _ d, found => ∃ r e, found = some (r, e) ∧ r.id = d
  | .findTenant t, row => ∃ r, row = some r ∧ r.id = t
  | .webhookSubject t d, found => ∃ r e tenant, found = (some (r, e), some tenant) ∧ r.id = d ∧ tenant.id = t
  | _, _ => True

/-- A transaction commits, its lookups find their rows and its writes hit theirs. -/
structure Unrefused (db : Db) (x : Tx) : Prop where
  commits : ∃ r, (x.run true db).1 = .ok r ∧ found x r
  written : ∀ d, x.documentId = some d →
    ∃ r, db.record d = some r ∧ (x.run true db).2.record d = some (x.commit db.now r)
  delivered : ∀ t set id, x = .updateDelivery t set id → ∃ r ∈ db.webhookDeliveries, r.id = id ∧ r.tenantId = t

section Unrefused
variable {c : Config} {data : JobData} {x : Tx}

private theorem sure_commits {db : Db} {d : Uuid} (hs : db.Sound) (hx : x.sure d (db.record d)) : ∃ r, (x.run true db).1 = .ok r := by
  have ho := Tx.run_outcome (d := d) hs x
  cases hr : (x.run true db).1 with
  | error e =>
    rw [hr] at ho
    exact absurd hx ho.2
  | ok r => exact ⟨r, rfl⟩

private theorem commit_written {db : Db} {d : Uuid} {r : Record} (hs : db.Sound) (hr : db.record d = some r)
    (ht : r.row.tenantId = x.tenantId) (hd : x.documentId = some d) (hok : ∃ a, (x.run true db).1 = .ok a) :
    (x.run true db).2.record d = some (x.commit db.now r) := by
  have ho := Tx.run_outcome (d := d) hs x
  obtain ⟨a, ha⟩ := hok
  rw [ha, hr] at ho
  rw [ho.1, Tx.after, if_pos ⟨hd, ht.symm⟩]

private theorem record_unrefused (hc : c.serves data) (hs : c.world.db.Sound) (ht : x.tenantId = data.tenantId)
    (hd : x.documentId = some data.documentId) (hx : ∀ r, c.world.db.record data.documentId = some r →
      r.row.tenantId = x.tenantId → x.sure data.documentId (some r)) (hf : ∀ r, found x r) : Unrefused c.world.db x := by
  obtain ⟨r, tenant, hr, hrt, -⟩ := hc
  have hok : ∃ a, (x.run true c.world.db).1 = .ok a := sure_commits hs (hr ▸ hx r hr (hrt.trans ht.symm))
  refine ⟨?_, fun d hd' => ?_, ?_⟩
  · obtain ⟨a, ha⟩ := hok
    exact ⟨a, ha, hf a⟩
  · obtain rfl := Option.some.inj (hd.symm.trans hd')
    exact ⟨r, hr, commit_written hs hr (hrt.trans ht.symm) hd hok⟩
  · rintro t set id rfl
    cases hd

private theorem read_unrefused {db : Db} {a : x.Result} {db' : Db} (h : x.run true db = (.ok a, db')) (hf : found x a)
    (hd : x.documentId = none) (hu : ∀ t set id, x ≠ .updateDelivery t set id) : Unrefused db x := by
  refine ⟨⟨a, by rw [h], hf⟩, fun d hd' => ?_, fun t set id he => absurd he (hu t set id)⟩
  rw [hd] at hd'
  cases hd'

/-- The row of a webhook execution that records its outcome is there. -/
theorem recorded_row {i : ProcId} {p : Activity} {n : Nat} {t id : Uuid} {set : DeliveriesSet}
    {k : Except Failure Unit → Proc Unit} (hs : Served c) (hp : c.procs i = some p) (ho : p.owner = .job (.webhook n) data)
    (hq : p.program = .call (.tx (.updateDelivery t set id)) k) :
    ∃ r ∈ c.world.db.webhookDeliveries, r.id = id ∧ r.tenantId = t := by
  have hk : Webhook.courierOf p = some ⟨n, data, Webhook.pointOf data p.transcript⟩ := by rw [Webhook.courierOf, ho]
  have hpl := hs.placed i p _ hp hk
  have hall := Webhook.courier_allows (hs.follows i p hp) hk hq
  dsimp only at hpl hall
  cases hpt : Webhook.pointOf data p.transcript with
  | record attempt id' outcome =>
    rw [hpt] at hpl hall
    obtain ⟨r, hr, hid, -, ht, -⟩ : Webhook.Inserted c data attempt id' := hpl
    cases hall
    exact ⟨r, hr, hid, ht⟩
  | insert s m payload =>
    rw [hpt] at hall
    obtain ⟨id', hall⟩ := hall
    cases hall
  | _ =>
    rw [hpt] at hall
    cases hall

/-- Whatever has happened before, no key, no foreign key and no policy of the database refuses a transaction of a
worker: its lookups find the document and the tenant of the job, and none of its writes misses its row. -/
theorem workers_unrefused {c : Config} (hc : Reachable c) {i : ProcId} {p : Activity} {j : JobId} {data : JobData} {x : Tx}
    {k : Except Failure x.Result → Proc Unit} (hp : c.procs i = some p) (ho : p.owner = .job j data)
    (hq : p.program = .call (.tx x) k) : Unrefused c.world.db x := by
  have hcoh := hc.coherent
  have hs := hcoh.served.regular.valid.sound
  have hserves : c.serves data := hcoh.serves (hcoh.executions i p j data hp ho)
  obtain ⟨r, tenant, hr, hrt, htenant⟩ := hserves
  have hown : (c.world.db.record data.documentId).filter (·.row.tenantId == data.tenantId) = some r := by
    rw [hr, Option.filter_some, if_pos (beq_iff_eq.2 hrt)]
  have hrid : r.row.id = data.documentId := Db.id_of_record hr
  have hworks : data.works x := by
    have hall : p.owner.worksOn (.tx x) := (hc.holds workers_start (fun _ _ _ _ => trivial) i p hp).allows hq
    rw [ho] at hall
    exact hall
  have hcourier : (∃ t row, x = .insertDelivery t row) ∨ (∃ t set id, x = .updateDelivery t set id) → ∃ n, j = .webhook n := by
    intro hx
    have hi : p.owner.issues (.tx x) := (hcoh.served.footprints i p hp).allows hq
    obtain ⟨n, data', ho'⟩ : ∃ n data', p.owner = .job (.webhook n) data' := by
      rcases hx with ⟨t, row, rfl⟩ | ⟨t, set, id, rfl⟩
      · exact Webhook.issues_courier (.inl ⟨t, row, rfl⟩) hi
      · exact Webhook.issues_courier (.inr ⟨t, set, id, rfl⟩) hi
    exact ⟨n, by cases ho.symm.trans ho'; rfl⟩
  cases x with
  | findDocument t d =>
    obtain ⟨rfl, rfl⟩ := hworks
    have hrow := (Tx.run_outcome (d := data.documentId) hs (.findDocument data.tenantId data.documentId)).2.2 rfl
    rw [hown] at hrow
    exact read_unrefused (Prod.ext (congrArg Except.ok hrow) rfl) ⟨r.row, rfl, hrid⟩ rfl nofun
  | findDocumentWithExtraction t d =>
    obtain ⟨rfl, rfl⟩ := hworks
    have hrow := (Tx.run_outcome (d := data.documentId) hs (.findDocumentWithExtraction data.tenantId data.documentId)).2.2 rfl
    rw [hown] at hrow
    exact read_unrefused (Prod.ext (congrArg Except.ok hrow) rfl) ⟨r.row, r.extraction, rfl, hrid⟩ rfl nofun
  | webhookSubject t d =>
    obtain ⟨rfl, rfl⟩ := hworks
    refine read_unrefused (Tx.webhookSubject_run hs) ?_ rfl nofun
    rw [hown, htenant]
    exact ⟨r.row, r.extraction, tenant, rfl, hrid, Table.key_of_lookup htenant⟩
  | findTenant t =>
    obtain rfl : t = data.tenantId := hworks
    refine read_unrefused (Prod.ext (congrArg Except.ok (select_tenant data.tenantId c.world.db)) rfl) ?_ rfl nofun
    exact ⟨tenant, htenant, Table.key_of_lookup htenant⟩
  | countDeliveries t d => exact read_unrefused Tx.countDeliveries_run trivial rfl nofun
  | selectAuditLog t d => exact read_unrefused (Prod.ext rfl rfl) trivial rfl nofun
  | updateDocument t d set =>
    obtain ⟨rfl, rfl⟩ := hworks
    exact record_unrefused ⟨r, tenant, hr, hrt, htenant⟩ hs rfl rfl (fun _ _ _ => trivial) fun _ => trivial
  | writeAuditLog t row =>
    obtain ⟨rfl, hd, ha⟩ := hworks
    exact record_unrefused ⟨r, tenant, hr, hrt, htenant⟩ hs rfl (congrArg some hd)
      (fun r _ ht => ⟨ha, hd, r, rfl, ht.symm⟩) fun _ => trivial
  | insertExtraction t row =>
    obtain ⟨rfl, hd⟩ := hworks
    exact record_unrefused ⟨r, tenant, hr, hrt, htenant⟩ hs rfl (congrArg some hd)
      (fun r _ ht => ⟨hd, r, rfl, ht.symm⟩) fun _ => trivial
  | insertDelivery t row =>
    obtain ⟨rfl, hd, ht⟩ := hworks
    obtain ⟨n, rfl⟩ := hcourier (.inl ⟨_, _, rfl⟩)
    obtain ⟨draw, hdraw⟩ := hc.draws
    obtain ⟨hid, hins⟩ := hdraw.inserted_id hp ho (Config.command_of hp hq)
    have hdoc : (c.world.db.document row.documentId).isSome := by
      rw [hd, Db.document_of_record hr]
      rfl
    refine read_unrefused (Tx.insertDelivery_sure ht ?_ hdoc (by rw [htenant]; rfl)) trivial rfl nofun
    exact fun x hx => hid ▸ (hdraw.own i p n data hp ho).unused hins x hx
  | updateDelivery t set id =>
    obtain ⟨n, rfl⟩ := hcourier (.inr ⟨_, _, _, rfl⟩)
    refine ⟨⟨(), by rw [Tx.updateDelivery_run], trivial⟩, nofun, ?_⟩
    rintro t' set' id' ⟨⟩
    exact recorded_row hcoh.served hp ho hq
  | _ => exact hworks.elim

/-- The first read of an OCR execution. -/
theorem workers_unrefused_ocr : ∃ c p, run step demo (demoUpload ++ [.start 20 (.ocr 3 .initial) 21]) = some c ∧
    c.procs 20 = some p ∧ p.command = some (.tx (.findDocument 1 3)) ∧ Unrefused c.world.db (.findDocument 1 3) := by
  have hread : ((run step demo (demoUpload ++ [.start 20 (.ocr 3 .initial) 21])).bind fun c => c.procs 20).map
      (fun p => (p.owner, p.command)) =
        some (.job (.ocr 3 .initial) { documentId := 3, tenantId := 1 }, some (.tx (.findDocument 1 3))) := by decide +kernel
  obtain ⟨p, hp, he⟩ := Option.map_eq_some_iff.1 hread
  obtain ⟨c, hc, hp⟩ := Option.bind_eq_some_iff.1 hp
  obtain ⟨ho, hcmd⟩ := Prod.mk.inj he
  obtain ⟨k, hk⟩ := Activity.program_of hcmd
  exact ⟨c, p, hc, hp, hcmd, workers_unrefused ⟨_, _, _, hc⟩ hp ho hk⟩

end Unrefused

end DocAuto.Pipeline
