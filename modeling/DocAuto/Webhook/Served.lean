import DocAuto.Database.Deliveries
import DocAuto.Database.Frame
import DocAuto.Pipeline.Footprint
import DocAuto.Pipeline.Standing
import DocAuto.Webhook.Point

/-! The executions of webhook jobs in flight, and what every reachable configuration satisfies
about them, the deliveries and the serials of the jobs. -/
namespace DocAuto.Webhook
open Process Database Pipeline

/-- An execution of the webhook job `serial`. -/
structure Courier where
  serial : Nat
  job : JobData
  point : WebhookPoint

/-- Where an execution of `job` stands after a history of events, the newest first. -/
def pointOf (job : JobData) (transcript : List (Event Cmd Cmd.Resp Failure)) : WebhookPoint :=
  transcript.foldr (fun e pt => pt.next job e.1 e.2) .read

def courierOf (p : Activity) : Option Courier :=
  match p.owner with
  | .job (.webhook serial) job => some ⟨serial, job, pointOf job p.transcript⟩
  | _ => none

section Couriers
variable {p : Activity} {k : Courier} {cmd : Cmd} {next : Except Failure cmd.Resp → Proc Unit}

private theorem after_at (job : JobData) (transcript : List (Event Cmd Cmd.Resp Failure)) :
    courier.after (.at job .read) transcript = .at job (pointOf job transcript) := by
  induction transcript with
  | nil => rfl
  | cons e es ih =>
    show courier.next (courier.after _ es) e.1 e.2 = _
    rw [ih]
    rfl

private theorem phase_at (hk : courierOf p = some k) : couriers.phase p = .at k.job k.point := by
  unfold courierOf at hk
  split at hk
  · next serial job ho =>
    obtain rfl := Option.some.inj hk
    show courier.after (errand p.owner) p.transcript = _
    rw [ho]
    exact after_at job p.transcript
  · cases hk

theorem courier_allows (hf : couriers.Holds p) (hk : courierOf p = some k) (hc : p.program = .call cmd next) :
    k.point.allows k.job cmd := by
  have ha : courier.allowed (couriers.phase p) cmd := hf.allows hc
  rw [phase_at hk] at ha
  exact ha

theorem courier_ended {failed : Bool} (hf : couriers.Holds p) (hk : courierOf p = some k) (he : p.ended = some failed) :
    ∃ result, k.point = .ended result ∧ failed = !result.isOk := by
  have hends : ∀ r, Errand.ends (fun _ => ()) (couriers.phase p) r →
      ∃ result, k.point = .ended result ∧ r = result.map fun _ => () := by
    intro r h
    rw [phase_at hk] at h
    exact h
  unfold Conduct.Holds at hf
  unfold Activity.ended at he
  cases hp : p.program with
  | call c n => rw [hp] at he; cases he
  | ret a =>
    rw [hp] at he hf
    obtain ⟨result, hpt, hr⟩ := hends _ hf
    cases result with
    | ok v => exact ⟨_, hpt, (Option.some.inj he).symm⟩
    | error e => cases hr
  | throw e =>
    rw [hp] at he hf
    obtain ⟨result, hpt, hr⟩ := hends _ hf
    cases result with
    | ok v => cases hr
    | error e => exact ⟨_, hpt, (Option.some.inj he).symm⟩

theorem courierOf_advance (r : Except Failure cmd.Resp) (program : Proc Unit) :
    courierOf { p with program := program, transcript := ⟨cmd, r⟩ :: p.transcript } =
      (courierOf p).map fun k => { k with point := k.point.next k.job cmd r } := by
  obtain ⟨owner, _, transcript⟩ := p
  cases owner with
  | api call => rfl
  | job jobId data => cases jobId <;> rfl

end Couriers

/-- Only executions of webhook jobs write delivery rows. -/
theorem issues_courier {o : Owner} {c : Cmd} (hc : (∃ t row, c = .tx (.insertDelivery t row)) ∨
      ∃ t set id, c = .tx (.updateDelivery t set id)) (h : o.issues c) :
    ∃ serial data, o = .job (.webhook serial) data := by
  have hnot : ¬ ((∃ call, o = .api call) ∨ ∃ i data, o = .job i data ∧ ∀ n, i ≠ .webhook n) := by
    rintro (⟨call, rfl⟩ | ⟨i, data, rfl, hi⟩) <;> rcases hc with ⟨t, row, rfl⟩ | ⟨t, set, id, rfl⟩
    · exact h
    · exact h
    · cases i <;> first | exact h | exact hi _ rfl
    · cases i <;> first | exact h | exact hi _ rfl
  cases o with
  | api call => exact absurd (.inl ⟨call, rfl⟩) hnot
  | job i data =>
    cases i with
    | webhook n => exact ⟨n, data, rfl⟩
    | ocr | extraction => exact absurd (.inr ⟨_, data, rfl, by rintro _ ⟨⟩⟩) hnot

section Allows
variable {job : JobData} {pt : WebhookPoint} {t : Uuid}

theorem allows_insert {row : DeliveryRow} (h : pt.allows job (.tx (.insertDelivery t row))) :
    ∃ s n payload id, pt = .insert s n payload ∧ t = job.tenantId ∧ row = deliveryRow job (n + 1) id := by
  cases pt with
  | insert s n payload =>
    obtain ⟨id, hid⟩ := h
    cases hid
    exact ⟨s, n, payload, id, rfl, rfl, rfl⟩
  | _ => cases h

theorem allows_update {set : DeliveriesSet} {id : Uuid} (h : pt.allows job (.tx (.updateDelivery t set id))) :
    ∃ n outcome, pt = .record n id outcome ∧ t = job.tenantId ∧ set = outcomeSet n outcome := by
  cases pt with
  | insert s n payload =>
    obtain ⟨_, hid⟩ := h
    cases hid
  | record n id' outcome =>
    cases h
    exact ⟨n, outcome, rfl, rfl, rfl⟩
  | _ => cases h

/-- The insertion of a delivery row by an execution. -/
theorem insertion_run (db : Db) (job : JobData) (n : Nat) (id : Uuid) :
    (∃ e, (Tx.insertDelivery job.tenantId (deliveryRow job n id)).run true db = (.error e, db)) ∨
      (Tx.insertDelivery job.tenantId (deliveryRow job n id)).run true db =
          (.ok id, { db with webhookDeliveries := db.webhookDeliveries ++ [deliveryRow job n id] }) ∧
        ∀ r ∈ db.webhookDeliveries, r.id ≠ id := Tx.insertDelivery_run

end Allows

/-- The document of a job belongs to the tenant of the job. -/
def Owns (c : Config) (job : JobData) : Prop := (c.view job.documentId).owned job.tenantId

/-- The row of an attempt has been inserted. -/
def Inserted (c : Config) (job : JobData) (attempt : Nat) (id : Uuid) : Prop :=
  ∃ r ∈ c.world.db.webhookDeliveries,
    r.id = id ∧ r.documentId = job.documentId ∧ r.tenantId = job.tenantId ∧ r.attempt = attempt

def WebhookPoint.placed (c : Config) (job : JobData) : WebhookPoint → Prop
  | .count _ | .reason _ _ | .insert _ _ _ => Owns c job
  | .post _ attempt _ id | .record attempt id _ => Inserted c job attempt id
  | _ => True

/-- What every reachable configuration satisfies about the deliveries. -/
structure Served (c : Config) : Prop where
  regular : c.Regular
  footprints : c.Footprints
  follows : ∀ i p, c.procs i = some p → couriers.Holds p
  keyed : Table.Keyed (·.id) c.world.db.webhookDeliveries
  owned : ∀ r ∈ c.world.db.webhookDeliveries, (c.view r.documentId).owned r.tenantId
  placed : ∀ i p k, c.procs i = some p → courierOf p = some k → k.point.placed c k.job
  unissued : ∀ n, c.world.serial ≤ n → c.world.jobs (.webhook n) = none
  unserved : ∀ i p n job, c.procs i = some p → p.owner = .job (.webhook n) job → n < c.world.serial
  carried : ∀ i p n job, c.procs i = some p → p.owner = .job (.webhook n) job →
    ∀ j, c.world.jobs (.webhook n) = some j → j.data = job

section Step
variable {c c' : Config} {a : Action}

/-- The deliveries change by the insertion of a new row and by the write of an outcome. -/
theorem step_deliveries (hs : Served c) (h : step c a = some c') :
    c'.world.db.webhookDeliveries = c.world.db.webhookDeliveries ∨
    ∃ i p k, a = .step i .execute ∧ c.procs i = some p ∧ courierOf p = some k ∧
      ((∃ s n payload id, k.point = .insert s n payload ∧
          c.command i = some (.tx (.insertDelivery k.job.tenantId (deliveryRow k.job (n + 1) id))) ∧
          (∀ r ∈ c.world.db.webhookDeliveries, r.id ≠ id) ∧
          c'.world.db.webhookDeliveries = c.world.db.webhookDeliveries ++ [deliveryRow k.job (n + 1) id]) ∨
        ∃ n id outcome, k.point = .record n id outcome ∧
          c'.world.db.webhookDeliveries = c.world.db.webhookDeliveries.map fun r =>
            if r.tenantId = k.job.tenantId ∧ r.id = id then (outcomeSet n outcome).apply c.world.db.now r else r) := by
  rcases step_tables h with ⟨i, answer, rfl⟩ | ht
  swap
  · exact .inl (show c'.world.db.tables.webhookDeliveries = c.world.db.tables.webhookDeliveries from
      congrArg Db.webhookDeliveries ht)
  obtain ⟨p, cmd, next, r, w, hp, hc, he, rfl⟩ := step_inv h
  have hcmd := Config.command_of hp hc
  rcases Cmd.exec_db he with ⟨x, rfl, rfl, hw⟩ | hw
  swap
  · exact .inl (congrArg Db.webhookDeliveries hw)
  have hcourier : (∃ t row, x = .insertDelivery t row) ∨ (∃ t set id, x = .updateDelivery t set id) →
      ∃ k, courierOf p = some k := by
    intro hx
    obtain ⟨q, hq, hi⟩ := hs.footprints.issues hcmd
    obtain rfl := Option.some.inj (hp.symm.trans hq)
    obtain ⟨serial, data, ho⟩ : ∃ serial data, p.owner = .job (.webhook serial) data := by
      rcases hx with ⟨t, row, rfl⟩ | ⟨t, set, id, rfl⟩
      · exact issues_courier (.inl ⟨t, row, rfl⟩) hi
      · exact issues_courier (.inr ⟨t, set, id, rfl⟩) hi
    exact ⟨⟨serial, data, _⟩, by rw [courierOf, ho]⟩
  cases x with
  | insertDelivery t row =>
    obtain ⟨k, hk⟩ := hcourier (.inl ⟨t, row, rfl⟩)
    obtain ⟨s, n, payload, id, hpt, rfl, rfl⟩ := allows_insert (courier_allows (hs.follows i p hp) hk hc)
    rcases insertion_run c.world.db k.job (n + 1) id with ⟨e, hrun⟩ | ⟨hrun, hnew⟩
    · exact .inl (by rw [hw, hrun])
    · exact .inr ⟨i, p, k, rfl, hp, hk, .inl ⟨s, n, payload, id, hpt, hcmd, hnew, by rw [hw, hrun]⟩⟩
  | updateDelivery t set id =>
    obtain ⟨k, hk⟩ := hcourier (.inr ⟨t, set, id, rfl⟩)
    obtain ⟨n, outcome, hpt, rfl, rfl⟩ := allows_update (courier_allows (hs.follows i p hp) hk hc)
    exact .inr ⟨i, p, k, rfl, hp, hk, .inr ⟨n, id, outcome, hpt, by rw [hw, Tx.updateDelivery_run]⟩⟩
  | _ => exact .inl (hw ▸ Tx.run_same (T := .webhookDeliveries) true (by simp [Tx.tables]))

/-- A row keeps its id, its document, its tenant and its number. -/
theorem row_kept (hs : Served c) (h : step c a = some c') {r : DeliveryRow} (hr : r ∈ c.world.db.webhookDeliveries) :
    ∃ r' ∈ c'.world.db.webhookDeliveries,
      r'.id = r.id ∧ r'.documentId = r.documentId ∧ r'.tenantId = r.tenantId ∧ r'.attempt = r.attempt := by
  rcases step_deliveries hs h with he | ⟨i, p, k, _, _, _, ⟨_, _, _, _, _, _, _, he⟩ | ⟨_, _, _, _, he⟩⟩ <;> rw [he]
  · exact ⟨r, hr, rfl, rfl, rfl, rfl⟩
  · exact ⟨r, List.mem_append_left _ hr, rfl, rfl, rfl, rfl⟩
  · refine ⟨_, List.mem_map.2 ⟨r, hr, rfl⟩, ?_⟩
    split <;> exact ⟨rfl, rfl, rfl, rfl⟩

theorem Owns.kept {job : JobData} (hs : Served c) (h : step c a = some c') (ho : Owns c job) : Owns c' job :=
  (step_move job.documentId hs.regular.valid h).owned ho

theorem placed_kept {job : JobData} {pt : WebhookPoint} (hs : Served c) (h : step c a = some c')
    (hp : pt.placed c job) : pt.placed c' job := by
  have hrow : ∀ {n id}, Inserted c job n id → Inserted c' job n id := by
    rintro n id ⟨r, hr, rfl, hd, ht, rfl⟩
    obtain ⟨r', hr', hid, hd', ht', ha⟩ := row_kept hs h hr
    exact ⟨r', hr', hid, hd'.trans hd, ht'.trans ht, ha⟩
  cases pt with
  | count s | reason s n | insert s n payload => exact Owns.kept hs h hp
  | post s n payload id | record n id outcome => exact hrow hp
  | _ => trivial

/-- The document an execution has found is that of its job and belongs to the tenant of the job. -/
theorem subject_found {job : JobData} {answer : Answer} {w w' : World} {pair : DocumentRow × Option ExtractionRow}
    {tenant : Option TenantRow} (hs : w.db.Sound)
    (he : (Cmd.tx (.webhookSubject job.tenantId job.documentId)).exec answer w = some (.ok (some pair, tenant), w')) :
    ∃ r, w.db.record job.documentId = some r ∧ r.row.tenantId = job.tenantId ∧ pair = (r.row, r.extraction) := by
  cases answer with
  | execute =>
    simp only [Cmd.exec, Option.some.injEq, Prod.mk.injEq] at he
    rw [Tx.webhookSubject_run hs] at he
    obtain ⟨hpair, -⟩ := Prod.mk.inj (Except.ok.inj he.1)
    obtain ⟨r, hr, rfl⟩ := Option.map_eq_some_iff.1 hpair
    obtain ⟨hrec, ht⟩ := Option.filter_eq_some_iff.1 hr
    exact ⟨r, hrec, beq_iff_eq.1 ht, rfl⟩
  | _ => cases he

/-- An execution moves to a point that its step makes true. -/
theorem placed_next {i : ProcId} {answer : Answer} {p : Activity} {k : Courier} {cmd : Cmd}
    {next : Except Failure cmd.Resp → Proc Unit} {r : Except Failure cmd.Resp} {w : World} (hs : Served c)
    (h : step c (.step i answer) = some c') (hp : c.procs i = some p) (hk : courierOf p = some k)
    (hc : p.program = .call cmd next) (he : cmd.exec answer c.world = some (r, w)) (hw : c'.world = w) :
    (k.point.next k.job cmd r).placed c' k.job := by
  have hall := courier_allows (hs.follows i p hp) hk hc
  have hpl := hs.placed i p k hp hk
  rcases hpt : k.point with _ | s | ⟨s, n⟩ | ⟨s, n, payload⟩ | ⟨s, n, payload, id⟩ | ⟨n, id, outcome⟩ | ⟨n, outcome⟩ | result <;>
    rw [hpt] at hall hpl
  · obtain rfl := hall
    rcases r with e | ⟨found, tenant⟩
    · trivial
    · rcases WebhookPoint.next_read k.job k.job.tenantId k.job.documentId found tenant with ⟨s, hsub, hn⟩ | ⟨why, -, hn⟩
      · obtain ⟨rfl, -⟩ := subject_ok hsub
        obtain ⟨rec, hrec, ht, -⟩ := subject_found hs.regular.valid.sound he
        rw [hn]
        exact Owns.kept hs h ⟨rec, hrec, ht⟩
      · rw [hn]
        trivial
  · obtain rfl := hall
    rcases r with e | existing
    · trivial
    · show WebhookPoint.placed c' k.job (if _ then _ else _)
      split <;> exact Owns.kept hs h hpl
  · obtain rfl := hall
    rcases r with e | auditLog
    · trivial
    · exact Owns.kept hs h hpl
  · obtain ⟨id, rfl⟩ := hall
    rcases r with e | id'
    · trivial
    · cases answer with
      | execute =>
        simp only [Cmd.exec, Option.some.injEq, Prod.mk.injEq] at he
        rcases insertion_run c.world.db k.job (n + 1) id with ⟨e, hrun⟩ | ⟨hrun, -⟩
        · rw [hrun] at he
          cases he.1
        · rw [hrun] at he
          obtain rfl := Except.ok.inj he.1
          refine ⟨deliveryRow k.job (n + 1) id, ?_, rfl, rfl, rfl, rfl⟩
          rw [hw, ← he.2]
          exact List.mem_append_right _ (List.mem_singleton.2 rfl)
      | _ => cases he
  · obtain rfl := hall
    cases r with
    | error e => exact (placed_kept hs h hpl : (WebhookPoint.post s n payload id).placed c' k.job)
    | ok res => exact (placed_kept hs h hpl : (WebhookPoint.post s n payload id).placed c' k.job)
  · obtain rfl := hall
    cases r <;> trivial
  · obtain rfl := hall
    cases r <;> trivial
  · exact hall.elim

theorem settle_data (job : Job) (failed : Bool) : (job.settle failed).data = job.data := by
  unfold Job.settle
  split <;> rfl

/-- Only `webhookQueue.add` enqueues webhook jobs. -/
theorem queued_elsewhere {pt : Pipeline.Point} {data : JobData} {j : JobId} (h : pt.allows (.queueAdd data j)) (n : Nat) :
    j ≠ .webhook n := by
  rintro rfl
  cases pt with
  | aside | lost => exact h
  | upload p id u => cases u <;> cases h
  | ocr job o => cases o <;> cases h
  | extraction job e => cases e <;> cases h
  | review _ | reset _ _ _ _ | reopen _ _ _ => cases h

/-- Only an executed `add` changes the queues. -/
theorem exec_jobs {cmd : Cmd} {answer : Answer} {r : Except Failure cmd.Resp} {w w' : World}
    (he : cmd.exec answer w = some (r, w')) :
    (w'.serial = w.serial ∧ w'.jobs = w.jobs) ∨
    (∃ data j, cmd = .queueAdd data j ∧ w' = w.add j data) ∨
      ∃ d t, cmd = .webhookQueueAdd d t ∧ answer = .execute ∧
        w' = { w.add (.webhook w.serial) { documentId := d, tenantId := t } with serial := w.serial + 1 } := by
  unfold Cmd.exec at he
  split at he <;> simp only [Option.some.injEq, Prod.mk.injEq, reduceCtorEq] at he <;> obtain ⟨-, rfl⟩ := he
  case h_3 _ data j => exact .inr (.inl ⟨data, j, rfl, rfl⟩)
  case h_4 _ d t => exact .inr (.inr ⟨d, t, rfl, rfl, rfl⟩)
  all_goals exact .inl ⟨rfl, rfl⟩

theorem World.add_serial (w : World) (j : JobId) (data : JobData) : (w.add j data).serial = w.serial := by
  unfold World.add
  split <;> rfl

/-- What a command does to the webhook queue. -/
theorem exec_webhookJobs {i : ProcId} {p : Activity} {cmd : Cmd} {next : Except Failure cmd.Resp → Proc Unit}
    {answer : Answer} {r : Except Failure cmd.Resp} {w : World} (hv : c.Valid) (hp : c.procs i = some p)
    (hc : p.program = .call cmd next) (he : cmd.exec answer c.world = some (r, w)) :
    (w.serial = c.world.serial ∧ ∀ n, w.jobs (.webhook n) = c.world.jobs (.webhook n)) ∨
      ∃ d t, cmd = .webhookQueueAdd d t ∧ answer = .execute ∧ w.serial = c.world.serial + 1 ∧
        w.jobs = (c.world.add (.webhook c.world.serial) { documentId := d, tenantId := t }).jobs := by
  have hall := hv.allows hp hc
  rcases exec_jobs he with ⟨hs, hj⟩ | ⟨data, j, rfl, rfl⟩ | ⟨d, t, rfl, ha, rfl⟩
  · exact .inl ⟨hs, fun n => congrFun hj _⟩
  · refine .inl ⟨World.add_serial _ _ _, fun n => ?_⟩
    unfold World.add
    split
    · rfl
    · exact Function.update_of_ne (queued_elsewhere hall n).symm _ _
  · exact .inr ⟨d, t, rfl, ha, rfl, rfl⟩

/-- Settling an execution only changes its own job, and not the data of it. -/
theorem settle_jobs (w : World) (id : ProcId) (owner : Owner) (failed : Bool) (k : JobId) :
    (w.settle id owner failed).jobs k = w.jobs k ∨ ∃ job data, owner = .job k data ∧ w.jobs k = some job ∧
      job.state = .active id ∧ (w.settle id owner failed).jobs k = some (job.settle failed) := by
  cases owner with
  | api call => exact .inl rfl
  | job j data =>
    cases hj : w.jobs j with
    | none => exact .inl (by simp only [World.settle, hj])
    | some job =>
      by_cases hs : job.state = .active id
      · by_cases hk : k = j
        · subst hk
          exact .inr ⟨job, data, rfl, hj, hs, by simp [World.settle, hj, hs, World.setJob]⟩
        · exact .inl (by simp [World.settle, hj, hs, World.setJob, hk])
      · exact .inl (by simp [World.settle, hj, hs])

theorem settle_serial (w : World) (id : ProcId) (owner : Owner) (failed : Bool) :
    (w.settle id owner failed).serial = w.serial := by
  unfold World.settle
  repeat' split
  all_goals rfl

/-- Serials are never used twice, and a job keeps its data. -/
theorem step_serial (hv : c.Valid) (h : step c a = some c') : c.world.serial ≤ c'.world.serial ∧
    ∀ n j', c'.world.jobs (.webhook n) = some j' →
      (∃ j, c.world.jobs (.webhook n) = some j ∧ j.data = j'.data) ∨ n = c.world.serial ∧ n < c'.world.serial := by
  have hset : ∀ (k : JobId) (old : Job) (new : Option Job), c.world.jobs k = some old →
      (∀ j', new = some j' → j'.data = old.data) → ∀ n j', Function.update c.world.jobs k new (.webhook n) = some j' →
        ∃ j, c.world.jobs (.webhook n) = some j ∧ j.data = j'.data := by
    intro k old new hk hnew n j' hj'
    by_cases hn : JobId.webhook n = k
    · subst hn
      exact ⟨old, hk, (hnew j' (by simpa using hj')).symm⟩
    · exact ⟨j', by simpa [hn] using hj', rfl⟩
  cases step_turn h with
  | @start id jobId draw job hj hst hfresh =>
    refine ⟨le_rfl, fun n j' hj' => .inl (hset jobId job _ hj ?_ n j' hj')⟩
    rintro _ ⟨⟩
    rfl
  | @step id answer p cmd next r w hp hc he =>
    rcases exec_webhookJobs hv hp hc he with ⟨hs, hj⟩ | ⟨d, t, -, -, hs, hj⟩
    · exact ⟨hs.ge, fun n j' hj' => .inl ⟨j', (hj n).symm.trans hj', rfl⟩⟩
    · refine ⟨by dsimp only; omega, fun n j' hj' => ?_⟩
      dsimp only at hj' ⊢
      rw [hj] at hj'
      unfold World.add at hj'
      split at hj'
      · exact .inl ⟨j', hj', rfl⟩
      · by_cases hn : n = c.world.serial
        · exact .inr ⟨hn, by omega⟩
        · exact .inl ⟨j', by simpa [hn] using hj', rfl⟩
  | @finish id p failed hp he =>
    refine ⟨(settle_serial _ _ _ _).ge, fun n j' hj' => .inl ?_⟩
    rcases settle_jobs c.world id p.owner failed (.webhook n) with hs | ⟨job, -, -, hj, -, hs⟩
    · exact ⟨j', hs.symm.trans hj', rfl⟩
    · obtain rfl := Option.some.inj (hs.symm.trans hj')
      exact ⟨job, hj, (settle_data job failed).symm⟩
  | @stall jobId job id hj hst =>
    refine ⟨le_rfl, fun n j' hj' => .inl (hset jobId job _ hj ?_ n j' hj')⟩
    rintro _ ⟨⟩
    rfl
  | @evict jobId job hj hst => exact ⟨le_rfl, fun n j' hj' => .inl (hset jobId job none hj (by rintro _ ⟨⟩) n j' hj')⟩
  | call _ | crash _ | tick => exact ⟨le_rfl, fun n j' hj' => .inl ⟨j', hj', rfl⟩⟩

/-- Where a process of the next configuration comes from. -/
theorem proc_origin (h : step c a = some c') {i : ProcId} {p' : Activity} (hp' : c'.procs i = some p') :
    c.procs i = some p' ∨ (∃ call, p' = ⟨.api call, call.program, []⟩) ∨
    (∃ j draw job, a = .start i j draw ∧ c.world.jobs j = some job ∧
      p' = ⟨.job j job.data, processor j job.data draw, []⟩) ∨
    ∃ answer p cmd next r w, a = .step i answer ∧ c.procs i = some p ∧ p.program = .call cmd next ∧
      cmd.exec answer c.world = some (r, w) ∧ c'.world = w ∧
      p' = { p with program := next r, transcript := ⟨cmd, r⟩ :: p.transcript } := by
  by_cases hi : a.actor = some i
  swap
  · exact .inl ((step_procs h hi).symm.trans hp')
  cases step_turn h with
  | @call id call hfresh =>
    obtain rfl := Option.some.inj hi
    exact .inr (.inl ⟨call, by simpa [Config.spawn] using hp'.symm⟩)
  | @start id jobId draw job hj hst hfresh =>
    obtain rfl := Option.some.inj hi
    exact .inr (.inr (.inl ⟨jobId, draw, job, rfl, hj, by simpa [Config.spawn] using hp'.symm⟩))
  | @step id answer p cmd next r w hp hc he =>
    obtain rfl := Option.some.inj hi
    exact .inr (.inr (.inr ⟨answer, p, cmd, next, r, w, rfl, hp, hc, he, rfl, by simpa using hp'.symm⟩))
  | finish _ _ | crash _ =>
    obtain rfl := Option.some.inj hi
    simp [Config.kill] at hp'
  | stall _ _ | evict _ _ | tick => cases hi

private theorem step_keyed (hs : Served c) (h : step c a = some c') :
    Table.Keyed (·.id) c'.world.db.webhookDeliveries := by
  rcases step_deliveries hs h with he | ⟨i, p, k, _, _, _, ⟨_, n, _, id, _, _, hnew, he⟩ | ⟨n, id, outcome, _, he⟩⟩ <;> rw [he]
  · exact hs.keyed
  · exact hs.keyed.concat (Table.lookup_eq_none.2 hnew)
  · refine hs.keyed.map fun r => ?_
    split <;> rfl

private theorem step_owned (hs : Served c) (h : step c a = some c') :
    ∀ r ∈ c'.world.db.webhookDeliveries, (c'.view r.documentId).owned r.tenantId := by
  have keep : ∀ r ∈ c.world.db.webhookDeliveries, (c'.view r.documentId).owned r.tenantId :=
    fun r hr => (step_move _ hs.regular.valid h).owned (hs.owned r hr)
  intro r hr
  rcases step_deliveries hs h with he | ⟨i, p, k, _, hp, hk, ⟨_, n, _, id, hpt, _, _, he⟩ | ⟨n, id, outcome, _, he⟩⟩ <;>
    rw [he] at hr
  · exact keep r hr
  · rcases List.mem_append.1 hr with hr | hr
    · exact keep r hr
    · obtain rfl := List.mem_singleton.1 hr
      have hpl := hs.placed i p k hp hk
      rw [hpt] at hpl
      exact (hpl : Owns c k.job).kept hs h
  · obtain ⟨x, hx, rfl⟩ := List.mem_map.1 hr
    split <;> exact keep x hx

private theorem step_placed (hs : Served c) (h : step c a = some c') (i : ProcId) (p' : Activity) (k : Courier)
    (hp' : c'.procs i = some p') (hk : courierOf p' = some k) : k.point.placed c' k.job := by
  rcases proc_origin h hp' with hp | ⟨call, rfl⟩ | ⟨j, draw, job, rfl, -, rfl⟩ |
    ⟨answer, p, cmd, next, r, w, rfl, hp, hc, he, hw, rfl⟩
  · exact placed_kept hs h (hs.placed i p' k hp hk)
  · cases hk
  · cases j with
    | webhook n =>
      obtain rfl := Option.some.inj hk
      trivial
    | _ => cases hk
  · rw [courierOf_advance] at hk
    obtain ⟨k', hk', rfl⟩ := Option.map_eq_some_iff.1 hk
    exact placed_next hs h hp hk' hc he hw

theorem step_served (hs : Served c) (h : step c a = some c') : Served c' := by
  obtain ⟨hle, hjobs⟩ := step_serial hs.regular.valid h
  have hissued : ∀ n j, c.world.jobs (.webhook n) = some j → n < c.world.serial := by
    intro n j hj
    by_contra hn
    rw [hs.unissued n (Nat.le_of_not_lt hn)] at hj
    cases hj
  refine ⟨step_regular c a c' hs.regular h, step_footprints hs.footprints h,
    Conduct.step_holds couriers_start hs.follows (fun _ _ _ _ _ _ _ _ _ _ _ => trivial) h,
    step_keyed hs h, step_owned hs h, step_placed hs h, fun n hn => ?_, fun i p' n job hp' ho => ?_, fun i p' n job hp' ho j' hj' => ?_⟩
  · cases hj : c'.world.jobs (.webhook n) with
    | none => rfl
    | some j' =>
      rcases hjobs n j' hj with ⟨j, hj, -⟩ | ⟨-, hlt⟩
      · exact absurd (hissued n j hj) (by omega)
      · omega
  · refine lt_of_lt_of_le ?_ hle
    rcases proc_origin h hp' with hp | ⟨call, rfl⟩ | ⟨j, draw, x, rfl, hj, rfl⟩ | ⟨_, p, _, _, _, _, _, hp, _, _, _, rfl⟩
    · exact hs.unserved i p' n job hp ho
    · cases ho
    · cases ho
      exact hissued n x hj
    · exact hs.unserved i p n job hp ho
  · have hold : ∀ p, c.procs i = some p → p.owner = .job (.webhook n) job → j'.data = job := by
      intro p hp hown
      rcases hjobs n j' hj' with ⟨j, hj, hd⟩ | ⟨hn, -⟩
      · exact hd.symm.trans (hs.carried i p n job hp hown j hj)
      · exact absurd (hs.unserved i p n job hp hown) (by omega)
    rcases proc_origin h hp' with hp | ⟨call, rfl⟩ | ⟨j, draw, x, rfl, hj, rfl⟩ | ⟨_, p, _, _, _, _, _, hp, _, _, _, rfl⟩
    · exact hold p' hp ho
    · cases ho
    · cases ho
      rcases hjobs n j' hj' with ⟨y, hy, hd⟩ | ⟨hn, -⟩
      · rw [← hd, Option.some.inj (hy.symm.trans hj)]
      · exact absurd (hissued n x hj) (by omega)
    · exact hold p hp ho

theorem initial_served (tenants : List TenantRow) (users : List UserRow) : Served (initial tenants users) where
  regular := initial_regular tenants users
  footprints := initial_footprints tenants users
  follows _ _ hp := by cases hp
  keyed := List.nodup_nil
  owned _ hr := by cases hr
  placed _ _ _ hp := by cases hp
  unissued _ _ := rfl
  unserved _ _ _ _ hp := by cases hp
  carried _ _ _ _ hp := by cases hp

theorem reachable_served {c : Config} (h : Reachable c) : Served c := by
  obtain ⟨tenants, users, actions, h⟩ := h
  exact run_inductive (fun _ _ _ hs h => step_served hs h) (initial_served tenants users) h

end Step
end DocAuto.Webhook
