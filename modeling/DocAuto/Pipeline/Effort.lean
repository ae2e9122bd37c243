import DocAuto.Process.Amortised
import DocAuto.Pipeline.Enabled
import DocAuto.Webhook.Served

/-! How much the system does: what each execution and call may cost, with the jobs it adds,
and that no run does more than it has been asked for. -/
namespace DocAuto.Pipeline
open Process Database

/-- What an execution of a job takes, from its start to its end, and what the jobs it adds take. -/
def JobId.execution : JobId → Nat
  | .ocr _ _ => 136
  | .extraction _ _ => 42
  | .webhook _ => 9

/-- What a job may take: it is attempted three times. -/
def JobId.effort (j : JobId) : Nat := attempts * j.execution

/-- A command is a step, and a job that it adds has its price. -/
def Cmd.effort : Cmd → Nat
  | .queueAdd _ j => 1 + j.effort
  | .webhookQueueAdd _ _ => 1 + (JobId.webhook 0).effort
  | _ => 1

/-- The calls that send a document through the pipeline. -/
def ApiCall.processes : ApiCall → Bool
  | .upload _ _ | .reprocess _ _ _ _ => true
  | _ => false

/-- What an owner's program may spend on commands. -/
def Owner.budget : Owner → Nat
  | .api call => if call.processes then 414 else 30
  | .job j _ => j.execution - 2

section Costs
variable {α β : Type} {n : Nat} {j : JobId} {job : JobData}

private abbrev Spends (n : Nat) (p : Proc α) : Prop := Costs Cmd.effort n p

private theorem spend_done (a : α) : Spends n (pure a) := (Costs.ret a).mono (Nat.zero_le n)

private theorem spend_fail (e : Failure) : Spends n (throw e : Proc α) := (Costs.throw e).mono (Nat.zero_le n)

private theorem spend_ask {c : Cmd} (h : c.effort = 1) : Spends 1 (perform c) := h ▸ Costs.perform c

private theorem spend_tx (x : Tx) : Spends 1 (transaction x) := spend_ask rfl

private theorem spend_then {p : Proc α} {f : α → Proc β} (hp : Spends 1 p) (hf : ∀ a, Spends n (f a)) :
    Spends (n + 1) (p >>= f) := Nat.add_comm 1 n ▸ Costs.bind hp hf

private theorem spend_ite {b : Prop} [Decidable b] {p q : Proc α} (hp : Spends n p) (hq : Spends n q) :
    Spends n (if b then p else q) := Nat.max_self n ▸ Costs.ite hp hq

private theorem spend_void {p : Proc α} (h : Spends n p) : Spends n p.void := Costs.bind h fun _ => Costs.ret ()

/-- Adding a job is paid for with what the job may take. -/
private theorem spend_add {data : JobData} : Spends (1 + j.effort) (perform (.queueAdd data j)) :=
  Costs.perform (Cmd.queueAdd data j)

private theorem spend_announce {d t : Uuid} : Spends 28 (perform (.webhookQueueAdd d t)) := Costs.perform (Cmd.webhookQueueAdd d t)

private theorem runOcr_spends (document : DocumentRow) : Spends 131 (runOcr job document) := by
  refine spend_then (spend_ask rfl) fun _ => spend_then (spend_ask rfl) fun _ => ?_
  refine spend_then (spend_tx _) fun _ => spend_then (spend_tx _) fun _ => ?_
  exact Costs.bind spend_add fun _ => Costs.ret _

private theorem ocr_spends : Spends 134 (ocrProcessor job) := by
  refine spend_then (spend_tx _) fun document => ?_
  cases document with
  | none => exact spend_done _
  | some document =>
    refine spend_then (spend_tx _) fun _ => Costs.tryCatch (k := 1) (runOcr_spends document) fun _ => ?_
    exact spend_then (spend_tx _) fun _ => spend_fail _

private theorem applyDecision_spends (tenant : Option TenantRow) (threshold : ℚ) (r : ExtractionResult) :
    Spends 31 (applyDecision job tenant threshold r) := by
  refine spend_ite ?_ ?_ <;>
    refine spend_then (spend_tx _) fun _ => spend_then (spend_tx _) fun _ => spend_then (spend_tx _) fun _ => ?_
  · exact Costs.bind (spend_ite spend_announce (spend_done ())) fun _ => Costs.ret _
  · exact spend_done _

private theorem classifyAndExtract_spends (rawText : String) (tenant : Option TenantRow) (threshold : ℚ) :
    Spends 35 (classifyAndExtract job rawText tenant threshold) := by
  refine spend_then (spend_ask rfl) fun c => spend_ite ?_ ?_
  · exact spend_then (spend_tx _) fun _ => spend_then (spend_tx _) fun _ => spend_done _
  · refine spend_then (spend_tx _) fun _ => spend_then (spend_ask rfl) fun r => spend_then (spend_tx _) fun _ => ?_
    exact applyDecision_spends tenant threshold r

private theorem extraction_spends : Spends 40 (extractionProcessor job) := by
  refine spend_then (spend_tx _) fun found => ?_
  cases found with
  | none => exact spend_done _
  | some found =>
    refine spend_ite (spend_done _) ?_
    dsimp only
    split
    · exact spend_then (spend_tx _) fun _ => spend_then (spend_tx _) fun _ => spend_done _
    · refine spend_then (spend_tx _) fun tenant => spend_then (spend_tx _) fun _ => ?_
      refine Costs.tryCatch (k := 2) (classifyAndExtract_spends _ _ _) fun _ => ?_
      exact spend_then (spend_tx _) fun _ => spend_then (spend_tx _) fun _ => spend_fail _

private theorem deliver_spends (url : String) (payload : WebhookPayload) (secret : String) :
    Spends 1 (deliver url payload secret) :=
  Costs.tryCatch (Costs.bind (spend_ask rfl) fun _ => Costs.ret _) fun _ => Costs.ret _

private theorem recordDelivery_spends (attempt : Nat) (id : Uuid) (d : Delivery) :
    Spends 2 (recordDelivery job attempt id d) := by
  refine spend_then (spend_tx _) fun _ => spend_ite ?_ ?_
  · exact spend_then (spend_tx _) fun _ => spend_done _
  · exact spend_then (spend_tx _) fun _ => spend_ite (spend_done _) (spend_fail _)

private theorem webhook_spends (draw : Uuid) : Spends 7 (processWebhookJob job draw) := by
  refine spend_then (spend_tx _) fun found => ?_
  rcases found with ⟨_ | ⟨document, extraction⟩, _ | tenant⟩
  iterate 3 exact spend_done _
  dsimp only
  split
  · refine spend_ite (spend_done _) (spend_then (spend_tx _) fun n => spend_then ?_ fun payload => ?_)
    · exact spend_ite (spend_done _) (spend_then (spend_tx _) fun _ => spend_done _)
    · refine spend_then (spend_tx _) fun id => spend_then (deliver_spends _ _ _) fun d => ?_
      exact recordDelivery_spends (n + 1) id d
  · exact spend_done _

private theorem getTenantConfig_spends (tenantId : Uuid) : Spends 1 (getTenantConfig tenantId) := by
  refine spend_then (spend_tx _) fun tenant => ?_
  cases tenant with
  | none => exact spend_fail _
  | some tenant => exact spend_done _

private theorem enqueueWebhookIfConfigured_spends (tenantId d : Uuid) : Spends 29 (enqueueWebhookIfConfigured tenantId d) :=
  spend_then (spend_tx _) fun _ => spend_ite spend_announce (spend_done ())

private theorem upload_spends (p : Upload) (id : Uuid) : Spends 414 (uploadNewDocument p id) := by
  refine spend_then (spend_tx _) fun document => ?_
  cases document with
  | none => exact spend_fail _
  | some document =>
    refine Costs.tryCatch (n := 412) (k := 1) ?_ fun _ => spend_then (spend_tx _) fun _ => spend_fail _
    refine spend_then (spend_ask rfl) fun _ => spend_then (spend_tx _) fun _ => spend_then (spend_tx _) fun _ => ?_
    exact Costs.bind spend_add fun _ => Costs.ret _

private theorem call_spends (call : ApiCall) : Spends (if call.processes then 414 else 30) call.program := by
  cases call with
  | upload p id => exact spend_void (upload_spends p id)
  | list tenantId status page pageSize => exact spend_void ((spend_tx _).mono (show 1 ≤ 30 by decide))
  | get tenantId d =>
    refine spend_void (spend_then (n := 29) (spend_tx _) fun document => ?_)
    cases document with
    | none => exact spend_fail _
    | some document => exact spend_then (spend_tx _) fun _ => spend_done _
  | fileUrl tenantId d =>
    refine spend_void (spend_then (n := 29) (spend_tx _) fun key => ?_)
    cases key with
    | none => exact spend_fail _
    | some key => exact (spend_ask rfl).mono (by decide)
  | approve tenantId d actorId =>
    have henqueue := enqueueWebhookIfConfigured_spends tenantId d
    exact spend_void (spend_then (spend_tx _) fun _ => Costs.bind henqueue fun _ => Costs.ret _)
  | reject tenantId d actorId reason =>
    have henqueue := enqueueWebhookIfConfigured_spends tenantId d
    exact spend_void (spend_then (spend_tx _) fun _ => Costs.bind henqueue fun _ => Costs.ret _)
  | edit tenantId d actorId changes => exact spend_void ((spend_tx _).mono (show 1 ≤ 30 by decide))
  | reprocess tenantId d actorId run =>
    refine spend_void (spend_then (n := 413) (spend_tx _) fun _ => ?_)
    exact (Costs.bind spend_add fun _ => Costs.ret _).mono (show 409 ≤ 413 by decide)
  | getTenant tenantId => exact spend_void ((getTenantConfig_spends tenantId).mono (show 1 ≤ 30 by decide))
  | updateTenant tenantId params =>
    refine spend_void (spend_then (n := 29) (spend_tx _) fun updated => ?_)
    cases updated with
    | none => exact spend_fail _
    | some updated => exact (getTenantConfig_spends tenantId).mono (by decide)
  | rotateSecret tenantId secret =>
    refine spend_void (spend_then (n := 29) (spend_tx _) fun tenant => ?_)
    cases tenant with
    | none => exact spend_fail _
    | some tenant => exact spend_ite (spend_then (spend_tx _) fun _ => spend_done _) (spend_fail _)

private theorem processor_spends (data : JobData) (draw : Uuid) : Spends (j.execution - 2) (processor j data draw) := by
  cases j with
  | ocr d run => exact spend_void ocr_spends
  | extraction d run => exact spend_void extraction_spends
  | webhook n => exact spend_void (webhook_spends draw)

end Costs

/-- Every owner's program is paid for. -/
def efforts : Conduct := ⟨fun _ => budget Cmd.effort, Owner.budget, fun _ _ _ => True⟩

theorem efforts_start : efforts.Starts where
  call call := Protocol.wp_mono (fun _ _ _ => trivial) (call_spends call 0)
  job j data draw := Protocol.wp_mono (fun _ _ _ => trivial) (processor_spends (j := j) data draw 0)

/-- What a process may still spend on commands; it takes one step more to end. -/
def Activity.left (p : Activity) : Nat := efforts.phase p

def Activity.effort (p : Activity) : Nat := p.left + 1

/-- What a job may still take, without an execution in progress. -/
def Job.effort (j : JobId) (job : Job) : Nat :=
  match job.state with
  | .waiting | .delayed => max 1 (attempts - job.attemptsMade) * j.execution
  | .active _ => (attempts - job.attemptsMade - 1) * j.execution
  | .completed | .failed => 0

/-- What the processes and the jobs may still take is `n`. -/
structure Funded (c : Config) (n : Nat) : Prop where
  holds : ∀ i p, c.procs i = some p → efforts.Holds p
  worth : ∃ a b, Worth (fun _ => Activity.effort) c.procs a ∧ Worth Job.effort c.world.jobs b ∧ a + b = n

/-- The steps by which calls and executions begin, go on and end. -/
def Action.progresses : Action → Bool
  | .start _ _ _ | .step _ _ | .finish _ => true
  | _ => false

/-- A call that sends a document through the pipeline. -/
def Action.submits : Action → Bool
  | .call _ request => request.processes
  | _ => false

/-- Any other call. -/
def Action.asks : Action → Bool
  | .call _ request => !request.processes
  | _ => false

def Action.isStall : Action → Bool
  | .stall _ => true
  | _ => false

section Step
variable {c c' : Config} {a : Action} {n b : Nat} {w : World} {j : JobId}

theorem execution_le (j : JobId) : 2 ≤ j.execution ∧ j.execution ≤ 136 := by
  cases j with
  | ocr d run => exact ⟨show 2 ≤ 136 by decide, le_rfl⟩
  | extraction d run => exact ⟨show 2 ≤ 42 by decide, show 42 ≤ 136 by decide⟩
  | webhook n => exact ⟨show 2 ≤ 9 by decide, show 9 ≤ 136 by decide⟩

/-- A job that is added brings its price with it, one of an id that exists none. -/
theorem add_worth (j : JobId) (data : JobData) (h : Worth Job.effort w.jobs b) :
    ∃ b', Worth Job.effort (w.add j data).jobs b' ∧ b' ≤ b + j.effort := by
  unfold World.add
  split
  · exact ⟨b, h, Nat.le_add_right _ _⟩
  · obtain ⟨rest, hb, hrest⟩ := h.update j
    refine ⟨_, hrest (some ⟨data, .waiting, 0⟩), ?_⟩
    change rest + max 1 (attempts - 0) * j.execution ≤ b + attempts * j.execution
    rw [show max 1 (attempts - 0) = attempts from rfl]
    omega

/-- What a command does to the jobs is paid for, and so is the step itself. -/
theorem exec_worth {cmd : Cmd} {answer : Answer} {r : Except Failure cmd.Resp} {w' : World}
    (he : cmd.exec answer w = some (r, w')) (h : Worth Job.effort w.jobs b) :
    ∃ b', Worth Job.effort w'.jobs b' ∧ b' + 1 ≤ b + cmd.effort := by
  rcases Webhook.exec_jobs he with ⟨-, hjobs⟩ | ⟨data, j, rfl, rfl⟩ | ⟨d, t, rfl, -, rfl⟩
  · have hone : 1 ≤ cmd.effort := by
      cases cmd <;> simp [Cmd.effort]
    exact ⟨b, hjobs ▸ h, by omega⟩
  · obtain ⟨b', hb, hle⟩ := add_worth j data h
    exact ⟨b', hb, by rw [Cmd.effort]; omega⟩
  · obtain ⟨b', hb, hle⟩ := add_worth (.webhook w.serial) { documentId := d, tenantId := t } h
    refine ⟨b', hb, ?_⟩
    change b' + 1 ≤ b + (1 + (JobId.webhook w.serial).effort)
    omega

/-- An execution that ends leaves its job no more than it had put aside for further ones. -/
theorem settle_effort {job : Job} {i : ProcId} (h : job.state = .active i) (failed : Bool) :
    (job.settle failed).effort j ≤ job.effort j := by
  have hactive : job.effort j = (attempts - job.attemptsMade - 1) * j.execution := by rw [Job.effort, h]
  rw [hactive]
  cases failed with
  | false => exact Nat.zero_le _
  | true =>
    by_cases hleft : job.attemptsMade + 1 < attempts
    · have hdelayed : (job.settle true).effort j = max 1 (attempts - (job.attemptsMade + 1)) * j.execution := by
        simp [Job.settle, Job.effort, hleft]
      rw [hdelayed, Nat.max_eq_right (Nat.le_sub_of_add_le' hleft), Nat.sub_add_eq]
    · have hfailed : (job.settle true).effort j = 0 := by simp [Job.settle, Job.effort, hleft]
      rw [hfailed]
      exact Nat.zero_le _

theorem settle_worth {i : ProcId} {o : Owner} {failed : Bool} (h : Worth Job.effort w.jobs b) :
    ∃ b', Worth Job.effort (w.settle i o failed).jobs b' ∧ b' ≤ b := by
  unfold World.settle
  split
  · exact ⟨b, h, le_rfl⟩
  · next j data =>
    split
    · next job hj =>
      split
      · next hst =>
        obtain ⟨rest, rfl, hnew⟩ := h.replace hj
        refine ⟨_, hnew (some (job.settle failed)), ?_⟩
        exact Nat.add_le_add_left (settle_effort hst failed) rest
      · exact ⟨b, h, le_rfl⟩
    · exact ⟨b, h, le_rfl⟩

/-- A step takes from what is left, and only calls and stalled jobs add to it. -/
theorem step_funded (hf : Funded c n) (h : step c a = some c') :
    ∃ m, Funded c' m ∧ m + (if a.progresses then 1 else 0) ≤
      n + (((if a.submits then 415 else 0) + if a.asks then 31 else 0) + if a.isStall then 136 else 0) := by
  obtain ⟨hholds, x, b, hx, hb, rfl⟩ := hf
  have hholds' := efforts.step_holds efforts_start hholds (fun _ _ _ _ _ _ _ _ _ _ _ => trivial) h
  cases step_turn h with
  | @call id call hfresh =>
    obtain ⟨rest, hrest, hnew⟩ := hx.update id
    refine ⟨_, ⟨hholds', _, b, hnew _, hb, rfl⟩, ?_⟩
    change rest + ((if call.processes then 414 else 30) + 1) + b + 0 ≤
      x + b + (((if call.processes then 415 else 0) + if (!call.processes) = true then 31 else 0) + 0)
    cases call.processes <;> simp only [Bool.false_eq_true, if_true, if_false, Bool.not_true, Bool.not_false] <;> omega
  | @start id j draw job hj hst hfresh =>
    obtain ⟨rest, hrest, hnew⟩ := hx.update id
    obtain ⟨restJobs, rfl, hnewJobs⟩ := hb.replace hj
    refine ⟨_, ⟨hholds', _, _, hnew _, hnewJobs _, rfl⟩, ?_⟩
    have hwaiting : job.effort j = max 1 (attempts - job.attemptsMade) * j.execution := by
      rcases hst with hst | hst <;> rw [Job.effort, hst]
    change rest + (j.execution - 2 + 1) + (restJobs + (attempts - job.attemptsMade - 1) * j.execution) + 1 ≤
      x + (restJobs + job.effort j) + (0 + 0 + 0)
    have hprice : (attempts - job.attemptsMade - 1) * j.execution + j.execution ≤ job.effort j := by
      rw [hwaiting, ← Nat.succ_mul]
      exact Nat.mul_le_mul_right _ (by omega)
    have htwo := (execution_le j).1
    omega
  | @step id answer p cmd k r w hp hc he =>
    obtain ⟨rest, rfl, hnew⟩ := hx.replace hp
    obtain ⟨b', hb', hle⟩ := exec_worth he hb
    refine ⟨_, ⟨hholds', _, b', hnew _, hb', rfl⟩, ?_⟩
    have hall : cmd.effort ≤ p.left := (hholds id p hp).allows hc
    change rest + (p.left - cmd.effort + 1) + b' + 1 ≤ rest + (p.left + 1) + b + (0 + 0 + 0)
    omega
  | @finish id p failed hp hend =>
    obtain ⟨rest, rfl, hnew⟩ := hx.replace hp
    obtain ⟨b', hb', hle⟩ := @settle_worth b c.world id p.owner failed hb
    refine ⟨_, ⟨hholds', _, b', hnew none, hb', rfl⟩, ?_⟩
    change rest + 0 + b' + 1 ≤ rest + (p.left + 1) + b + (0 + 0 + 0)
    omega
  | @crash id p hp =>
    obtain ⟨rest, rfl, hnew⟩ := hx.replace hp
    refine ⟨_, ⟨hholds', _, b, hnew none, hb, rfl⟩, ?_⟩
    change rest + 0 + b + 0 ≤ rest + (p.left + 1) + b + (0 + 0 + 0)
    omega
  | @stall j job id hj hst =>
    obtain ⟨rest, rfl, hnew⟩ := hb.replace hj
    refine ⟨_, ⟨hholds', x, _, hx, hnew _, rfl⟩, ?_⟩
    have hactive : job.effort j = (attempts - job.attemptsMade - 1) * j.execution := by rw [Job.effort, hst]
    change x + (rest + max 1 (attempts - job.attemptsMade) * j.execution) + 0 ≤
      x + (rest + job.effort j) + (0 + 0 + 136)
    have hprice : max 1 (attempts - job.attemptsMade) * j.execution ≤ job.effort j + j.execution := by
      rw [hactive, ← Nat.succ_mul]
      exact Nat.mul_le_mul_right _ (by omega)
    have hmost := (execution_le j).2
    omega
  | @evict j job hj hst =>
    obtain ⟨rest, rfl, hnew⟩ := hb.replace hj
    refine ⟨_, ⟨hholds', x, _, hx, hnew none, rfl⟩, ?_⟩
    change x + (rest + 0) + 0 ≤ x + (rest + job.effort j) + (0 + 0 + 0)
    omega
  | tick => exact ⟨_, ⟨hholds', x, b, hx, hb, rfl⟩, le_rfl⟩

end Step

section Run
variable {c c' : Config} {tenants : List TenantRow} {users : List UserRow} {actions : List Action}

theorem initial_funded (tenants : List TenantRow) (users : List UserRow) : Funded (initial tenants users) 0 := by
  refine ⟨fun i p hp => ?_, 0, 0, worth_empty, worth_empty, rfl⟩
  cases hp

/-- A run is paid for by the calls and the stalled jobs in it. -/
theorem tally_progress_le (tenants : List TenantRow) (users : List UserRow) (actions : List Action) :
    tally step (fun _ a _ => a.progresses) (initial tenants users) actions ≤
    415 * tally step (fun _ a _ => a.submits) (initial tenants users) actions +
      31 * tally step (fun _ a _ => a.asks) (initial tenants users) actions +
        136 * tally step (fun _ a _ => a.isStall) (initial tenants users) actions := by
  have hpaid := tally_le_total Funded actions (p := fun _ a _ => a.progresses)
    (f := fun _ a _ => ((if a.submits then 415 else 0) + if a.asks then 31 else 0) + if a.isStall then 136 else 0)
    (fun _ _ _ _ hf h => step_funded hf h) (initial_funded tenants users)
  rw [Nat.zero_add, total_add, total_add, total_ite, total_ite, total_ite] at hpaid
  exact hpaid

/-- Nothing can begin, go on or end. -/
def Quiescent (c : Config) : Prop := ∀ a, a.progresses = true → step c a = none

/-- What has not ended can go on: a command may fail at any time. -/
theorem Quiescent.procs (h : Quiescent c) (i : ProcId) : c.procs i = none := by
  cases hp : c.procs i with
  | none => rfl
  | some p =>
    cases hprog : p.program with
    | ret u =>
      have hstep := h (.finish i) rfl
      simp [step, hp, Activity.ended, hprog] at hstep
    | throw e =>
      have hstep := h (.finish i) rfl
      simp [step, hp, Activity.ended, hprog] at hstep
    | call cmd k =>
      obtain ⟨c', hstep⟩ := throws_enabled hp hprog (.other "refused")
      cases (h (.step i (.throws (.other "refused"))) rfl).symm.trans hstep

/-- A job that waits can be started. -/
theorem Quiescent.jobs (h : Quiescent c) {j : JobId} {job : Job} (hj : c.world.jobs j = some job) :
    job.state ≠ .waiting ∧ job.state ≠ .delayed := by
  obtain ⟨id, draw, hfresh⟩ := exists_fresh c
  have hstep := h (.start id j draw) rfl
  simpa [step, hj, hfresh] using hstep

theorem quiescent_iff : Quiescent c ↔ (∀ i, c.procs i = none) ∧
    ∀ j job, c.world.jobs j = some job → job.state ≠ .waiting ∧ job.state ≠ .delayed := by
  refine ⟨fun h => ⟨h.procs, fun j job => h.jobs⟩, fun ⟨hprocs, hjobs⟩ a ha => ?_⟩
  cases a with
  | start id j draw =>
    cases hj : c.world.jobs j with
    | none => simp [step, hj]
    | some job => simp [step, hj, hjobs j job hj]
  | step id answer => simp [step, hprocs id]
  | finish id => simp [step, hprocs id]
  | _ => cases ha

/-- However calls and executions interleave, whatever fails and is tried again: when no more requests
come in, there are no more steps to take than 415 for each document that was sent through the pipeline,
31 for each other call and 136 for each stalled job, less those already taken; and where they come to an
end, every process has ended and no job waits. -/
theorem queues_drain {further : List Action} (h : run step (initial tenants users) actions = some c)
    (hprogress : ∀ a ∈ further, a.progresses = true) (hrun : run step c further = some c') :
    (tally step (fun _ a _ => a.progresses) (initial tenants users) actions + further.length ≤
      415 * tally step (fun _ a _ => a.submits) (initial tenants users) actions +
        31 * tally step (fun _ a _ => a.asks) (initial tenants users) actions +
          136 * tally step (fun _ a _ => a.isStall) (initial tenants users) actions) ∧
    (Quiescent c' ↔ (∀ i, c'.procs i = none) ∧
      ∀ j job, c'.world.jobs j = some job → job.state ≠ .waiting ∧ job.state ≠ .delayed) := by
  refine ⟨?_, quiescent_iff⟩
  have none_further (kind : Action → Bool) (hk : ∀ a, a.progresses = true → kind a = false) :
      tally step (fun _ a _ => kind a) c further = 0 := tally_none fun a ha => hk a (hprogress a ha)
  have hpaid := tally_progress_le tenants users (actions ++ further)
  rw [tally_append h, tally_append h, tally_append h, tally_append h, tally_all hprogress hrun,
    none_further Action.submits fun a ha => ?_, none_further Action.asks fun a ha => ?_,
    none_further Action.isStall fun a ha => ?_] at hpaid
  · exact hpaid
  all_goals cases a <;> first | rfl | cases ha

/-- A failed and a successful attempt of a document's first job, which leave the second one to do. -/
private def demoRetry : List Action := demoFailedOcr ++ demoOcr .initial 22 "text" ++ [.finish 22]

theorem queues_drain_retry : ∃ c c', run step demo demoUpload = some c ∧ run step c demoRetry = some c' ∧
    6 + demoRetry.length ≤ 415 ∧ ¬ Quiescent c' := by
  have hupload : (run step demo demoUpload).isSome = true := by decide +kernel
  obtain ⟨c, hc⟩ := Option.isSome_iff_exists.1 hupload
  have hjob : (run step demo (demoUpload ++ demoRetry)).map (fun c' => (c'.world.jobs (.extraction 3 .initial)).map (·.state)) =
      some (some .waiting) := by decide +kernel
  rw [run_append, hc, Option.bind_some] at hjob
  obtain ⟨c', hc', hwaits⟩ := Option.map_eq_some_iff.1 hjob
  obtain ⟨job, hj, hstate⟩ := Option.map_eq_some_iff.1 hwaits
  obtain ⟨hbound, hquiescent⟩ := queues_drain hc (by decide) hc'
  have hsteps : tally step (fun _ a _ => a.progresses) demo demoUpload = 6 := by decide +kernel
  have hsubmits : tally step (fun _ a _ => a.submits) demo demoUpload = 1 := by decide +kernel
  have hasks : tally step (fun _ a _ => a.asks) demo demoUpload = 0 := by decide +kernel
  have hstalls : tally step (fun _ a _ => a.isStall) demo demoUpload = 0 := by decide +kernel
  rw [show initial _ _ = demo from rfl, hsteps, hsubmits, hasks, hstalls] at hbound
  exact ⟨c, c', hc, hc', hbound, fun h => ((hquiescent.1 h).2 _ job hj).1 hstate⟩

end Run
end DocAuto.Pipeline
