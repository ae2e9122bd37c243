import DocAuto.Database.Integrity
import DocAuto.Webhook.Served

/-! Every job works for the tenant of its document: what the queues, the executions and the
deliveries name is on record. -/
namespace DocAuto.Pipeline
open Process Database Protocol
open Webhook (Owns Served)

/-- The document and the tenant of a decision that has committed. -/
def committedDecision : (c : Cmd) → Except Failure c.Resp → List (Uuid × Uuid)
  | .tx (.approve t d _), .ok _ | .tx (.reject t d _ _), .ok _ => [(d, t)]
  | _, _ => []

/-- A call enqueues webhook jobs for the decisions it has committed. -/
def announcing (o : Owner) : Protocol Cmd Cmd.Resp Failure where
  Phase := List (Uuid × Uuid)
  allowed committed c := ∀ d t, c = .webhookQueueAdd d t → (∃ call, o = .api call) → (d, t) ∈ committed
  answers _ _ _ := True
  next committed c r := committedDecision c r ++ committed

def announcers : Conduct := ⟨announcing, fun _ => [], fun _ _ _ => True⟩

private theorem announces_of_job {α : Type} {j : JobId} {data : JobData} (p : Proc α) (committed : List (Uuid × Uuid)) :
    (announcing (.job j data)).wp (fun _ _ => True) p committed := by
  induction p generalizing committed with
  | ret a => trivial
  | throw e => trivial
  | call c k ih =>
    refine ⟨?_, fun r _ => ih r _⟩
    rintro d t - ⟨call, h⟩
    cases h

private theorem announces_of_issuing {call : ApiCall} {p : Proc Unit}
    (h : (footprint (Owner.api call).issues).wp (fun _ _ => True) p ())
    (hq : ∀ d t, ¬ (Owner.api call).issues (.webhookQueueAdd d t)) (committed : List (Uuid × Uuid)) :
    (announcing (.api call)).wp (fun _ _ => True) p committed := by
  induction p generalizing committed with
  | ret a => trivial
  | throw e => trivial
  | call c k ih => exact ⟨fun d t hc _ => absurd (hc ▸ h.1) (hq d t), fun r hr => ih r (h.2 r trivial) _⟩

private theorem review_announces {call : ApiCall} {x : Tx} {d t : Uuid}
    (hx : ∀ r, committedDecision (.tx x) (.ok r) = [(d, t)]) :
    (announcing (.api call)).wp (fun _ _ => True) (do
      let updated ← transaction x
      enqueueWebhookIfConfigured t d
      return updated : Proc x.Result).void [] := by
  refine wp_step (by rintro d t ⟨⟩) (fun e _ => trivial) fun r _ => ?_
  have hn : (announcing (.api call)).next [] (.tx x) (.ok r) = [(d, t)] := by
    rw [show (announcing (.api call)).next [] (.tx x) (.ok r) = committedDecision (.tx x) (.ok r) ++ [] from rfl, hx]
    rfl
  rw [hn]
  refine wp_step (by rintro d t ⟨⟩) (fun e _ => trivial) fun tenant _ => ?_
  dsimp only [Program.ofExcept, Program.bind]
  split
  · refine wp_step ?_ (fun e _ => trivial) fun _ _ => trivial
    rintro d' t' ⟨⟩ -
    exact List.mem_singleton_self _
  · trivial

theorem announcers_start : announcers.Starts where
  call call := by
    cases call with
    | approve t d a => exact review_announces (x := .approve t d a) fun _ => rfl
    | reject t d a reason => exact review_announces (x := .reject t d a reason) fun _ => rfl
    | _ =>
      refine announces_of_issuing (footprints_start.call _) ?_ []
      exact fun _ _ h => h
  job _ _ _ := announces_of_job _ _

/-- The decisions a process has committed. -/
def Activity.committed (p : Activity) : List (Uuid × Uuid) := announcers.phase p

/-- What every reachable configuration satisfies about its jobs. -/
structure Config.Coherent (c : Config) : Prop where
  served : Served c
  referential : c.world.db.Referential
  follows : ∀ i p, c.procs i = some p → announcers.Holds p
  jobs : ∀ j job, c.world.jobs j = some job → Owns c job.data
  executions : ∀ i p j data, c.procs i = some p → p.owner = .job j data → Owns c data
  decided : ∀ i p d t, c.procs i = some p → (d, t) ∈ p.committed → (c.view d).owned t

section Step
variable {c c' : Config} {a : Action}

/-- A decision that has committed was about a document of the tenant. -/
theorem decision_owned {answer : Answer} {cmd : Cmd} {r : Except Failure cmd.Resp} {w : World} {d t : Uuid}
    (hs : c.world.db.Sound) (he : cmd.exec answer c.world = some (r, w)) (hr : (d, t) ∈ committedDecision cmd r) :
    (c.view d).owned t := by
  have heff := Cmd.exec_effect d c.procs c.issued hs he
  unfold committedDecision at hr
  split at hr
  case h_3 => cases hr
  all_goals
    obtain ⟨rfl, rfl⟩ := Prod.mk.inj (List.mem_singleton.1 hr)
    obtain ⟨-, -, -, had, -⟩ := heff.committed
    obtain ⟨r, hrec, ht, -⟩ := had rfl
    exact ⟨r, hrec, ht.symm⟩

/-- Whoever enqueues a webhook job has the document. -/
theorem webhookQueueAdd_owned (hc : c.Coherent) {i : ProcId} {p : Activity} {d t : Uuid} {k : Except Failure Unit → Proc Unit}
    (hp : c.procs i = some p) (hq : p.program = .call (.webhookQueueAdd d t) k) : (c.view d).owned t := by
  have hi : p.owner.issues (.webhookQueueAdd d t) := (hc.served.footprints i p hp).allows hq
  cases ho : p.owner with
  | api call =>
    have hall : (announcing p.owner).allowed p.committed (.webhookQueueAdd d t) := (hc.follows i p hp).allows hq
    exact hc.decided i p d t hp (hall d t rfl ⟨call, ho⟩)
  | job j data =>
    have hown := hc.executions i p j data hp ho
    rw [ho] at hi
    cases j with
    | extraction d' q =>
      obtain ⟨rfl, rfl⟩ := hi
      exact hown
    | _ => exact hi.elim

theorem add_origin {w : World} {k j : JobId} {data : JobData} {job : Job} (h : (w.add k data).jobs j = some job) :
    w.jobs j = some job ∨ j = k ∧ job.data = data := by
  unfold World.add at h
  split at h
  · exact .inl h
  · by_cases hk : j = k
    · subst hk
      obtain rfl : (⟨data, .waiting, 0⟩ : Job) = job := by simpa [World.setJob] using h
      exact .inr ⟨rfl, rfl⟩
    · exact .inl (by simpa [World.setJob, hk] using h)

/-- Where a job of the next configuration comes from: it was there, or a process is adding it. -/
theorem job_origin (h : step c a = some c') {j : JobId} {job : Job} (hj : c'.world.jobs j = some job) :
    (∃ old, c.world.jobs j = some old ∧ old.data = job.data) ∨
      ∃ i p cmd k, c.procs i = some p ∧ p.program = .call cmd k ∧
        (cmd = .queueAdd job.data j ∨ ∃ d t, cmd = .webhookQueueAdd d t ∧ job.data = { documentId := d, tenantId := t }) := by
  have hset : ∀ (k : JobId) (old : Job) (new : Option Job), c.world.jobs k = some old →
      (∀ x, new = some x → x.data = old.data) → Function.update c.world.jobs k new j = some job →
        ∃ old, c.world.jobs j = some old ∧ old.data = job.data := by
    intro k old new hk hnew hup
    by_cases hn : j = k
    · subst hn
      exact ⟨old, hk, (hnew job (by simpa using hup)).symm⟩
    · exact ⟨job, by simpa [hn] using hup, rfl⟩
  cases step_turn h with
  | @start id jobId draw old hold hst hfresh =>
    refine .inl (hset jobId old _ hold ?_ hj)
    rintro _ ⟨⟩
    rfl
  | @stall jobId old id hold hst =>
    refine .inl (hset jobId old _ hold ?_ hj)
    rintro _ ⟨⟩
    rfl
  | @evict jobId old hold hst => exact .inl (hset jobId old none hold (by rintro _ ⟨⟩) hj)
  | call _ | crash _ | tick => exact .inl ⟨job, hj, rfl⟩
  | @finish id p failed hp he =>
    rcases Webhook.settle_jobs c.world id p.owner failed j with hs | ⟨old, -, -, hold, -, hs⟩
    · exact .inl ⟨job, hs.symm.trans hj, rfl⟩
    · obtain rfl := Option.some.inj (hs.symm.trans hj)
      exact .inl ⟨old, hold, (Webhook.settle_data old failed).symm⟩
  | @step id answer p cmd k r w hp hq he =>
    rcases Webhook.exec_jobs he with ⟨-, hw⟩ | ⟨data, j', rfl, rfl⟩ | ⟨d, t, rfl, -, rfl⟩
    · exact .inl ⟨job, (congrFun hw j).symm.trans hj, rfl⟩
    · rcases add_origin hj with hold | ⟨rfl, rfl⟩
      · exact .inl ⟨job, hold, rfl⟩
      · exact .inr ⟨id, p, _, k, hp, hq, .inl rfl⟩
    · rcases add_origin hj with hold | ⟨rfl, hdata⟩
      · exact .inl ⟨job, hold, rfl⟩
      · exact .inr ⟨id, p, _, k, hp, hq, .inr ⟨d, t, rfl, hdata⟩⟩

/-- Whoever enqueues an OCR or extraction job has the document, too. -/
theorem queueAdd_owned (hc : c.Coherent) {i : ProcId} {p : Activity} {data : JobData} {j : JobId}
    {k : Except Failure Unit → Proc Unit} (hp : c.procs i = some p) (hq : p.program = .call (.queueAdd data j) k) :
    Owns c data := by
  have hr := hc.served.regular
  have hall := hr.valid.allows hp hq
  have hord := (hr.standing data.documentId).orderly
  have hfit := fits_add (fun j' data' ho => hord.owners i p.position j' data' (Config.view_position hp) ho)
    (hord.points i p.position (Config.view_position hp)) hall
  obtain ⟨d, q, hj⟩ : ∃ d q, j.subject = some (d, q) := by
    cases j with
    | webhook n => exact absurd rfl (Webhook.queued_elsewhere hall n)
    | ocr d q | extraction d q => exact ⟨d, q, rfl⟩
  obtain ⟨hd, -, hown⟩ := hfit d q hj
  exact hown hd.symm

/-- Every job of the next configuration is that of a document of its tenant. -/
theorem step_jobs_owned (hc : c.Coherent) (h : step c a = some c') {j : JobId} {job : Job}
    (hj : c'.world.jobs j = some job) : Owns c' job.data := by
  refine Owns.kept hc.served h ?_
  rcases job_origin h hj with ⟨old, hold, hdata⟩ | ⟨i, p, cmd, k, hp, hq, rfl | ⟨d, t, rfl, hdata⟩⟩
  · exact hdata ▸ hc.jobs j old hold
  · exact queueAdd_owned hc hp hq
  · rw [hdata]
    exact webhookQueueAdd_owned hc hp hq

/-- The foreign keys hold after every step. -/
theorem step_referential (hr : c.world.db.Referential) (h : step c a = some c') : c'.world.db.Referential := by
  rcases step_tables h with ⟨i, answer, rfl⟩ | ht
  · obtain ⟨p, cmd, k, r, w, hp, hc, he, rfl⟩ := step_inv h
    rcases Cmd.exec_db he with ⟨x, rfl, rfl, hw⟩ | hw
    · exact hw ▸ Tx.run_referential true x hr
    · exact hw ▸ hr
  · have htables : c'.world.db.tables.Referential := ht ▸ { hr with }
    exact { htables with }

theorem step_coherent (hc : c.Coherent) (h : step c a = some c') : c'.Coherent := by
  have hs := hc.served
  refine ⟨Webhook.step_served hs h, ?_, ?_, fun j job hj => step_jobs_owned hc h hj, fun i p j data hp ho => ?_,
    fun i p d t hp hm => ?_⟩
  · exact step_referential hc.referential h
  · exact Conduct.step_holds announcers_start hc.follows (fun _ _ _ _ _ _ _ _ _ _ _ => trivial) h
  · rcases Webhook.proc_origin h hp with hp | ⟨call, rfl⟩ | ⟨j', draw, job, rfl, hj, rfl⟩ |
      ⟨answer, old, cmd, next, r, w, rfl, hold, hcmd, he, hw, rfl⟩
    · exact (hc.executions i p j data hp ho).kept hs h
    · cases ho
    · cases ho
      exact (hc.jobs _ _ hj).kept hs h
    · exact (hc.executions i old j data hold ho).kept hs h
  · have keep : (c.view d).owned t → (c'.view d).owned t := (step_move d hs.regular.valid h).owned
    rcases Webhook.proc_origin h hp with hp | ⟨call, rfl⟩ | ⟨j', draw, job, rfl, hj, rfl⟩ |
      ⟨answer, old, cmd, next, r, w, rfl, hold, hcmd, he, hw, rfl⟩
    · exact keep (hc.decided i p d t hp hm)
    · cases hm
    · cases hm
    · rcases List.mem_append.1 hm with hm | hm
      · exact keep (decision_owned hs.regular.valid.sound he hm)
      · exact keep (hc.decided i old d t hold hm)

theorem initial_coherent (tenants : List TenantRow) (users : List UserRow) : (initial tenants users).Coherent where
  served := Webhook.initial_served tenants users
  referential := by constructor <;> exact List.nil_subset _
  follows _ _ hp := by cases hp
  jobs _ _ hj := by cases hj
  executions _ _ _ _ hp := by cases hp
  decided _ _ _ _ hp := by cases hp

end Step

theorem Reachable.step {c c' : Config} {a : Action} (hc : Reachable c) (h : Pipeline.step c a = some c') : Reachable c' := by
  obtain ⟨tenants, users, actions, hrun⟩ := hc
  exact ⟨tenants, users, actions ++ [a], by rw [run_append, hrun, Option.bind_some, run, h]; rfl⟩

theorem Reachable.coherent {c : Config} (h : Reachable c) : c.Coherent := by
  obtain ⟨tenants, users, actions, h⟩ := h
  exact run_inductive (fun _ _ _ hc h => step_coherent hc h) (initial_coherent tenants users) h

/-- The document and the tenant that the data name are on record, and the document is the tenant's. -/
def Config.serves (c : Config) (data : JobData) : Prop :=
  ∃ r t, c.world.db.record data.documentId = some r ∧ r.row.tenantId = data.tenantId ∧
    Table.lookup TenantRow.id data.tenantId c.world.db.tenants = some t

theorem Config.Coherent.serves {c : Config} (hc : c.Coherent) {data : JobData} (ho : Owns c data) : c.serves data := by
  obtain ⟨r, hr, ht⟩ := ho
  obtain ⟨row, hrow, hrec⟩ := Option.map_eq_some_iff.1 (show (c.world.db.document data.documentId).map _ = some r from hr)
  obtain rfl : row = r.row := by rw [← hrec]
  have hmem := hc.referential.tenant (List.mem_map_of_mem (f := DocumentRow.tenantId) (Table.mem_of_lookup hrow))
  obtain ⟨t, htm, htid⟩ := List.mem_map.1 hmem
  cases hl : Table.lookup TenantRow.id data.tenantId c.world.db.tenants with
  | none => exact absurd (htid.trans ht) (Table.lookup_eq_none.1 hl t htm)
  | some t => exact ⟨r, t, hr, ht, hl⟩

/-- Whatever calls, failures, retries and re-deliveries came before, every job in a queue, every execution
and every delivery is for a document on record and for that document's own tenant, on record as well. -/
theorem jobs_coherent {c : Config} (hc : Reachable c) :
    (∀ j job, c.world.jobs j = some job → c.serves job.data) ∧
    (∀ i p j data, c.procs i = some p → p.owner = .job j data → c.serves data) ∧
    ∀ r ∈ c.world.db.webhookDeliveries, c.serves { documentId := r.documentId, tenantId := r.tenantId } := by
  have h := hc.coherent
  refine ⟨fun j job hj => h.serves (h.jobs j job hj), fun i p j data hp ho => h.serves (h.executions i p j data hp ho), ?_⟩
  exact fun r hr => h.serves (h.served.owned r hr)

/-- An upload leaves the job of its document. -/
theorem jobs_coherent_upload : ∃ c job, run step demo demoUpload = some c ∧ c.world.jobs (.ocr 3 .initial) = some job ∧
    c.serves job.data := by
  obtain ⟨c, hc⟩ := Option.isSome_iff_exists.1 (by decide +kernel : (run step demo demoUpload).isSome = true)
  have hjob : (run step demo demoUpload).map (fun c => (c.world.jobs (.ocr 3 .initial)).isSome) = some true := by decide +kernel
  rw [hc] at hjob
  obtain ⟨job, hj⟩ := Option.isSome_iff_exists.1 (Option.some.inj hjob)
  exact ⟨c, job, hc, hj, (jobs_coherent ⟨_, _, _, hc⟩).1 _ _ hj⟩

end DocAuto.Pipeline
