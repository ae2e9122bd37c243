import DocAuto.Webhook.Served

/-! The system as the deliveries of one document see it: its rows, the executions of its
webhook jobs and these jobs. Every step of the system is a move of this machine. -/
namespace DocAuto.Webhook
open Process Database Pipeline

@[ext] structure Outbox where
  rows : List DeliveryRow
  couriers : ProcId → Option Courier
  jobs : Nat → Option Job

def couriersOf (d : Uuid) (procs : ProcId → Option Activity) (i : ProcId) : Option Courier :=
  ((procs i).bind courierOf).filter fun k => k.job.documentId == d

def jobsOf (d : Uuid) (jobs : JobId → Option Job) (n : Nat) : Option Job :=
  (jobs (.webhook n)).filter fun job => job.data.documentId == d

/-- The outbox of document `d`. -/
def outbox (c : Config) (d : Uuid) : Outbox where
  rows := c.world.db.webhookDeliveries.filter fun r => r.documentId == d
  couriers := couriersOf d c.procs
  jobs := jobsOf d c.world.jobs

namespace Outbox

def place (o : Outbox) (i : ProcId) (k : Option Courier) : Outbox :=
  { o with couriers := Function.update o.couriers i k }

def setJob (o : Outbox) (n : Nat) (job : Option Job) : Outbox :=
  { o with jobs := Function.update o.jobs n job }

/-- What the queue makes of an execution that ended. -/
def settle (o : Outbox) (i : ProcId) (n : Nat) (failed : Bool) : Outbox :=
  match o.jobs n with
  | some job => if job.state = .active i then o.setJob n (some (job.settle failed)) else o
  | none => o

theorem settle_active {o : Outbox} {i : ProcId} {n : Nat} {job : Job} {failed : Bool} (hj : o.jobs n = some job)
    (hst : job.state = .active i) : o.settle i n failed = o.setJob n (some (job.settle failed)) := by
  simp [settle, hj, hst]

/-- The effect of a command of an execution on the rows. -/
def Posting (rows : List DeliveryRow) : (c : Cmd) → Answer → Except Failure c.Resp → List DeliveryRow → Prop
  | _, .throws e, r, rows' => r = .error e ∧ rows' = rows
  | .tx (.countDeliveries _ _), _, r, rows' => r = .ok rows.length ∧ rows' = rows
  | .tx (.insertDelivery _ row), _, r, rows' =>
    (∃ e, r = .error e) ∧ rows' = rows ∨ r = .ok row.id ∧ (∀ x ∈ rows, x.id ≠ row.id) ∧ rows' = rows ++ [row]
  | .tx (.updateDelivery _ set id), _, r, rows' =>
    r = .ok () ∧ ∃ now, rows' = rows.map fun x => if x.id = id then set.apply now x else x
  | _, _, _, rows' => rows' = rows

section Posting
variable {c : Cmd} {answer : Answer} {r : Except Failure c.Resp} {rows rows' : List DeliveryRow}

/-- A command that fails leaves the rows. -/
theorem Posting.of_error {e : Failure} (h : Posting rows c answer r rows') (hr : r = .error e) : rows' = rows := by
  subst hr
  unfold Posting at h
  split at h
  · exact h.2
  · cases h.1
  · rcases h with h | h
    · exact h.2
    · cases h.1
  · cases h.1
  · exact h

/-- A command that writes no delivery leaves the rows. -/
theorem Posting.of_quiet (h : Posting rows c answer r rows') (hi : ∀ t row, c ≠ .tx (.insertDelivery t row))
    (hu : ∀ t set id, c ≠ .tx (.updateDelivery t set id)) : rows' = rows := by
  unfold Posting at h
  split at h
  · exact h.2
  · exact h.2
  · exact absurd rfl (hi _ _)
  · exact absurd rfl (hu _ _ _)
  · exact h

end Posting

/-- The moves of the machine. -/
inductive Move (d : Uuid) (o : Outbox) : Action → Outbox → Prop where
  | other {a} : Move d o a o
  | enqueue {a n t} : o.jobs n = none → Move d o a (o.setJob n (some ⟨{ documentId := d, tenantId := t }, .waiting, 0⟩))
  | start {i n draw job} : o.couriers i = none → o.jobs n = some job → job.state = .waiting ∨ job.state = .delayed →
    Move d o (.start i (.webhook n) draw)
      ((o.place i (some ⟨n, job.data, .read⟩)).setJob n (some { job with state := .active i }))
  | step {i answer k c r rows} : o.couriers i = some k → k.point.allows k.job c → Posting o.rows c answer r rows →
    Move d o (.step i answer) (({ o with rows := rows } : Outbox).place i (some { k with point := k.point.next k.job c r }))
  | finish {i k result} : o.couriers i = some k → k.point = .ended result →
    Move d o (.finish i) ((o.place i none).settle i k.serial (!result.isOk))
  | crash {i k} : o.couriers i = some k → Move d o (.crash i) (o.place i none)
  | stall {n job i} : o.jobs n = some job → job.state = .active i →
    Move d o (.stall (.webhook n)) (o.setJob n (some { job with state := .waiting }))
  | evict {n job} : o.jobs n = some job → job.state = .completed ∨ job.state = .failed →
    Move d o (.evict (.webhook n)) (o.setJob n none)

end Outbox

section Parts
variable {d : Uuid} {procs : ProcId → Option Activity} {jobs : JobId → Option Job} {i : ProcId} {n : Nat}

theorem couriersOf_update (q : Option Activity) : couriersOf d (Function.update procs i q) =
    Function.update (couriersOf d procs) i ((q.bind courierOf).filter fun k => k.job.documentId == d) := by
  funext j
  by_cases h : j = i
  · subst h
    simp [couriersOf]
  · simp [couriersOf, h]

/-- A process that is not about the document may come or go. -/
theorem couriersOf_same {q : Option Activity} (hp : couriersOf d procs i = none)
    (hq : (q.bind courierOf).filter (fun k => k.job.documentId == d) = none) :
    couriersOf d (Function.update procs i q) = couriersOf d procs := by
  rw [couriersOf_update, hq, ← hp, Function.update_eq_self]

theorem jobsOf_update (j : Option Job) : jobsOf d (Function.update jobs (.webhook n) j) =
    Function.update (jobsOf d jobs) n (j.filter fun job => job.data.documentId == d) := by
  funext m
  by_cases h : m = n
  · subst h
    simp [jobsOf]
  · simp [jobsOf, h]

theorem jobsOf_elsewhere {k : JobId} (hk : ∀ n, k ≠ .webhook n) (j : Option Job) :
    jobsOf d (Function.update jobs k j) = jobsOf d jobs := by
  funext m
  rw [jobsOf, Function.update_of_ne (hk m).symm]
  rfl

theorem jobsOf_same {j : Option Job} (hold : jobsOf d jobs n = none)
    (hnew : j.filter (fun job => job.data.documentId == d) = none) :
    jobsOf d (Function.update jobs (.webhook n) j) = jobsOf d jobs := by
  rw [jobsOf_update, hnew, ← hold, Function.update_eq_self]

theorem courierOf_elsewhere {k : JobId} (hk : ∀ n, k ≠ .webhook n) (data : JobData) (program : Proc Unit)
    (transcript : List (Event Cmd Cmd.Resp Failure)) : courierOf ⟨.job k data, program, transcript⟩ = none := by
  cases k with
  | webhook n => exact absurd rfl (hk n)
  | _ => rfl

theorem webhook_or (k : JobId) : (∃ n, k = .webhook n) ∨ ∀ n, k ≠ .webhook n := by
  cases k with
  | webhook n => exact .inl ⟨n, rfl⟩
  | _ => exact .inr (by rintro n ⟨⟩)

theorem jobsOf_some {job : Job} (h : jobs (.webhook n) = some job) :
    jobsOf d jobs n = if job.data.documentId = d then some job else none := by
  simp [jobsOf, h, Option.filter]

/-- What becomes of a job: a change of a job of the document, or nothing it sees. -/
theorem jobsOf_change {k : JobId} {job : Job} {j : Option Job} (hk : jobs k = some job)
    (hdata : ∀ x, j = some x → x.data = job.data) :
    (∃ n, k = .webhook n ∧ job.data.documentId = d ∧ jobsOf d jobs n = some job ∧
      jobsOf d (Function.update jobs k j) = Function.update (jobsOf d jobs) n j) ∨
    (∀ n, k = .webhook n → job.data.documentId ≠ d) ∧ jobsOf d (Function.update jobs k j) = jobsOf d jobs := by
  rcases webhook_or k with ⟨n, rfl⟩ | hother
  · have hold := jobsOf_some (d := d) hk
    by_cases hd : job.data.documentId = d
    · rw [if_pos hd] at hold
      have hseen : (j.filter fun x => x.data.documentId == d) = j := by
        cases j with
        | none => rfl
        | some x => exact if_pos (by simpa [hdata x rfl] using hd)
      refine .inl ⟨n, rfl, hd, hold, ?_⟩
      rw [jobsOf_update, hseen]
    · rw [if_neg hd] at hold
      have hunseen : (j.filter fun x => x.data.documentId == d) = none := by
        cases j with
        | none => rfl
        | some x => exact if_neg (by simpa [hdata x rfl] using hd)
      exact .inr ⟨fun _ _ => hd, jobsOf_same hold hunseen⟩
  · exact .inr ⟨fun n he => absurd he (hother n), jobsOf_elsewhere hother _⟩

theorem couriersOf_some {p : Activity} {k : Courier} (hp : procs i = some p) (hk : courierOf p = some k) :
    couriersOf d procs i = if k.job.documentId = d then some k else none := by
  simp [couriersOf, hp, hk, Option.filter]

end Parts

section Rows
variable {c c' : Config} {a : Action} {d : Uuid}

/-- All rows of the document of a job are rows of the tenant of the job. -/
theorem rows_tenant (hs : Served c) {job : JobData} (ho : Owns c job) {r : DeliveryRow}
    (hr : r ∈ c.world.db.webhookDeliveries) (hd : r.documentId = job.documentId) : r.tenantId = job.tenantId := by
  obtain ⟨x, hx, hxt⟩ := hs.owned r hr
  obtain ⟨y, hy, hyt⟩ := ho
  rw [hd] at hx
  obtain rfl := Option.some.inj (hx.symm.trans hy)
  exact hxt.symm.trans hyt

theorem courierOf_owner {p : Activity} {k : Courier} (hk : courierOf p = some k) :
    p.owner = .job (.webhook k.serial) k.job := by
  unfold courierOf at hk
  split at hk
  · next ho =>
    obtain rfl := Option.some.inj hk
    exact ho
  · cases hk

theorem couriersOf_inv {procs : ProcId → Option Activity} {i : ProcId} {k : Courier} (h : couriersOf d procs i = some k) :
    ∃ p, procs i = some p ∧ courierOf p = some k ∧ k.job.documentId = d := by
  obtain ⟨hb, hd⟩ := Option.filter_eq_some_iff.1 h
  obtain ⟨p, hp, hk⟩ := Option.bind_eq_some_iff.1 hb
  exact ⟨p, hp, hk, by simpa using hd⟩

theorem courier_issued {c : Config} {i : ProcId} {k : Courier} (hs : Served c) (h : (outbox c d).couriers i = some k) :
    i ∈ c.issued := by
  obtain ⟨p, hp, -, -⟩ := couriersOf_inv h
  exact hs.regular.drawn hp

/-- An update leaves every row with its document. -/
theorem rows_update (rows : List DeliveryRow) (t id : Uuid) (set : DeliveriesSet) (now : Timestamp) :
    ((rows.map fun r => if r.tenantId = t ∧ r.id = id then set.apply now r else r).filter fun r => r.documentId == d) =
      (rows.filter fun r => r.documentId == d).map fun r => if r.tenantId = t ∧ r.id = id then set.apply now r else r := by
  have hdoc : ((fun r : DeliveryRow => r.documentId == d) ∘
      fun r => if r.tenantId = t ∧ r.id = id then set.apply now r else r) = fun r => r.documentId == d := by
    funext r
    simp only [Function.comp_apply]
    split <;> rfl
  rw [List.filter_map, hdoc]

/-- An update of a row that belongs to another document. -/
theorem rows_update_other {rows : List DeliveryRow} {t id : Uuid} {set : DeliveriesSet} {now : Timestamp}
    (h : ∀ r ∈ rows, r.id = id → r.documentId ≠ d) :
    ((rows.map fun r => if r.tenantId = t ∧ r.id = id then set.apply now r else r).filter fun r => r.documentId == d) =
      rows.filter fun r => r.documentId == d := by
  rw [rows_update]
  refine (List.map_congr_left fun r hr => ?_).trans (List.map_id _)
  obtain ⟨hmem, hd⟩ := List.mem_filter.1 hr
  exact if_neg fun hid => h r hmem hid.2 (by simpa using hd)

/-- The row of an attempt belongs to the document of its job. -/
theorem inserted_document (hs : Served c) {job : JobData} {n : Nat} {id : Uuid} (hi : Inserted c job n id)
    {r : DeliveryRow} (hr : r ∈ c.world.db.webhookDeliveries) (hid : r.id = id) : r.documentId = job.documentId := by
  obtain ⟨x, hx, hxid, hxd, -, -⟩ := hi
  obtain rfl : r = x := List.inj_on_of_nodup_map hs.keyed hr hx (hid.trans hxid.symm)
  exact hxd

/-- A step of a process that is not about the document leaves its rows. -/
theorem rows_other (hs : Served c) {i : ProcId} {answer : Answer} (h : step c (.step i answer) = some c')
    (hi : couriersOf d c.procs i = none) : (outbox c' d).rows = (outbox c d).rows := by
  have hne : ∀ p k, c.procs i = some p → courierOf p = some k → k.job.documentId ≠ d := by
    intro p k hp hk hd
    rw [couriersOf_some hp hk, if_pos hd] at hi
    cases hi
  simp only [outbox]
  rcases step_deliveries hs h with he | ⟨i', p, k, ha, hp, hk, ⟨_, n, _, id, _, _, _, he⟩ | ⟨n, id, outcome, hpt, he⟩⟩
  · rw [he]
  · obtain ⟨rfl, -⟩ : i = i' ∧ answer = .execute := by simpa using ha
    rw [he, List.filter_append]
    simp [deliveryRow, hne p k hp hk]
  · obtain ⟨rfl, -⟩ : i = i' ∧ answer = .execute := by simpa using ha
    rw [he]
    refine rows_update_other fun r hr hid => ?_
    have hpl := hs.placed i p k hp hk
    rw [hpt] at hpl
    rw [inserted_document hs hpl hr hid]
    exact hne p k hp hk

/-- The commands of an execution act on the rows of its document. -/
theorem step_posting (hs : Served c) {i : ProcId} {answer : Answer} {p : Activity} {k : Courier} {cmd : Cmd}
    {next : Except Failure cmd.Resp → Proc Unit} {r : Except Failure cmd.Resp} {w : World}
    (hp : c.procs i = some p) (hk : courierOf p = some k) (hd : k.job.documentId = d)
    (hc : p.program = .call cmd next) (he : cmd.exec answer c.world = some (r, w)) :
    Outbox.Posting (outbox c d).rows cmd answer r (w.db.webhookDeliveries.filter fun r => r.documentId == d) := by
  have hall := courier_allows (hs.follows i p hp) hk hc
  have hpl := hs.placed i p k hp hk
  have hquiet : w.db.webhookDeliveries = c.world.db.webhookDeliveries →
      (w.db.webhookDeliveries.filter fun r => r.documentId == d) = (outbox c d).rows := fun h => by rw [h]; rfl
  by_cases ha : ∃ e, answer = .throws e
  · obtain ⟨e, rfl⟩ := ha
    obtain ⟨rfl, rfl⟩ : .error e = r ∧ c.world = w := by simpa [Cmd.exec] using he
    exact ⟨rfl, rfl⟩
  have hsame : ∀ x : Tx, cmd = .tx x → TableName.webhookDeliveries ∉ x.tables →
      w.db.webhookDeliveries = c.world.db.webhookDeliveries := by
    rintro x rfl hx
    cases answer with
    | execute =>
      obtain ⟨-, rfl⟩ : _ = r ∧ _ = w := by simpa [Cmd.exec] using he
      exact Tx.run_same (T := .webhookDeliveries) true hx
    | throws e => exact absurd ⟨e, rfl⟩ ha
    | _ => cases he
  rcases hpt : k.point with _ | s | ⟨s, n⟩ | ⟨s, n, payload⟩ | ⟨s, n, payload, id⟩ | ⟨n, id, outcome⟩ | ⟨n, outcome⟩ | result <;>
    rw [hpt] at hall hpl
  · obtain rfl := hall
    have hrows := hquiet (hsame _ rfl (by simp [Tx.tables]))
    cases answer <;> first | exact hrows | exact absurd ⟨_, rfl⟩ ha
  · obtain rfl := hall
    cases answer with
    | execute =>
      obtain ⟨rfl, rfl⟩ : _ = r ∧ _ = w := by simpa [Cmd.exec] using he
      refine ⟨?_, by rw [Tx.countDeliveries_run]; rfl⟩
      rw [Tx.countDeliveries_run]
      refine congrArg (fun rows => Except.ok (List.length rows)) (List.filter_congr fun r hr => ?_)
      have hb : (r.documentId == k.job.documentId) = (r.documentId == d) := by rw [hd]
      rw [hb]
      by_cases hrd : r.documentId = d
      · simp [rows_tenant hs hpl hr (hrd.trans hd.symm), hrd]
      · simp [hrd]
    | throws e => exact absurd ⟨e, rfl⟩ ha
    | _ => cases he
  · obtain rfl := hall
    have hrows := hquiet (hsame _ rfl (by simp [Tx.tables]))
    cases answer <;> first | exact hrows | exact absurd ⟨_, rfl⟩ ha
  · obtain ⟨id, rfl⟩ := hall
    cases answer with
    | execute =>
      obtain ⟨rfl, rfl⟩ : _ = r ∧ _ = w := by simpa [Cmd.exec] using he
      rcases insertion_run c.world.db k.job (n + 1) id with ⟨e, hrun⟩ | ⟨hrun, hnew⟩
      · exact .inl ⟨⟨e, by rw [hrun]⟩, by rw [hrun]; rfl⟩
      · refine .inr ⟨by rw [hrun]; rfl, fun x hx => hnew x (List.mem_of_mem_filter hx), ?_⟩
        rw [hrun]
        show List.filter _ (_ ++ [_]) = _
        rw [List.filter_append]
        simp [outbox, deliveryRow, hd]
    | throws e => exact absurd ⟨e, rfl⟩ ha
    | _ => cases he
  · obtain rfl := hall
    cases answer with
    | response res =>
      obtain ⟨-, rfl⟩ : _ = r ∧ c.world = w := by simpa [Cmd.exec] using he
      exact hquiet rfl
    | throws e => exact absurd ⟨e, rfl⟩ ha
    | _ => cases he
  · obtain rfl := hall
    cases answer with
    | execute =>
      obtain ⟨rfl, rfl⟩ : _ = r ∧ _ = w := by simpa [Cmd.exec] using he
      refine ⟨by rw [Tx.updateDelivery_run], c.world.db.now, ?_⟩
      rw [Tx.updateDelivery_run]
      show List.filter _ (List.map _ _) = _
      rw [rows_update]
      refine List.map_congr_left fun r hr => if_congr (and_iff_right_of_imp fun hid => ?_) rfl rfl
      obtain ⟨x, hx, hxid, -, hxt, -⟩ := hpl
      obtain rfl : r = x := List.inj_on_of_nodup_map hs.keyed (List.mem_of_mem_filter hr) hx (hid.trans hxid.symm)
      exact hxt
    | throws e => exact absurd ⟨e, rfl⟩ ha
    | _ => cases he
  · obtain rfl := hall
    have hrows := hquiet (hsame _ rfl (by simp [Tx.tables]))
    cases answer <;> first | exact hrows | exact absurd ⟨_, rfl⟩ ha
  · exact hall.elim

theorem fresh_idle (hs : Served c) {id : ProcId} {ids : List Uuid} (h : c.fresh (id :: ids) = true) : c.procs id = none := by
  cases hp : c.procs id with
  | none => rfl
  | some p =>
    exact absurd (hs.regular.drawn hp) (((fresh_iff 0).1 h).1 id (by simp))

end Rows

section Steps
variable {c c' : Config} {d : Uuid} {id : ProcId} {p : Activity}

/-- A process seen with no execution of the document has none of it. -/
theorem courier_elsewhere (hp : c.procs id = some p) (hk : couriersOf d c.procs id = none) :
    (courierOf p).filter (fun k => k.job.documentId == d) = none := by
  rw [couriersOf, hp, Option.bind_some] at hk
  exact hk

theorem start_outbox {jobId : JobId} {draw : Uuid} {job : Job} (hs : Served c) (hj : c.world.jobs jobId = some job)
    (hst : job.state = .waiting ∨ job.state = .delayed) (hfresh : c.fresh [id, draw] = true) :
    Outbox.Move d (outbox c d) (.start id jobId draw)
      (outbox { c.spawn id [draw] (.job jobId job.data) (processor jobId job.data draw) with
        world := c.world.setJob jobId (some { job with state := .active id }) } d) := by
  have hidle : couriersOf d c.procs id = none := by
    rw [couriersOf, fresh_idle hs hfresh]
    rfl
  rcases jobsOf_change (d := d) (j := some { job with state := .active id }) hj (by rintro _ ⟨⟩; rfl) with
    ⟨n, rfl, hd, hold, hjobs⟩ | ⟨hother, hjobs⟩
  · convert Outbox.Move.start (d := d) (o := outbox c d) hidle hold hst using 1
    refine Outbox.ext rfl ((couriersOf_update _).trans (congrArg (Function.update _ id) ?_)) hjobs
    exact if_pos (by simpa using hd)
  · convert Outbox.Move.other using 1
    refine Outbox.ext rfl (couriersOf_same hidle ?_) hjobs
    rcases webhook_or jobId with ⟨n, rfl⟩ | hk
    · exact if_neg (by simpa using hother n rfl)
    · rw [Option.bind_some, courierOf_elsewhere hk]
      rfl

/-- A step of a process that is not about the document can only enqueue a job of it. -/
theorem bystander_outbox {answer : Answer} (hs : Served c) (h : step c (.step id answer) = some c')
    (hk : couriersOf d c.procs id = none) : Outbox.Move d (outbox c d) (.step id answer) (outbox c' d) := by
  have hrows := rows_other (d := d) hs h hk
  obtain ⟨p, cmd, next, r, w, hp, hc, he, rfl⟩ := step_advance h
  have hplace : couriersOf d (Function.update c.procs id
      (some { p with program := next r, transcript := ⟨cmd, r⟩ :: p.transcript })) = couriersOf d c.procs := by
    refine couriersOf_same hk ?_
    have hold := courier_elsewhere hp hk
    rw [Option.bind_some, courierOf_advance]
    cases hcour : courierOf p with
    | none => rfl
    | some k =>
      rw [hcour] at hold
      exact if_neg fun hd => by simp [Option.filter, hd] at hold
  rcases exec_webhookJobs hs.regular.valid hp hc he with ⟨-, hj⟩ | ⟨d', t, -, -, -, hj⟩
  · convert Outbox.Move.other using 1
    exact Outbox.ext hrows hplace (funext fun n => congrArg (Option.filter _) (hj n))
  · have hnone : c.world.jobs (.webhook c.world.serial) = none := hs.unissued _ le_rfl
    have hadd : w.jobs = Function.update c.world.jobs (.webhook c.world.serial)
        (some ⟨{ documentId := d', tenantId := t }, .waiting, 0⟩) := by
      rw [hj, World.add, if_neg (by simp [hnone])]
    have hold : jobsOf d c.world.jobs c.world.serial = none := by
      rw [jobsOf, hnone]
      rfl
    by_cases hd : d' = d
    · subst hd
      convert Outbox.Move.enqueue (d := d') (o := outbox c d') (t := t) hold using 1
      refine Outbox.ext hrows hplace ?_
      simp only [outbox, hadd]
      exact (jobsOf_update _).trans (congrArg (Function.update _ _) (if_pos (by simp)))
    · convert Outbox.Move.other using 1
      refine Outbox.ext hrows hplace ?_
      simp only [outbox, hadd]
      exact jobsOf_same hold (if_neg (by simpa using hd))

/-- A step of an execution for the document. -/
theorem courier_outbox {answer : Answer} {k : Courier} (hs : Served c) (h : step c (.step id answer) = some c')
    (hk : couriersOf d c.procs id = some k) : Outbox.Move d (outbox c d) (.step id answer) (outbox c' d) := by
  obtain ⟨p, cmd, next, r, w, hp, hc, he, rfl⟩ := step_advance h
  obtain ⟨q, hq, hcour, hd⟩ := couriersOf_inv hk
  obtain rfl := Option.some.inj (hp.symm.trans hq)
  have hall := courier_allows (hs.follows id p hp) hcour hc
  convert Outbox.Move.step (d := d) (o := outbox c d) hk hall (step_posting hs hp hcour hd hc he) using 1
  refine Outbox.ext rfl ?_ ?_
  · refine (couriersOf_update _).trans (congrArg (Function.update _ id) ?_)
    rw [Option.bind_some, courierOf_advance, hcour]
    exact if_pos (by simpa using hd)
  · -- an execution of a webhook job enqueues none
    rcases exec_webhookJobs hs.regular.valid hp hc he with ⟨-, hj⟩ | ⟨d', t, rfl, -⟩
    · exact funext fun n => congrArg (Option.filter _) (hj n)
    · cases hpt : k.point <;> rw [hpt] at hall <;> cases hall
      rename_i h
      cases h

/-- The end of a process that is not about the document. -/
theorem bystander_finish {failed : Bool} (hs : Served c) (hp : c.procs id = some p)
    (hk : couriersOf d c.procs id = none) :
    outbox { c.kill id with world := c.world.settle id p.owner failed } d = outbox c d := by
  have hrows : ((c.world.settle id p.owner failed).db.webhookDeliveries.filter fun r => r.documentId == d) =
      (outbox c d).rows := by
    rw [World.settle_db]
    rfl
  refine Outbox.ext hrows (couriersOf_same hk rfl) (funext fun n => ?_)
  rcases settle_jobs c.world id p.owner failed (.webhook n) with hj | ⟨job, data, ho, hj, -, hj'⟩
  · exact congrArg (Option.filter _) hj
  · have hdata := hs.carried id p n data hp ho job hj
    have hne : data.documentId ≠ d := by
      intro hd
      have hc : courierOf p = some ⟨n, data, pointOf data p.transcript⟩ := by
        unfold courierOf
        rw [ho]
      rw [couriersOf_some hp hc, if_pos hd] at hk
      cases hk
    have hold : jobsOf d c.world.jobs n = none := by rw [jobsOf_some hj, if_neg (hdata ▸ hne)]
    have hnew : jobsOf d (c.world.settle id p.owner failed).jobs n = none := by
      rw [jobsOf_some hj', if_neg (by rw [settle_data, hdata]; exact hne)]
    exact hnew.trans hold.symm

/-- The end of an execution for the document. -/
theorem courier_finish {failed : Bool} {k : Courier} (hs : Served c) (hp : c.procs id = some p)
    (he : p.ended = some failed) (hk : couriersOf d c.procs id = some k) :
    Outbox.Move d (outbox c d) (.finish id)
      (outbox { c.kill id with world := c.world.settle id p.owner failed } d) := by
  obtain ⟨q, hq, hcour, hd⟩ := couriersOf_inv hk
  obtain rfl := Option.some.inj (hp.symm.trans hq)
  obtain ⟨result, hpt, rfl⟩ := courier_ended (hs.follows id p hp) hcour he
  have ho := courierOf_owner hcour
  have hrows : ((c.world.settle id p.owner (!result.isOk)).db.webhookDeliveries.filter fun r => r.documentId == d) =
      (outbox c d).rows := by
    rw [World.settle_db]
    rfl
  have hplace : couriersOf d (Function.update c.procs id none) = Function.update (outbox c d).couriers id none :=
    couriersOf_update none
  convert Outbox.Move.finish (d := d) (o := outbox c d) hk hpt using 1
  cases hj : c.world.jobs (.webhook k.serial) with
  | none =>
    have hold : (outbox c d).jobs k.serial = none := by simp [outbox, jobsOf, hj]
    simp only [Outbox.settle, Outbox.place, hold]
    refine Outbox.ext hrows hplace ?_
    simp only [outbox, World.settle, ho, hj]
  | some job =>
    have hdata : job.data.documentId = d := by
      rw [hs.carried id p _ _ hp ho job hj]
      exact hd
    have hold : (outbox c d).jobs k.serial = some job := (jobsOf_some hj).trans (if_pos hdata)
    simp only [Outbox.settle, Outbox.place, hold]
    by_cases hst : job.state = .active id
    · rw [if_pos hst]
      refine Outbox.ext hrows hplace ?_
      simp only [outbox, World.settle, ho, hj, if_pos hst, World.setJob, Outbox.setJob]
      refine (jobsOf_update _).trans (congrArg (Function.update _ _) (if_pos ?_))
      simpa [settle_data] using hdata
    · rw [if_neg hst]
      refine Outbox.ext hrows hplace ?_
      simp only [outbox, World.settle, ho, hj, if_neg hst]

end Steps

/-- Every step of the system is a move of the outbox. -/
theorem step_outbox {c c' : Config} {a : Action} (d : Uuid) (hs : Served c) (h : step c a = some c') :
    Outbox.Move d (outbox c d) a (outbox c' d) := by
  cases step_turn h with
  | @call id call hfresh =>
    have ho : outbox (c.spawn id call.draws (.api call) call.program) d = outbox c d :=
      Outbox.ext rfl (couriersOf_same (by rw [couriersOf, fresh_idle hs hfresh]; rfl) rfl) rfl
    rw [ho]
    exact .other
  | start hj hst hfresh => exact start_outbox hs hj hst hfresh
  | @step id answer _ _ _ _ _ _ _ _ =>
    cases hk : couriersOf d c.procs id with
    | none => exact bystander_outbox hs h hk
    | some k => exact courier_outbox hs h hk
  | @finish id p failed hp he =>
    cases hk : couriersOf d c.procs id with
    | none =>
      rw [bystander_finish hs hp hk]
      exact .other
    | some k => exact courier_finish hs hp he hk
  | @crash id p hp =>
    cases hk : couriersOf d c.procs id with
    | none =>
      convert Outbox.Move.other using 1
      exact Outbox.ext rfl (couriersOf_same hk rfl) rfl
    | some k =>
      convert Outbox.Move.crash (d := d) (o := outbox c d) hk using 1
      exact Outbox.ext rfl (couriersOf_update none) rfl
  | @stall jobId job i hj hst =>
    rcases jobsOf_change (d := d) (j := some { job with state := .waiting }) hj (by rintro _ ⟨⟩; rfl) with
      ⟨n, rfl, -, hold, hjobs⟩ | ⟨-, hjobs⟩
    · convert Outbox.Move.stall (d := d) (o := outbox c d) hold hst using 1
      exact Outbox.ext rfl rfl hjobs
    · convert Outbox.Move.other using 1
      exact Outbox.ext rfl rfl hjobs
  | @evict jobId job hj hst =>
    rcases jobsOf_change (d := d) (j := none) hj (by rintro _ ⟨⟩) with ⟨n, rfl, -, hold, hjobs⟩ | ⟨-, hjobs⟩
    · convert Outbox.Move.evict (d := d) (o := outbox c d) hold hst using 1
      exact Outbox.ext rfl rfl hjobs
    · convert Outbox.Move.other using 1
      exact Outbox.ext rfl rfl hjobs
  | tick => exact .other

end DocAuto.Webhook
