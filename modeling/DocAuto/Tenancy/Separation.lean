import DocAuto.Process.Simulation
import DocAuto.Tenancy.Residents

/-! A system that tenants share, as one of them sees it: a system of its own. Only the numbers
that the queue gives to webhook jobs tell the two apart. -/
namespace DocAuto
open Process Database Pipeline
open Webhook (Owns)

namespace Pipeline

def JobId.renumber (ρ : Nat → Nat) : JobId → JobId
  | .webhook n => .webhook (ρ n)
  | j => j

def Owner.renumber (ρ : Nat → Nat) : Owner → Owner
  | .job j data => .job (j.renumber ρ) data
  | o => o

def Activity.renumber (ρ : Nat → Nat) (p : Activity) : Activity := { p with owner := p.owner.renumber ρ }

def Action.renumber (ρ : Nat → Nat) : Action → Action
  | .start id j draw => .start id (j.renumber ρ) draw
  | .stall j => .stall (j.renumber ρ)
  | .evict j => .evict (j.renumber ρ)
  | a => a

theorem JobId.renumber_injective {ρ : Nat → Nat} (h : StrictMono ρ) : Function.Injective (JobId.renumber ρ) := by
  intro j j' he
  cases j <;> cases j' <;> simp_all [JobId.renumber, h.injective.eq_iff]

/-- Numberings that agree on a job's number agree on the job. -/
theorem JobId.renumber_congr {ρ σ : Nat → Nat} {j : JobId} (h : ∀ n, j = .webhook n → σ n = ρ n) :
    j.renumber σ = j.renumber ρ := by
  cases j with
  | webhook n => exact congrArg JobId.webhook (h n rfl)
  | ocr _ _ | extraction _ _ => rfl

theorem World.setJob_self (w : World) (j : JobId) (job : Option Job) : (w.setJob j job).jobs j = job := Function.update_self ..

theorem World.setJob_of_ne (w : World) {i j : JobId} (job : Option Job) (h : i ≠ j) : (w.setJob j job).jobs i = w.jobs i :=
  Function.update_of_ne h ..

theorem Owner.renumber_tenantId (ρ : Nat → Nat) (o : Owner) : (o.renumber ρ).tenantId = o.tenantId := by cases o <;> rfl

end Pipeline

namespace Tenancy

/-- The actions of a tenant's own system that stand for actions of the shared one. -/
def Matches (b a : Action) : Prop := ∃ ρ, b.renumber ρ = a

/-- `v` is the part of the tenant in `w`, with `ρ` for the numbers of its webhook jobs. -/
structure Share (t : Uuid) (ρ : Nat → Nat) (w v : World) : Prop where
  db : v.db = own t w.db
  jobs : ∀ j, v.jobs j = (w.jobs (j.renumber ρ)).filter (·.data.tenantId == t)
  onto : ∀ j job, w.jobs j = some job → job.data.tenantId = t → ∃ j' : JobId, j'.renumber ρ = j
  mono : StrictMono ρ
  top : ∀ m, ρ (v.serial + m) = w.serial + m

/-- The same, of the whole configuration: the tenant's processes run the same programs after the same answers. -/
structure Separate (t : Uuid) (ρ : Nat → Nat) (c s : Config) : Prop where
  world : Share t ρ c.world s.world
  procs : ∀ i, (s.procs i).map (Activity.renumber ρ) = (c.procs i).filter (·.owner.tenantId == t)
  issued : s.issued ⊆ c.issued

section Rows
variable {t t' d : Uuid} {db db' : Db}

private theorem owns_apart (hs : db.Sound) (hne : t ≠ t') (h : db.ownsDocument t d = true) : db.ownsDocument t' d = false := by
  by_contra hn
  obtain ⟨r, hr, ht⟩ := (ownsDocument_iff hs).1 h
  obtain ⟨r', hr', ht'⟩ := (ownsDocument_iff hs).1 (Bool.not_eq_false _ ▸ hn)
  obtain rfl := Option.some.inj (hr.symm.trans hr')
  exact hne (ht.symm.trans ht')

private theorem filter_apart {α : Type} {rows : List α} {p q : α → Bool} (h : ∀ r ∈ rows, p r = true → q r = false) :
    (rows.filter fun r => !q r).filter p = rows.filter p := by
  rw [List.filter_filter]
  refine List.filter_congr fun r hr => ?_
  cases hp : p r with
  | false => rfl
  | true => simp [h r hr hp]

private theorem own_others (hs : db.Sound) (hne : t ≠ t') : own t (others t' db) = own t db := by
  have hkey : ∀ x : Uuid, (x == t) = true → (x == t') = false := by
    intro x hx
    rw [beq_iff_eq.1 hx]
    exact beq_false_of_ne hne
  have hdocs : (others t' db).documents.filter (·.tenantId == t) = db.documents.filter (·.tenantId == t) :=
    filter_apart fun r _ => hkey r.tenantId
  have howns : ∀ d, (others t' db).ownsDocument t d = db.ownsDocument t d := by
    intro d
    have hany : ∀ b : Db, b.ownsDocument t d = (b.documents.filter (·.tenantId == t)).any (·.id == d) := by
      intro b
      rw [Db.ownsDocument, List.any_filter]
      exact congrArg (b.documents.any ·) (funext fun r => Bool.and_comm _ _)
    rw [hany, hdocs, ← hany]
  have htenants : (others t' db).tenants.filter (·.id == t) = db.tenants.filter (·.id == t) :=
    filter_apart fun r _ => hkey r.id
  have husers : (others t' db).users.filter (·.tenantId == t) = db.users.filter (·.tenantId == t) :=
    filter_apart fun r _ => hkey r.tenantId
  have hdeliveries : (others t' db).webhookDeliveries.filter (·.tenantId == t) =
      db.webhookDeliveries.filter (·.tenantId == t) := filter_apart fun r _ => hkey r.tenantId
  have hextractions : (others t' db).documentsExtraction.filter (fun r => db.ownsDocument t r.documentId) =
      db.documentsExtraction.filter fun r => db.ownsDocument t r.documentId := filter_apart fun r _ => owns_apart hs hne
  have haudit : (others t' db).documentAuditLog.filter (fun r => db.ownsDocument t r.documentId) =
      db.documentAuditLog.filter fun r => db.ownsDocument t r.documentId := filter_apart fun r _ => owns_apart hs hne
  rw [own, own, htenants, husers, hdocs, hdeliveries]
  simp only [howns, hextractions, haudit]
  rfl

/-- What leaves the rows of all but one tenant alone leaves the rows of every other alone. -/
theorem own_of_others (hs : db.Sound) (hs' : db'.Sound) (hne : t ≠ t') (h : others t' db' = others t' db) :
    own t db' = own t db := by
  rw [← own_others hs' hne, h, own_others hs hne]

end Rows

namespace Share
variable {t : Uuid} {ρ : Nat → Nat} {w v : World} {j : JobId} {data : JobData} {new : Option Job}

theorem job_iff (h : Share t ρ w v) {job : Job} :
    v.jobs j = some job ↔ w.jobs (j.renumber ρ) = some job ∧ job.data.tenantId = t := by
  rw [h.jobs, Option.filter_eq_some_iff, beq_iff_eq]

/-- A job of the tenant changes in both. -/
theorem setOwn (h : Share t ρ w v) (hnew : ∀ x, new = some x → x.data.tenantId = t) :
    Share t ρ (w.setJob (j.renumber ρ) new) (v.setJob j new) where
  db := h.db
  jobs i := by
    by_cases hi : i = j
    · subst hi
      rw [World.setJob_self, World.setJob_self]
      cases new with
      | none => rfl
      | some x => rw [Option.filter_some, if_pos (beq_iff_eq.2 (hnew x rfl))]
    · have hne : i.renumber ρ ≠ j.renumber ρ := fun he => hi (JobId.renumber_injective h.mono he)
      rw [World.setJob_of_ne _ _ hi, World.setJob_of_ne _ _ hne]
      exact h.jobs i
  onto i job hi ht := by
    by_cases he : i = j.renumber ρ
    · exact ⟨j, he.symm⟩
    · rw [World.setJob_of_ne _ _ he] at hi
      exact h.onto i job hi ht
  mono := h.mono
  top := h.top

/-- A job of another tenant changes without the tenant's noticing. -/
theorem setOther (h : Share t ρ w v) (hold : ∀ x, w.jobs j = some x → x.data.tenantId ≠ t)
    (hnew : ∀ x, new = some x → x.data.tenantId ≠ t) : Share t ρ (w.setJob j new) v where
  db := h.db
  jobs i := by
    have hnone : ∀ {x : Option Job}, (∀ y, x = some y → y.data.tenantId ≠ t) → x.filter (·.data.tenantId == t) = none := by
      intro x hx
      cases x with
      | none => rfl
      | some y => rw [Option.filter_some, if_neg (by simpa using hx y rfl)]
    by_cases hi : i.renumber ρ = j
    · rw [h.jobs, hi, World.setJob_self, hnone hold, hnone hnew]
    · rw [World.setJob_of_ne _ _ hi]
      exact h.jobs i
  onto i job hi ht := by
    by_cases he : i = j
    · subst he
      rw [World.setJob_self] at hi
      exact absurd ht (hnew job hi)
    · rw [World.setJob_of_ne _ _ he] at hi
      exact h.onto i job hi ht
  mono := h.mono
  top := h.top

/-- A job that the tenant adds is there in both, or in neither. -/
theorem addOwn (h : Share t ρ w v) (ht : data.tenantId = t)
    (hold : ∀ job, w.jobs (j.renumber ρ) = some job → job.data.tenantId = t) :
    Share t ρ (w.add (j.renumber ρ) data) (v.add j data) := by
  unfold World.add
  cases hj : w.jobs (j.renumber ρ) with
  | some job =>
    rw [h.job_iff.2 ⟨hj, hold job hj⟩]
    exact h
  | none =>
    have hv : v.jobs j = none := by rw [h.jobs, hj]; rfl
    rw [hv]
    refine h.setOwn ?_
    rintro x ⟨⟩
    exact ht

theorem addOther (h : Share t ρ w v) (ht : data.tenantId ≠ t) : Share t ρ (w.add j data) v := by
  unfold World.add
  split
  · exact h
  · next hj =>
    refine h.setOther (fun x hx => absurd (by rw [hx]; rfl) hj) ?_
    rintro x ⟨⟩
    exact ht

/-- A webhook job that the tenant adds gets the next number in each. -/
theorem announceOwn (h : Share t ρ w v) (ht : data.tenantId = t) (hunissued : w.jobs (.webhook w.serial) = none) :
    Share t ρ { w.add (.webhook w.serial) data with serial := w.serial + 1 }
      { v.add (.webhook v.serial) data with serial := v.serial + 1 } := by
  have hnumber : JobId.webhook w.serial = (JobId.webhook v.serial).renumber ρ := congrArg JobId.webhook (h.top 0).symm
  have hadd := h.addOwn (j := .webhook v.serial) ht fun job hj => by
    rw [← hnumber, hunissued] at hj
    cases hj
  rw [← hnumber] at hadd
  refine ⟨hadd.db, hadd.jobs, hadd.onto, hadd.mono, fun m => ?_⟩
  calc ρ (v.serial + 1 + m) = ρ (v.serial + (m + 1)) := congrArg ρ (by omega)
    _ = w.serial + (m + 1) := h.top (m + 1)
    _ = w.serial + 1 + m := by omega

theorem low (h : Share t ρ w v) {m : Nat} (hm : m < v.serial) : ρ m < w.serial := (h.mono hm).trans_eq (h.top 0)

theorem high (h : Share t ρ w v) {m : Nat} (hm : v.serial ≤ m) : w.serial ≤ ρ m := by
  obtain ⟨n, rfl⟩ := Nat.exists_eq_add_of_le hm
  rw [h.top]
  exact Nat.le_add_right _ _

/-- The numbering after another tenant has taken a number. -/
def shift (ρ : Nat → Nat) (n m : Nat) : Nat := if m < n then ρ m else ρ m + 1

/-- One that another tenant adds moves the numbers still to come. -/
theorem announceOther (h : Share t ρ w v) (ht : data.tenantId ≠ t)
    (hunissued : ∀ n, w.serial ≤ n → w.jobs (.webhook n) = none) :
    Share t (shift ρ v.serial) { w.add (.webhook w.serial) data with serial := w.serial + 1 } v := by
  have hadd := h.addOther (j := .webhook w.serial) ht
  have hvacant : ∀ n job, w.serial ≤ n → (w.add (.webhook w.serial) data).jobs (.webhook n) = some job →
      n = w.serial ∧ job.data = data := by
    intro n job hn hjob
    rcases add_origin hjob with hold | ⟨hk, hdata⟩
    · rw [hunissued n hn] at hold
      cases hold
    · exact ⟨JobId.webhook.inj hk, hdata⟩
  refine ⟨hadd.db, fun i => ?_, fun i job hi hit => ?_, fun a b hab => ?_, fun m => ?_⟩
  · cases i with
    | ocr d run | extraction d run => exact hadd.jobs _
    | webhook m =>
      by_cases hm : m < v.serial
      · exact (hadd.jobs _).trans (by rw [JobId.renumber_congr (σ := shift ρ v.serial) fun n hn => ?_]; cases hn; exact if_pos hm)
      · have hle := h.high (Nat.le_of_not_lt hm)
        have hv : v.jobs (.webhook m) = none := by rw [h.jobs, JobId.renumber, hunissued _ hle]; rfl
        have hw : (w.add (.webhook w.serial) data).jobs (.webhook (ρ m + 1)) = none := by
          refine Option.eq_none_iff_forall_ne_some.2 fun job hjob => ?_
          have := (hvacant (ρ m + 1) job (Nat.le_succ_of_le hle) hjob).1
          omega
        rw [hv, JobId.renumber, shift, if_neg hm]
        exact (congrArg (Option.filter _) hw).symm
  · obtain ⟨j, rfl⟩ := hadd.onto i job hi hit
    refine ⟨j, JobId.renumber_congr fun m hm => ?_⟩
    subst hm
    by_cases hm : m < v.serial
    · exact if_pos hm
    · exact absurd ((hvacant (ρ m) job (h.high (Nat.le_of_not_lt hm)) hi).2 ▸ hit) ht
  · have hlt := h.mono hab
    unfold shift
    split_ifs <;> omega
  · rw [shift, if_neg (Nat.not_lt.2 (Nat.le_add_right _ _)), h.top]
    exact (Nat.succ_add _ _).symm

end Share

section Queues
variable {c : Config} {i : ProcId} {p : Activity} {data data' : JobData} {j : JobId} {job : Job} {d t : Uuid}

private theorem owns_same (h : Owns c data) (h' : Owns c data') (hd : data.documentId = data'.documentId) :
    data.tenantId = data'.tenantId := by
  obtain ⟨r, hr, ht⟩ := h
  obtain ⟨r', hr', ht'⟩ := h'
  rw [hd] at hr
  obtain rfl := Option.some.inj (hr.symm.trans hr')
  exact ht.symm.trans ht'

/-- A process adds jobs of its tenant. -/
theorem queueAdd_tenant (hc : c.Coherent) {next : Except Failure Unit → Proc Unit} (hp : c.procs i = some p)
    (hq : p.program = .call (.queueAdd data j) next) : data.tenantId = p.owner.tenantId := by
  have hr := hc.served.regular
  have hall := hr.valid.allows hp hq
  have hplaced := (hr.standing data.documentId).orderly.points i p.position (Config.view_position hp)
  change View.placed _ _ p.owner p.point at hplaced
  cases hpt : p.point with
  | aside | lost | review _ | reset _ _ _ _ =>
    rw [hpt] at hall
    cases hall
  | upload up id u =>
    rw [hpt] at hall hplaced
    cases u <;> cases hall
    rw [hplaced.1]
    rfl
  | reopen t d run =>
    rw [hpt] at hall hplaced
    obtain ⟨⟨actorId, ho⟩, -⟩ := hplaced
    cases hall
    rw [ho]
    rfl
  | ocr job o =>
    rw [hpt] at hall hplaced
    cases o <;> cases hall
    rw [hplaced.1]
    exact hplaced.2 rfl _ rfl
  | extraction job e =>
    rw [hpt] at hall
    cases e <;> cases hall

/-- Jobs of one id are of one tenant: the one to be added, and the one there. -/
theorem queueAdd_same (hc : c.Coherent) {next : Except Failure Unit → Proc Unit} (hp : c.procs i = some p)
    (hq : p.program = .call (.queueAdd data j) next) (hj : c.world.jobs j = some job) : job.data.tenantId = data.tenantId := by
  have hr := hc.served.regular
  have hall := hr.valid.allows hp hq
  have hord := (hr.standing data.documentId).orderly
  have hfit := fits_add (fun j' data' ho => hord.owners i p.position j' data' (Config.view_position hp) ho)
    (hord.points i p.position (Config.view_position hp)) hall
  obtain ⟨d, run, hsubject⟩ : ∃ d run, j.subject = some (d, run) := by
    cases j with
    | webhook n => exact absurd rfl (Webhook.queued_elsewhere hall n)
    | ocr d run | extraction d run => exact ⟨d, run, rfl⟩
  have hold := hord.jobs j job hj d run hsubject
  exact owns_same (hc.jobs j job hj) (queueAdd_owned hc hp hq) (hold.1.trans (hfit d run hsubject).1.symm)

theorem webhookQueueAdd_tenant (hc : c.Coherent) {next : Except Failure Unit → Proc Unit} (hp : c.procs i = some p)
    (hq : p.program = .call (.webhookQueueAdd d t) next) : t = p.owner.tenantId := by
  have hi : p.owner.issues (.webhookQueueAdd d t) := (hc.served.footprints i p hp).allows hq
  cases ho : p.owner with
  | api call =>
    rw [ho] at hi
    cases call with
    | approve _ _ _ | reject _ _ _ _ => exact hi.1.symm
    | _ => exact hi.elim
  | job j data =>
    rw [ho] at hi
    cases j with
    | extraction _ _ => exact hi.1.symm
    | _ => exact hi.elim

/-- An execution is of the tenant of its job. -/
theorem execution_tenant (hc : c.Coherent) (hp : c.procs i = some p) (ho : p.owner = .job j data)
    (hj : c.world.jobs j = some job) : job.data.tenantId = data.tenantId := by
  cases j with
  | webhook n => rw [hc.served.carried i p n data hp ho job hj]
  | ocr d run | extraction d run =>
    have hord := (hc.served.regular.standing d).orderly
    have hold := hord.jobs _ job hj d run rfl
    have hexec := hord.owners i p.position _ data (Config.view_position hp) ho d run rfl
    exact owns_same (hc.jobs _ job hj) (hc.executions i p _ data hp ho) (hold.1.trans hexec.1.symm)

end Queues
namespace Separate
variable {t : Uuid} {ρ σ : Nat → Nat} {c s : Config} {i : ProcId}

/-- A process of the tenant is there in both. -/
theorem proc (h : Separate t ρ c s) {p : Activity} (hp : c.procs i = some p) (ht : p.owner.tenantId = t) :
    ∃ q, s.procs i = some q ∧ q.renumber ρ = p := by
  have hi := h.procs i
  rw [hp, Option.filter_some, if_pos (beq_iff_eq.2 ht)] at hi
  exact Option.map_eq_some_iff.1 hi

/-- The tenant's own system goes on without the steps of others. -/
theorem idle (h : Separate t ρ c s) (hi : ∀ p, c.procs i = some p → p.owner.tenantId ≠ t) {x : Option Activity}
    (hx : ∀ p, x = some p → p.owner.tenantId ≠ t) (k : ProcId) :
    (s.procs k).map (Activity.renumber ρ) = (Function.update c.procs i x k).filter (·.owner.tenantId == t) := by
  have hnone : ∀ {y : Option Activity}, (∀ p, y = some p → p.owner.tenantId ≠ t) → y.filter (·.owner.tenantId == t) = none := by
    intro y hy
    cases y with
    | none => rfl
    | some p => rw [Option.filter_some, if_neg (by simpa using hy p rfl)]
  by_cases hk : k = i
  · subst hk
    rw [h.procs, Function.update_self, hnone hi, hnone hx]
  · rw [Function.update_of_ne hk, h.procs]

/-- A process of the tenant begins or goes on in both. -/
theorem proceed (h : Separate t ρ c s) {p q : Activity} (hq : q.renumber ρ = p) (ht : p.owner.tenantId = t) (k : ProcId) :
    (Function.update s.procs i (some q) k).map (Activity.renumber ρ) =
      (Function.update c.procs i (some p) k).filter (·.owner.tenantId == t) := by
  by_cases hk : k = i
  · subst hk
    rw [Function.update_self, Function.update_self, Option.map_some, hq, Option.filter_some, if_pos (beq_iff_eq.2 ht)]
  · rw [Function.update_of_ne hk, Function.update_of_ne hk, h.procs]

/-- It ends in both. -/
theorem leave (h : Separate t ρ c s) (k : ProcId) : (Function.update s.procs i none k).map (Activity.renumber ρ) =
    (Function.update c.procs i none k).filter (·.owner.tenantId == t) := by
  by_cases hk : k = i
  · subst hk
    rw [Function.update_self, Function.update_self]
    rfl
  · rw [Function.update_of_ne hk, Function.update_of_ne hk, h.procs]

/-- The numbers in use stay as they are when numbers still to come are moved. -/
theorem renumbered (h : Separate t ρ c s) (hs : Webhook.Served c) (hσ : ∀ m < s.world.serial, σ m = ρ m) (k : ProcId) :
    (s.procs k).map (Activity.renumber σ) = (s.procs k).map (Activity.renumber ρ) := by
  cases hk : s.procs k with
  | none => rfl
  | some q =>
    have hp : c.procs k = some (q.renumber ρ) := by
      have hmap := h.procs k
      rw [hk, Option.map_some] at hmap
      exact (Option.filter_eq_some_iff.1 hmap.symm).1
    refine congrArg some (congrArg (fun o => ({ q with owner := o } : Activity)) ?_)
    cases ho : q.owner with
    | api call => rfl
    | job j data =>
      refine congrArg (Owner.job · data) (JobId.renumber_congr fun n hn => hσ n ?_)
      have hlt : ρ n < c.world.serial := hs.unserved k (q.renumber ρ) (ρ n) data hp (by rw [Activity.renumber, ho, hn]; rfl)
      by_contra hge
      have := h.world.high (Nat.le_of_not_lt hge)
      omega

theorem drawn (h : Separate t ρ c s) (ids : List Uuid) : ids ++ s.issued ⊆ ids ++ c.issued :=
  List.append_subset.2 ⟨List.subset_append_left _ _, List.Subset.trans h.issued (List.subset_append_right _ _)⟩

theorem fresh (h : Separate t ρ c s) {ids : List Uuid} (hf : c.fresh ids = true) : s.fresh ids = true := by
  obtain ⟨hnew, hnodup⟩ := Bool.and_eq_true_iff.1 hf
  refine Bool.and_eq_true_iff.2 ⟨List.all_eq_true.2 fun u hu => ?_, hnodup⟩
  simp only [List.all_eq_true, decide_eq_true_eq] at hnew ⊢
  exact fun hmem => hnew u hu (h.issued hmem)

end Separate
section Commands
variable {t : Uuid} {ρ : Nat → Nat} {c : Config} {v w : World} {i : ProcId} {p : Activity} {u : Uuid} {l : Knowledge} {cmd : Cmd}
  {answer : Answer} {next : Except Failure cmd.Resp → Proc Unit} {r : Except Failure cmd.Resp}

private theorem exec_own (hc : c.Coherent) (hp : c.procs i = some p) (hres : Resident c p u l) (ht : p.owner.tenantId = t)
    (hq : p.program = .call cmd next) (he : cmd.exec answer c.world = some (r, w)) (h : Share t ρ c.world v) :
    ∃ v', cmd.exec answer v = some (r, v') ∧ Share t ρ w v' := by
  have hall := hres.conducts
  rw [hq] at hall
  cases Cmd.exec_executed he with
  | threw => exact ⟨v, by cases cmd <;> rfl, h⟩
  | answered _ hr => exact ⟨v, hr v, h⟩
  | @ran x _ =>
    subst ht
    obtain ⟨hanswer, hsees, -⟩ := tx_sees hall.1 hres.sees
    rw [← h.db] at hanswer hsees
    refine ⟨{ v with db := (x.run true v.db).2 }, ?_, hsees.view, h.jobs, h.onto, h.mono, h.top⟩
    rw [hanswer]
    rfl
  | @added data j _ =>
    have hnumber : j.renumber ρ = j := by
      cases j with
      | webhook n => exact absurd rfl (Webhook.queued_elsewhere (hc.served.regular.valid.allows hp hq) n)
      | ocr d run | extraction d run => rfl
    have hdata : data.tenantId = t := (queueAdd_tenant hc hp hq).trans ht
    have hadd := h.addOwn (j := j) hdata fun job hj => (queueAdd_same hc hp hq (hnumber ▸ hj)).trans hdata
    rw [hnumber] at hadd
    exact ⟨v.add j data, rfl, hadd⟩
  | @announced d t' _ =>
    have hdata : t' = t := (webhookQueueAdd_tenant hc hp hq).trans ht
    exact ⟨_, rfl, h.announceOwn hdata (hc.served.unissued _ (Nat.le_refl _))⟩

private theorem exec_other (hc : c.Coherent) (hp : c.procs i = some p) (hres : Resident c p u l) (ht : p.owner.tenantId ≠ t)
    (hq : p.program = .call cmd next) (he : cmd.exec answer c.world = some (r, w)) (h : Share t ρ c.world v) :
    ∃ σ, Share t σ w v ∧ ∀ m < v.serial, σ m = ρ m := by
  have hall := hres.conducts
  rw [hq] at hall
  cases Cmd.exec_executed he with
  | threw | answered _ _ => exact ⟨ρ, h, fun _ _ => rfl⟩
  | @ran x _ =>
    obtain ⟨-, hsees, hothers⟩ := tx_sees hall.1 hres.sees
    have hdb : own t (x.run true c.world.db).2 = own t c.world.db :=
      own_of_others hres.sees.sound hsees.sound (Ne.symm ht) hothers
    exact ⟨ρ, ⟨h.db.trans hdb.symm, h.jobs, h.onto, h.mono, h.top⟩, fun _ _ => rfl⟩
  | @added data j _ => exact ⟨ρ, h.addOther fun hdata => ht ((queueAdd_tenant hc hp hq).symm.trans hdata), fun _ _ => rfl⟩
  | @announced d t' _ =>
    refine ⟨_, h.announceOther (fun hdata => ht ?_) hc.served.unissued, fun m hm => if_pos hm⟩
    exact (webhookQueueAdd_tenant hc hp hq).symm.trans hdata

private theorem settle_own (hc : c.Coherent) {q : Activity} (hp : c.procs i = some (q.renumber ρ)) (ht : q.owner.tenantId = t)
    (h : Share t ρ c.world v) (failed : Bool) :
    Share t ρ (c.world.settle i (q.renumber ρ).owner failed) (v.settle i q.owner failed) := by
  rw [Activity.renumber]
  cases ho : q.owner with
  | api call => exact h
  | job j data =>
    have hdata : data.tenantId = t := by rw [ho] at ht; exact ht
    simp only [Owner.renumber, World.settle]
    cases hj : c.world.jobs (j.renumber ρ) with
    | none =>
      have hv : v.jobs j = none := by rw [h.jobs, hj]; rfl
      rw [hv]
      exact h
    | some job =>
      have hjob : job.data.tenantId = t := (execution_tenant hc hp (by rw [Activity.renumber, ho]; rfl) hj).trans hdata
      rw [h.job_iff.2 ⟨hj, hjob⟩]
      dsimp only
      split
      · refine h.setOwn ?_
        rintro x ⟨⟩
        exact (congrArg JobData.tenantId (Webhook.settle_data job failed)).trans hjob
      · exact h

private theorem settle_other (hc : c.Coherent) (hp : c.procs i = some p) (ht : p.owner.tenantId ≠ t)
    (h : Share t ρ c.world v) (failed : Bool) : Share t ρ (c.world.settle i p.owner failed) v := by
  cases ho : p.owner with
  | api call => exact h
  | job j data =>
    have hdata : data.tenantId ≠ t := by rw [ho] at ht; exact ht
    simp only [World.settle]
    split
    · next job hj =>
      have hjob : job.data.tenantId ≠ t := fun he => hdata ((execution_tenant hc hp ho hj).symm.trans he)
      split
      · refine h.setOther (fun x hx => ?_) ?_
        · obtain rfl := Option.some.inj (hj.symm.trans hx)
          exact hjob
        · rintro x ⟨⟩
          rw [Webhook.settle_data]
          exact hjob
      · exact h
    · exact h

end Commands
section Step
variable {t : Uuid} {ρ : Nat → Nat} {c c' s : Config} {a : Action} {draw : ProcId → Uuid} {k : ProcId → Knowledge}

theorem processor_renumber (ρ : Nat → Nat) (j : JobId) (data : JobData) (u : Uuid) :
    processor (j.renumber ρ) data u = processor j data u := by cases j <;> rfl

/-- The tenant's own system takes the step that stands for `a`, or waits. -/
private def Keeps (t : Uuid) (c' s : Config) (a : Action) : Prop :=
  (∃ ρ, Separate t ρ c' s) ∨ ∃ b s', Matches b a ∧ step s b = some s' ∧ ∃ ρ, Separate t ρ c' s'

private theorem nobody_at (hc : Reachable c) {id : ProcId} (hid : id ∉ c.issued) (p : Activity) (hp : c.procs id = some p) :
    p.owner.tenantId ≠ t := by
  exact absurd ((hc.regular.standing 0).known.positions id p.position (Config.view_position hp)) hid

private theorem call_keeps {id : ProcId} {call : ApiCall} (hc : Reachable c) (h : Separate t ρ c s)
    (hfresh : c.fresh (id :: call.draws) = true) :
    Keeps t (c.spawn id call.draws (.api call) call.program) s (.call id call) := by
  by_cases ht : call.tenantId = t
  · refine .inr ⟨.call id call, s.spawn id call.draws (.api call) call.program, ⟨ρ, rfl⟩, if_pos (h.fresh hfresh), ρ, ?_⟩
    exact ⟨h.world, h.proceed rfl ht, h.drawn (id :: call.draws)⟩
  · refine .inl ⟨ρ, h.world, h.idle (nobody_at hc (((fresh_iff 0).1 hfresh).1 id List.mem_cons_self)) ?_, ?_⟩
    · rintro p ⟨⟩
      exact ht
    · exact List.Subset.trans h.issued (List.subset_append_right (id :: call.draws) _)

private theorem start_keeps {id : ProcId} {j : JobId} {u : Uuid} {job : Job} (hc : Reachable c) (h : Separate t ρ c s)
    (hj : c.world.jobs j = some job) (hst : job.state = .waiting ∨ job.state = .delayed) (hfresh : c.fresh [id, u] = true) :
    Keeps t { c.spawn id [u] (.job j job.data) (processor j job.data u) with
      world := c.world.setJob j (some { job with state := .active id }) } s (.start id j u) := by
  by_cases ht : job.data.tenantId = t
  · obtain ⟨j, rfl⟩ := h.world.onto j job hj ht
    refine .inr ⟨.start id j u, { s.spawn id [u] (.job j job.data) (processor j job.data u) with
      world := s.world.setJob j (some { job with state := .active id }) }, ⟨ρ, rfl⟩, ?_, ρ, ?_⟩
    · simp only [step, h.world.job_iff.2 ⟨hj, ht⟩, h.fresh hfresh, hst, and_self, if_true]
    · refine ⟨h.world.setOwn ?_, h.proceed ?_ ht, ?_⟩
      · rintro x ⟨⟩
        exact ht
      · rw [processor_renumber]
        rfl
      · exact h.drawn [id, u]
  · refine .inl ⟨ρ, h.world.setOther ?_ ?_, h.idle (nobody_at hc (((fresh_iff 0).1 hfresh).1 id List.mem_cons_self)) ?_, ?_⟩
    · intro x hx
      exact Option.some.inj (hj.symm.trans hx) ▸ ht
    · rintro x ⟨⟩
      exact ht
    · rintro p ⟨⟩
      exact ht
    · exact List.Subset.trans h.issued (List.subset_append_right [id, u] _)

private theorem command_keeps {id : ProcId} {answer : Answer} {p : Activity} {cmd : Cmd}
    {next : Except Failure cmd.Resp → Proc Unit} {r : Except Failure cmd.Resp} {w : World} (hc : Reachable c)
    (hr : Residents c draw k) (h : Separate t ρ c s) (hp : c.procs id = some p) (hprog : p.program = .call cmd next)
    (he : cmd.exec answer c.world = some (r, w)) :
    Keeps t { c with
      world := w
      procs := Function.update c.procs id (some { p with program := next r, transcript := ⟨cmd, r⟩ :: p.transcript }) } s
      (.step id answer) := by
  by_cases ht : p.owner.tenantId = t
  · obtain ⟨q, hq, rfl⟩ := h.proc hp ht
    obtain ⟨v, hv, hworld⟩ := exec_own hc.coherent hp (hr.resident id _ hp) ht hprog he h.world
    refine .inr ⟨.step id answer, { s with
      world := v
      procs := Function.update s.procs id (some { q with program := next r, transcript := ⟨cmd, r⟩ :: q.transcript }) },
      ⟨ρ, rfl⟩, ?_, ρ, hworld, h.proceed rfl ht, h.issued⟩
    have hprog : q.program = .call cmd next := hprog
    simp only [step, hq, Activity.advance, hprog, hv]
  · obtain ⟨σ, hworld, hσ⟩ := exec_other hc.coherent hp (hr.resident id p hp) ht hprog he h.world
    refine .inl ⟨σ, hworld, fun i => ?_, h.issued⟩
    rw [h.renumbered hc.coherent.served hσ]
    refine h.idle (fun q hq => ?_) ?_ i
    · exact Option.some.inj (hp.symm.trans hq) ▸ ht
    · rintro q ⟨⟩
      exact ht

private theorem finish_keeps {id : ProcId} {p : Activity} {failed : Bool} (hc : Reachable c) (h : Separate t ρ c s)
    (hp : c.procs id = some p) (he : p.ended = some failed) :
    Keeps t { c.kill id with world := c.world.settle id p.owner failed } s (.finish id) := by
  by_cases ht : p.owner.tenantId = t
  · obtain ⟨q, hq, rfl⟩ := h.proc hp ht
    refine .inr ⟨.finish id, { s.kill id with world := s.world.settle id q.owner failed }, ⟨ρ, rfl⟩, ?_, ρ, ?_, h.leave, h.issued⟩
    · have he : q.ended = some failed := he
      simp only [step, hq, he]
    · exact settle_own hc.coherent hp (Owner.renumber_tenantId ρ q.owner ▸ ht) h.world failed
  · refine .inl ⟨ρ, settle_other hc.coherent hp ht h.world failed, h.idle (fun q hq => ?_) ?_, h.issued⟩
    · exact Option.some.inj (hp.symm.trans hq) ▸ ht
    · rintro q ⟨⟩

private theorem job_keeps {j : JobId} {job : Job} {new : Option Job} (h : Separate t ρ c s) (hj : c.world.jobs j = some job)
    (hnew : ∀ x, new = some x → x.data = job.data) {a : JobId → Action}
    (ha : ∀ j : JobId, (a j).renumber ρ = a (j.renumber ρ))
    (hs : ∀ j, s.world.jobs j = some job → step s (a j) = some { s with world := s.world.setJob j new }) :
    Keeps t { c with world := c.world.setJob j new } s (a j) := by
  by_cases ht : job.data.tenantId = t
  · obtain ⟨j, rfl⟩ := h.world.onto j job hj ht
    refine .inr ⟨a j, _, ⟨ρ, ha j⟩, hs j (h.world.job_iff.2 ⟨hj, ht⟩), ρ, h.world.setOwn fun x hx => ?_, h.procs, h.issued⟩
    exact (congrArg JobData.tenantId (hnew x hx)).trans ht
  · refine .inl ⟨ρ, h.world.setOther (fun x hx => ?_) (fun x hx => ?_), h.procs, h.issued⟩
    · exact Option.some.inj (hj.symm.trans hx) ▸ ht
    · rw [hnew x hx]
      exact ht

/-- Every step of the shared system is a step of the tenant's own, or none of it. -/
theorem step_separate (hc : Reachable c) (hr : Residents c draw k) (h : Separate t ρ c s) (hstep : step c a = some c') :
    (∃ ρ, Separate t ρ c' s) ∨ ∃ b s', Matches b a ∧ step s b = some s' ∧ ∃ ρ, Separate t ρ c' s' := by
  cases step_turn hstep with
  | call hfresh => exact call_keeps hc h hfresh
  | start hj hst hfresh => exact start_keeps hc h hj hst hfresh
  | step hp hprog he => exact command_keeps hc hr h hp hprog he
  | finish hp he => exact finish_keeps hc h hp he
  | @crash id p hp =>
    by_cases ht : p.owner.tenantId = t
    · obtain ⟨q, hq, -⟩ := h.proc hp ht
      refine .inr ⟨.crash id, s.kill id, ⟨ρ, rfl⟩, if_pos (by rw [hq]; rfl), ρ, h.world, h.leave, h.issued⟩
    · refine .inl ⟨ρ, h.world, h.idle (fun q hq => ?_) ?_, h.issued⟩
      · exact Option.some.inj (hp.symm.trans hq) ▸ ht
      · rintro q ⟨⟩
  | @stall j job id hj hst =>
    refine job_keeps h hj (by rintro x ⟨⟩; rfl) (a := .stall) (fun _ => rfl) fun j' hj' => ?_
    simp only [step, hj', hst]
  | @evict j job hj hst =>
    refine job_keeps h hj (by rintro x ⟨⟩) (a := .evict) (fun _ => rfl) fun j' hj' => ?_
    simp only [step, hj', hst, if_true]
  | tick =>
    refine .inr ⟨.tick, { s with world := { s.world with db := { s.world.db with now := s.world.db.now + 1 } } }, ⟨ρ, rfl⟩, rfl, ρ,
      ⟨?_, h.world.jobs, h.world.onto, h.world.mono, h.world.top⟩, h.procs, h.issued⟩
    change { s.world.db with now := s.world.db.now + 1 } = own t { c.world.db with now := c.world.db.now + 1 }
    rw [h.world.db]
    rfl

/-- The system of one tenant follows the system it shares with others. -/
theorem separate_simulates (t : Uuid) : Simulates step step Employed Matches
    fun c s => Reachable c ∧ (∃ draw k, Residents c draw k) ∧ ∃ ρ, Separate t ρ c s := by
  rintro c a c' s ⟨hc, ⟨draw, k, hr⟩, ρ, hs⟩ he h
  have hres := step_residents hc hr he h
  rcases step_separate hc hr hs h with hsep | ⟨b, s', hb, hs', hsep⟩
  · exact .inl ⟨hc.step h, hres, hsep⟩
  · exact .inr ⟨b, s', hb, hs', hc.step h, hres, hsep⟩

theorem initial_separate (tenants : List TenantRow) (users : List UserRow) (t : Uuid) :
    Separate t id (initial tenants users)
      (initial (tenants.filter (·.id == t)) (users.filter (·.tenantId == t))) where
  world := ⟨rfl, fun _ => rfl, by rintro j job ⟨⟩, strictMono_id, fun _ => rfl⟩
  procs _ := rfl
  issued := List.nil_subset _

end Step
end Tenancy
end DocAuto
