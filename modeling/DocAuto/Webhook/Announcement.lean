import DocAuto.Database.Commit
import DocAuto.Webhook.Outbox

/-! What a delivery announces: the document as its execution has read it, which need not be the
document as the transition behind the job has left it. -/
namespace DocAuto.Webhook
open Process Database Pipeline

/-- The subject was the record of the job's document where the run has passed. -/
def ReadFrom (S : Config → Prop) (job : JobData) (s : Subject) : Prop :=
  ∃ x r, S x ∧ x.world.db.record job.documentId = some r ∧ s.document = r.row ∧ s.extraction = r.extraction ∧
    (r.row.status = .approved ∨ r.row.status = .rejected)

/-- The payload is made from the record where the run has passed, that of a rejection also from the
audit log where it has passed. -/
def Rebuilt (S : Config → Prop) (job : JobData) (payload : WebhookPayload) : Prop :=
  ∃ x r, S x ∧ x.world.db.record job.documentId = some r ∧
    (r.row.status = .approved ∧ payload = approvedPayload job r.row r.extraction ∨
      r.row.status = .rejected ∧ ∃ y, S y ∧
        payload = rejectedPayload job r.row (orderAuditLog (y.world.db.audit job.documentId)))

/-- Where the run has passed, the document of the job was neither approved nor rejected. -/
def Reopened (S : Config → Prop) (job : JobData) : Prop :=
  ∃ x r, S x ∧ x.world.db.record job.documentId = some r ∧ r.row.status ≠ .approved ∧ r.row.status ≠ .rejected

/-- What an execution has come to rests on what it has read. -/
def WebhookPoint.rests (S : Config → Prop) (job : JobData) : WebhookPoint → Prop
  | .count s => ReadFrom S job s
  | .reason s _ => ReadFrom S job s ∧ s.document.status ≠ .approved
  | .insert _ _ payload | .post _ _ payload _ => Rebuilt S job payload
  | .ended result => result = .ok (.skipped (some "not_terminal")) → Reopened S job
  | _ => True

section Reads
variable {S S' : Config → Prop} {job : JobData} {s : Subject} {payload : WebhookPayload} {pt : WebhookPoint}

theorem ReadFrom.mono (h : ∀ x, S x → S' x) (hr : ReadFrom S job s) : ReadFrom S' job s := by
  obtain ⟨x, r, hx, hrest⟩ := hr
  exact ⟨x, r, h x hx, hrest⟩

theorem Rebuilt.mono (h : ∀ x, S x → S' x) (hr : Rebuilt S job payload) : Rebuilt S' job payload := by
  obtain ⟨x, r, hx, hrec, ⟨hst, hp⟩ | ⟨hst, y, hy, hp⟩⟩ := hr
  · exact ⟨x, r, h x hx, hrec, .inl ⟨hst, hp⟩⟩
  · exact ⟨x, r, h x hx, hrec, .inr ⟨hst, y, h y hy, hp⟩⟩

theorem rests_mono (h : ∀ x, S x → S' x) (hp : pt.rests S job) : pt.rests S' job := by
  cases pt with
  | count s => exact ReadFrom.mono h hp
  | reason s n => exact ⟨hp.1.mono h, hp.2⟩
  | insert s n payload | post s n payload id => exact Rebuilt.mono h hp
  | ended result =>
    intro hr
    obtain ⟨x, r, hx, hrest⟩ := hp hr
    exact ⟨x, r, h x hx, hrest⟩
  | _ => trivial

theorem subject_not_terminal {found : Option (DocumentRow × Option ExtractionRow)} {tenant : Option TenantRow}
    (h : subject found tenant = .error "not_terminal") : ∃ document extraction, found = some (document, extraction) ∧
      document.status ≠ .approved ∧ document.status ≠ .rejected := by
  unfold subject at h
  split at h
  · next document extraction tenant =>
    split at h
    · split at h
      · next hst => exact ⟨document, extraction, rfl, hst⟩
      · cases h
    · simp at h
  · simp at h

theorem result_ne_skipped (attempt : Nat) (outcome : Delivery) {why : Option String} :
    result attempt outcome ≠ .ok (.skipped why) := by
  unfold result
  split
  · rintro ⟨⟩
  · split <;> rintro ⟨⟩

end Reads

section Rests
variable {c c' : Config} {S S' : Config → Prop}

theorem selectAuditLog_run {db : Db} {t d : Uuid} {r : Record} (hs : db.Sound) (hr : db.record d = some r)
    (ht : r.row.tenantId = t) : (Tx.selectAuditLog t d).run true db = (.ok (orderAuditLog (db.audit d)), db) := by
  have hrun : (Tx.selectAuditLog t d).run true db = (.ok (orderAuditLog (db.documentAuditLog.filter fun r =>
    (Session.mk true t).admitsChild db r.documentId && r.documentId == d)), db) := rfl
  rw [hrun, Db.audit]
  refine congrArg (fun rows => (Except.ok (orderAuditLog rows), db)) (List.filter_congr fun row _ => ?_)
  by_cases hd : row.documentId = d
  · have hadm : (Session.mk true t).admitsChild db row.documentId = true :=
      (Database.admitsChild_iff hs).2 ⟨r, hd ▸ hr, ht.symm⟩
    rw [hadm, Bool.true_and]
  · simp [hd]

theorem auditLog_read {job : JobData} {answer : Answer} {w : World} {auditLog : List AuditRow}
    (hs : c.world.db.Sound) (ho : Owns c job)
    (he : (Cmd.tx (.selectAuditLog job.tenantId job.documentId)).exec answer c.world = some (.ok auditLog, w)) :
    auditLog = orderAuditLog (c.world.db.audit job.documentId) := by
  obtain ⟨r, hr, ht⟩ := ho
  cases answer with
  | execute =>
    simp only [Cmd.exec, Option.some.injEq, Prod.mk.injEq] at he
    rw [selectAuditLog_run hs hr ht] at he
    exact (Except.ok.inj he.1).symm
  | _ => cases he

/-- An execution moves to a point that rests on what it has read by now. -/
theorem rests_next {i : ProcId} {answer : Answer} {p : Activity} {k : Courier} {cmd : Cmd}
    {next : Except Failure cmd.Resp → Proc Unit} {r : Except Failure cmd.Resp} {w : World} (hs : Served c)
    (hp : c.procs i = some p) (hk : courierOf p = some k) (hc : p.program = .call cmd next)
    (he : cmd.exec answer c.world = some (r, w)) (hS : S' c) (hmono : ∀ x, S x → S' x)
    (hrests : k.point.rests S k.job) : (k.point.next k.job cmd r).rests S' k.job := by
  have hall := courier_allows (hs.follows i p hp) hk hc
  have hpl := hs.placed i p k hp hk
  have hfailed : ∀ e : Failure, (WebhookPoint.ended (.error e)).rests S' k.job := by
    rintro e ⟨⟩
  rcases hpt : k.point with _ | s | ⟨s, n⟩ | ⟨s, n, payload⟩ | ⟨s, n, payload, id⟩ | ⟨n, id, outcome⟩ | ⟨n, outcome⟩ | result <;>
    rw [hpt] at hall hpl hrests
  · obtain rfl := hall
    rcases r with e | ⟨found, tenant⟩
    · exact hfailed e
    · rcases WebhookPoint.next_read k.job k.job.tenantId k.job.documentId found tenant with ⟨s, hsub, hn⟩ | ⟨why, hsub, hn⟩
      · rw [hn]
        obtain ⟨rfl, hst⟩ := subject_ok hsub
        obtain ⟨x, hx, -, heq⟩ := subject_found hs.regular.valid.sound he
        obtain ⟨hdoc, hext⟩ := Prod.mk.inj heq
        exact ⟨c, x, hS, hx, hdoc, hext, hdoc ▸ hst⟩
      · rw [hn]
        intro hres
        obtain rfl : why = "not_terminal" := by simpa using hres
        obtain ⟨document, extraction, rfl, hst⟩ := subject_not_terminal hsub
        obtain ⟨x, hx, -, heq⟩ := subject_found hs.regular.valid.sound he
        obtain ⟨rfl, -⟩ := Prod.mk.inj heq
        exact ⟨c, x, hS, hx, hst⟩
  · obtain rfl := hall
    rcases r with e | existing
    · exact hfailed e
    · obtain ⟨x, rec, hx, hrec, hdoc, hext, hst⟩ := ReadFrom.mono hmono hrests
      show WebhookPoint.rests S' k.job (WebhookPoint.counted k.job s existing)
      unfold WebhookPoint.counted
      split
      · next happroved => exact ⟨x, rec, hx, hrec, .inl ⟨hdoc ▸ happroved, by rw [hdoc, hext]⟩⟩
      · next hne => exact ⟨⟨x, rec, hx, hrec, hdoc, hext, hst⟩, hne⟩
  · obtain rfl := hall
    rcases r with e | auditLog
    · exact hfailed e
    · obtain ⟨hread, hne⟩ := hrests
      obtain ⟨x, rec, hx, hrec, hdoc, -, hst⟩ := ReadFrom.mono hmono hread
      have hrejected : rec.row.status = .rejected := hst.resolve_left (hdoc ▸ hne)
      refine ⟨x, rec, hx, hrec, .inr ⟨hrejected, c, hS, ?_⟩⟩
      rw [← hdoc, auditLog_read hs.regular.valid.sound hpl he]
  · obtain ⟨id, rfl⟩ := hall
    rcases r with e | id'
    · exact hfailed e
    · exact Rebuilt.mono hmono hrests
  · obtain rfl := hall
    cases r <;> trivial
  · obtain rfl := hall
    cases r with
    | error e => exact hfailed e
    | ok u => trivial
  · obtain rfl := hall
    cases r with
    | error e => exact hfailed e
    | ok u =>
      intro hres
      exact absurd hres (result_ne_skipped n outcome)
  · exact hall.elim

/-- The job `n` carries `data`, and its executions rest on what they have read. -/
structure Attributed (n : Nat) (data : JobData) (S : Config → Prop) (c : Config) : Prop where
  served : Served c
  taken : n < c.world.serial
  job : ∀ j, c.world.jobs (.webhook n) = some j → j.data = data
  courier : ∀ i p k, c.procs i = some p → courierOf p = some k → k.serial = n → k.job = data ∧ k.point.rests S data

theorem attributed_step {n : Nat} {data : JobData} {a : Action} (hr : Attributed n data S c) (h : step c a = some c')
    (hS : S' c) (hmono : ∀ x, S x → S' x) : Attributed n data S' c' := by
  obtain ⟨hle, hjobs⟩ := step_serial hr.served.regular.valid h
  refine ⟨step_served hr.served h, lt_of_lt_of_le hr.taken hle, fun j hj => ?_, fun i p' k hp' hk hn => ?_⟩
  · rcases hjobs n j hj with ⟨j', hj', hd⟩ | ⟨hn, -⟩
    · exact hd.symm.trans (hr.job j' hj')
    · exact absurd hr.taken (by omega)
  · rcases proc_origin h hp' with hp | ⟨call, rfl⟩ | ⟨j, draw, job, rfl, hj, rfl⟩ |
      ⟨answer, p, cmd, next, r, w, rfl, hp, hc, he, hw, rfl⟩
    · obtain ⟨hdata, hrests⟩ := hr.courier i p' k hp hk hn
      exact ⟨hdata, rests_mono hmono hrests⟩
    · cases hk
    · cases j with
      | webhook m =>
        obtain rfl := Option.some.inj hk
        obtain rfl : m = n := hn
        exact ⟨hr.job job hj, trivial⟩
      | _ => cases hk
    · rw [courierOf_advance] at hk
      obtain ⟨k', hk', rfl⟩ := Option.map_eq_some_iff.1 hk
      obtain ⟨hdata, hrests⟩ := hr.courier i p k' hp hk' hn
      refine ⟨hdata, hdata ▸ rests_next hr.served hp hk' hc he hS hmono ?_⟩
      exact hdata ▸ hrests

/-- The executions of a job all start after it has been enqueued. -/
theorem attributed_start {p : ProcId} {d t : Uuid} (hs : Served c) (hcmd : c.command p = some (.webhookQueueAdd d t))
    (h : step c (.step p .execute) = some c') :
    Attributed c.world.serial { documentId := d, tenantId := t } (fun _ => False) c' := by
  have hserved := step_served hs h
  have hnew : ∀ i q n job, c.procs i = some q → q.owner = .job (.webhook n) job → n ≠ c.world.serial :=
    fun i q n job hq ho => (hs.unserved i q n job hq ho).ne
  obtain ⟨q, cmd, next, r, w, hq, hprog, he, rfl⟩ := step_advance h
  cases (Config.command_of hq hprog).symm.trans hcmd
  have hadd : w = { c.world.add (.webhook c.world.serial) { documentId := d, tenantId := t } with serial := c.world.serial + 1 } :=
    (Prod.mk.inj (Option.some.inj he)).2.symm
  refine ⟨hserved, ?_, fun j hj => ?_, fun i q' k hq' hk hn => ?_⟩
  · rw [hadd]
    exact Nat.lt_succ_self _
  · have hjob : w.jobs (.webhook c.world.serial) = some ⟨{ documentId := d, tenantId := t }, .waiting, 0⟩ := by
      rw [hadd]
      simp [World.add, hs.unissued _ (le_refl _)]
    obtain rfl := Option.some.inj (hjob.symm.trans hj)
    rfl
  · have ho := courierOf_owner hk
    rcases proc_origin h hq' with hq'' | ⟨call, rfl⟩ | ⟨_, _, _, ha, -, -⟩ | ⟨_, q'', _, _, _, _, _, hq'', _, _, _, rfl⟩
    · exact absurd hn (hnew i q' _ _ hq'' ho)
    · cases hk
    · cases ha
    · exact absurd hn (hnew i q'' _ _ hq'' ho)

end Rests

/-- A terminal transition of a document: approved, by hand or automatically, or rejected for a reason. -/
inductive Transition where
  | approved
  | rejected (reason : String)
  deriving DecidableEq, Repr

namespace Transition

def status : Transition → DocumentStatus
  | approved => .approved
  | rejected _ => .rejected

def event : Transition → WebhookEvent
  | approved => .documentApproved
  | rejected _ => .documentRejected

/-- An empty reason is left out of the payload. -/
def reason : Transition → Option String
  | approved => none
  | rejected reason => some reason |>.filter (· ≠ "")

/-- The terminal transition a database transaction makes of document `d`. -/
def made (d : Uuid) : Tx → Option Transition
  | .approve _ d' _ => if d' = d then some approved else none
  | .reject _ d' _ reason => if d' = d then some (rejected reason) else none
  | .updateDocument _ d' set => if d' = d ∧ set.status = some .approved then some approved else none
  | _ => none

end Transition

def Announces (payload : WebhookPayload) (x : Transition) : Prop :=
  payload.event = x.event ∧ payload.status = x.status ∧ payload.reason = x.reason

/-- Process `p` makes the transition of `d` from `before` to `decided`, and then enqueues the webhook job `n`. -/
structure Caused (p : ProcId) (d : Uuid) (x : Transition) (n : Nat) (before decided queued : Config)
    (between : List Action) : Prop where
  reachable : Reachable before
  decides : ∃ t, before.command p = some (.tx t) ∧ Transition.made d t = some x ∧ (t.run true before.world.db).1.isOk
  commits : step before (.step p .execute) = some decided
  enqueues : ∃ c t, run step decided between = some c ∧ c.command p = some (.webhookQueueAdd d t) ∧ c.world.serial = n ∧
    step c (.step p .execute) = some queued

section Rejections
variable {c c' : Config} {d : Uuid} {r : Record}

def rejections (rows : List AuditRow) : List AuditRow := rows.filter (·.event = .rejected)

/-- Only a rejection is logged as one. -/
theorem log_not_rejected {v : View} {owner : Owner} {pt : Pipeline.Point} {t : Uuid} {row : AuditRow}
    (hp : v.placed d owner pt) (h : pt.allows (.tx (.writeAuditLog t row))) : row.event ≠ .rejected := by
  intro hev
  cases pt with
  | aside =>
    rcases h.1 with he | he <;> cases he.symm.trans hev
  | upload p id u =>
    cases u <;> cases h
    cases hev
  | review t =>
    obtain ⟨call, -, hc⟩ := hp
    cases h
    cases call <;> cases hc
  | ocr job o =>
    cases o <;> cases h
    cases hev
  | extraction job e =>
    cases e with
    | conclude tenant x =>
      cases h
      rcases concludeRow_event job tenant x with ⟨-, he⟩ | ⟨-, he⟩ <;> cases he.symm.trans hev
    | _ => cases h <;> cases hev
  | _ => cases h

/-- While a document is rejected, no rejection is logged for it. -/
theorem rejections_kept {a : Action} (hs : c.Regular) (h : step c a = some c') (hr : c.world.db.record d = some r)
    (hst : r.row.status = .rejected) :
    ∃ r', c'.world.db.record d = some r' ∧ rejections r'.audit = rejections r.audit := by
  rcases step_record (d := d) hs.valid h with he | ⟨i, p, t, k, now, -, hp, -, hall, he, had⟩
  · exact ⟨r, he.trans hr, rfl⟩
  · have hrec : (c.view d).record = some r := hr
    rw [hrec] at he had
    rcases Tx.after_cases (d := d) t now r with hsame | ⟨hd, -, hcommit⟩
    · exact ⟨r, he.trans hsame, rfl⟩
    · refine ⟨_, he.trans hcommit, ?_⟩
      rw [Tx.commit_audit, rejections, List.filter_append]
      refine (congrArg _ (List.filter_eq_nil_iff.2 fun row hrow hev => ?_)).trans (List.append_nil _)
      have hev : row.event = .rejected := by simpa using hev
      cases t with
      | writeAuditLog tid row' =>
        obtain rfl := List.mem_singleton.1 hrow
        exact log_not_rejected (hs.placed (d := d) hp) hall hev
      | reject tid d' actorId reason =>
        obtain ⟨r', hr', -, hguard⟩ := had hd
        obtain rfl := Option.some.inj hr'
        cases hguard.symm.trans hst
      | approve tid d' actorId | edit tid d' actorId changes | reprocess tid d' actorId =>
        obtain rfl := List.mem_singleton.1 hrow
        cases hev
      | _ => cases hrow

/-- The newest of the rejections in a log. -/
theorem find_rejection {rows : List AuditRow} {row : AuditRow} (hmem : row ∈ rejections rows)
    (hnew : ∀ r ∈ rejections rows, r = row ∨ r.createdAt < row.createdAt) :
    (orderAuditLog rows).find? (·.event = .rejected) = some row := by
  obtain ⟨hrow, hev⟩ := List.mem_filter.1 hmem
  have hsorted : (orderAuditLog rows).Pairwise fun a b => b.createdAt ≤ a.createdAt := by
    have h := @List.pairwise_mergeSort _ (fun a b : AuditRow => decide (b.createdAt ≤ a.createdAt))
      (fun a b c => by simpa using fun h h' => Nat.le_trans h' h) (fun a b => by simpa using Nat.le_total _ _) rows
    exact h.imp fun h => of_decide_eq_true h
  cases hfind : (orderAuditLog rows).find? (·.event = .rejected) with
  | none =>
    have hnone := List.find?_eq_none.1 hfind row (List.mem_mergeSort.2 hrow)
    exact absurd hev hnone
  | some found =>
    obtain ⟨hfound, before, after, hsplit, hbefore⟩ := List.find?_eq_some_iff_append.1 hfind
    have hin : found ∈ rows := List.mem_mergeSort.1 (List.mem_of_find?_eq_some hfind)
    refine congrArg some ((hnew found (List.mem_filter.2 ⟨hin, hfound⟩)).resolve_right fun hlt => ?_)
    have hrow' : row ∈ before ++ found :: after := hsplit ▸ List.mem_mergeSort.2 hrow
    rw [hsplit] at hsorted
    rcases List.mem_append.1 hrow' with hb | hb
    · simpa [of_decide_eq_true hev] using hbefore row hb
    · rcases List.mem_cons.1 hb with rfl | ha
      · exact absurd hlt (lt_irrefl _)
      · exact Nat.not_lt.2 ((List.pairwise_cons.1 (List.pairwise_append.1 hsorted).2.1).1 row ha) hlt

end Rejections

/-- The status of the document stays that of the transition. -/
def Stays (d : Uuid) (x : Transition) (c : Config) (actions : List Action) : Prop :=
  Along step (fun c _ _ => c.status d = some x.status) c actions

/-- All rejections logged so far are older than the present. -/
def RejectedBefore (d : Uuid) (c : Config) : Prop :=
  ∀ r, c.world.db.record d = some r → ∀ row ∈ rejections r.audit, row.createdAt < c.world.db.now

theorem allows_fetch {pt : WebhookPoint} {job : JobData} {url secret : String} {payload : WebhookPayload}
    (h : pt.allows job (.fetch url payload secret)) : ∃ s m id, pt = .post s m payload id := by
  cases pt with
  | insert s n payload =>
    obtain ⟨_, he⟩ := h
    cases he
  | post s m payload id =>
    cases h
    exact ⟨s, m, id, rfl⟩
  | _ => cases h

/-- A payload announces the transition whose status and reason the run shows wherever it passes. -/
theorem Rebuilt.announces {S : Config → Prop} {job : JobData} {payload : WebhookPayload} {x : Transition}
    (h : Rebuilt S job payload) (hst : ∀ y, S y → y.status job.documentId = some x.status)
    (hreason : ∀ reason, x = .rejected reason → ∀ y, S y → ∃ row,
      (orderAuditLog (y.world.db.audit job.documentId)).find? (·.event = .rejected) = some row ∧
        row.payload = some (.rejection reason)) : Announces payload x := by
  obtain ⟨y, r, hy, hr, hcases⟩ := h
  have hstatus : r.row.status = x.status := by
    have hst := hst y hy
    rw [status_eq] at hst
    have hst : (y.world.db.record job.documentId).map (·.row.status) = some x.status := hst
    rw [hr] at hst
    exact Option.some.inj hst
  rcases hcases with ⟨happroved, rfl⟩ | ⟨hrejected, z, hz, rfl⟩
  · cases x with
    | approved => exact ⟨rfl, rfl, rfl⟩
    | rejected reason => cases happroved.symm.trans hstatus
  · cases x with
    | approved => cases hrejected.symm.trans hstatus
    | rejected reason =>
      obtain ⟨row, hfind, hpayload⟩ := hreason reason rfl z hz
      refine ⟨rfl, rfl, ?_⟩
      simp only [rejectedPayload, hfind, Option.bind_some, hpayload]
      rfl

section Causes
variable {p i : ProcId} {d : Uuid} {x : Transition} {n : Nat} {before decided queued c : Config} {between after : List Action}

/-- The log of a rejection ends with it. -/
theorem rejection_logged {reason : String} (h : Caused p d (.rejected reason) n before decided queued between) :
    ∃ r r' row, before.world.db.record d = some r ∧ decided.world.db.record d = some r' ∧
      rejections r'.audit = rejections r.audit ++ [row] ∧ row.payload = some (.rejection reason) ∧
      row.createdAt = before.world.db.now := by
  obtain ⟨t, hcmd, hmade, hok⟩ := h.decides
  obtain ⟨tid, actorId, rfl⟩ : ∃ tid actorId, t = .reject tid d actorId reason := by
    unfold Transition.made at hmade
    split at hmade <;> simp only [Option.ite_none_right_eq_some, Option.some.injEq, reduceCtorEq, and_false] at hmade
    next tid d' actorId reason' =>
      obtain ⟨rfl, hreason⟩ := hmade
      obtain rfl := Transition.rejected.inj hreason
      exact ⟨tid, actorId, rfl⟩
  have hdb := step_tx h.commits hcmd
  have hout := @Tx.run_outcome before.world.db d h.reachable.regular.valid.sound (.reject tid d actorId reason)
  rcases hrun : (Tx.reject tid d actorId reason).run true before.world.db with ⟨e | a, db'⟩
  · rw [hrun] at hok
    cases hok
  · rw [hrun] at hout hdb
    obtain ⟨hrec, hadm, -⟩ := hout
    obtain ⟨r, hr, ht, -⟩ := hadm rfl
    rw [hr, Tx.after_own rfl ht] at hrec
    let row := { Tx.decisionRow d actorId .rejected .rejected (some (.rejection reason)) with
      createdAt := before.world.db.now }
    refine ⟨r, _, row, hr, hdb ▸ hrec, ?_, rfl, rfl⟩
    rw [Tx.commit_audit, rejections, List.filter_append]
    rfl

/-- While the document stays rejected, the log shows the rejection as the newest. -/
theorem rejection_newest {reason : String} {actions : List Action} {y : Config}
    (h : Caused p d (.rejected reason) n before decided queued between) (hold : RejectedBefore d before)
    (hstays : Stays d (.rejected reason) decided actions) (hy : Passes step decided actions y) :
    ∃ row, (orderAuditLog (y.world.db.audit d)).find? (·.event = .rejected) = some row ∧
      row.payload = some (.rejection reason) := by
  obtain ⟨r, r', row, hr, hr', hlog, hpayload, hnow⟩ := rejection_logged h
  obtain ⟨pre, a, z, hpre, hstayed, -⟩ := along_passes hstays hy
  obtain ⟨-, rec, hrec, hsame⟩ : y.Regular ∧ ∃ rec, y.world.db.record d = some rec ∧
      rejections rec.audit = rejections r'.audit := by
    refine run_invariant (I := fun c => c.Regular ∧ ∃ rec, c.world.db.record d = some rec ∧
      rejections rec.audit = rejections r'.audit) (fun c a c' hi hst hstep => ?_) ?_ hstayed hpre
    · obtain ⟨hreg, rec, hrec, hsame⟩ := hi
      have hrejected : rec.row.status = .rejected := by
        rw [status_eq] at hst
        have hst : (c.world.db.record d).map (·.row.status) = some .rejected := hst
        rw [hrec] at hst
        exact Option.some.inj hst
      obtain ⟨rec', hrec', hkept⟩ := rejections_kept hreg hstep hrec hrejected
      exact ⟨step_regular _ _ _ hreg hstep, rec', hrec', hkept.trans hsame⟩
    · exact ⟨step_regular _ _ _ h.reachable.regular h.commits, r', hr', rfl⟩
  have haudit : rec.audit = y.world.db.audit d := by
    obtain ⟨_, -, rfl⟩ := Option.map_eq_some_iff.1 hrec
    rfl
  rw [haudit, hlog] at hsame
  refine ⟨row, find_rejection ?_ fun row' hrow' => ?_, hpayload⟩
  · rw [hsame]
    exact List.mem_append_right _ (List.mem_singleton.2 rfl)
  · rw [hsame] at hrow'
    rcases List.mem_append.1 hrow' with hmem | hmem
    · exact .inr (hnow ▸ hold r hr row' hmem)
    · exact .inl (List.mem_singleton.1 hmem)

/-- The run that leads to the execution. -/
theorem Caused.attributed {x : Transition} (h : Caused p d x n before decided queued between)
    (hrun : run step queued after = some c) : ∃ t, Attributed n { documentId := d, tenantId := t } (Passes step queued after) c := by
  obtain ⟨m, t, hbetween, hcmd, rfl, hqueued⟩ := h.enqueues
  have hserved := reachable_served h.reachable
  have hm : Served m := run_inductive (fun _ _ _ hs hstep => step_served hs hstep) (step_served hserved h.commits) hbetween
  refine ⟨t, run_recorded (I := Attributed m.world.serial { documentId := d, tenantId := t }) ?_ (attributed_start hm hcmd hqueued) hrun⟩
  intro S c a c' hr hstep S' hS hmono
  exact attributed_step hr hstep hS hmono

theorem Caused.passes {x : Transition} {y : Config} (h : Caused p d x n before decided queued between)
    (hy : Passes step queued after y) : Passes step decided (between ++ .step p .execute :: after) y := by
  obtain ⟨m, t, hbetween, -, -, hqueued⟩ := h.enqueues
  have hone : run step m [.step p .execute] = some queued := by simp [run, hqueued]
  exact passes_append hbetween (passes_append hone hy)

/-- A delivery announces the document as its execution has read it since the job was enqueued, and
so the transition behind the job as long as the status has stayed that of it; and only a
job whose document has been reopened since is skipped as not terminal. -/
theorem delivery_announces {q : Activity} {k : Courier} (h : Caused p d x n before decided queued between)
    (hrun : run step queued after = some c) (hq : c.procs i = some q) (hk : courierOf q = some k) (hn : k.serial = n) :
    k.job.documentId = d ∧
    (∀ url payload secret, c.command i = some (.fetch url payload secret) →
      Rebuilt (Passes step queued after) k.job payload ∧
      (Stays d x decided (between ++ .step p .execute :: after) → RejectedBefore d before → Announces payload x)) ∧
    (k.point = .ended (.ok (.skipped (some "not_terminal"))) → Reopened (Passes step queued after) k.job) := by
  obtain ⟨t, hrec⟩ := h.attributed hrun
  obtain ⟨hdata, hrests⟩ := hrec.courier i q k hq hk hn
  refine ⟨by rw [hdata], fun url payload secret hcmd => ?_, fun hpt => ?_⟩
  · obtain ⟨next, hprog⟩ : ∃ next, q.program = .call (.fetch url payload secret) next := by
      rw [Config.command, hq, Option.bind_some] at hcmd
      exact Activity.program_of hcmd
    obtain ⟨s, m, id, hpt⟩ := allows_fetch (courier_allows (hrec.served.follows i q hq) hk hprog)
    rw [hpt] at hrests
    have hrebuilt : Rebuilt (Passes step queued after) k.job payload := hdata ▸ hrests
    refine ⟨hrebuilt, fun hstays hold => hrebuilt.announces (fun y hy => ?_) fun reason hx y hy => ?_⟩
    · obtain ⟨-, -, -, -, -, -, hst⟩ := along_passes hstays (h.passes hy)
      rw [hdata]
      exact hst
    · subst hx
      rw [hdata]
      exact rejection_newest h hold hstays (h.passes hy)
  · rw [hpt] at hrests
    exact hdata ▸ hrests rfl

end Causes

section Demo

/-- Document 3 waits for review, and call 40 is about to reject it. -/
private def demoReview : List Action :=
  demoUpload ++ demoOcr .initial 20 "text" ++ [.finish 20] ++ demoExtraction .initial 30 (demoResult 10 (1 / 2)) ++
    [.step 30 .execute, .step 30 .execute, .finish 30, .call 40 (.reject 1 3 2 "wrong vendor")]

/-- An execution of webhook job 0 up to its request; a rejection's reads the audit log. -/
private def demoDelivery (reads : List Action) : List Action :=
  [.start 80 (.webhook 0) 81, .step 80 .execute, .step 80 .execute] ++ reads ++ [.step 80 .execute]

/-- Before the webhook job is run, the document is reprocessed and approved automatically. -/
private def demoReprocess : List Action :=
  [.finish 40, .call 50 (.reprocess 1 3 2 51), .step 50 .execute, .step 50 .execute, .finish 50] ++
    demoOcr (.reprocess 51) 60 "text" ++ [.finish 60] ++ demoExtraction (.reprocess 51) 70 (demoResult 10 (99 / 100))

/-- The rejection, its webhook job and what comes after, with a check of the configurations. -/
private def traced (after : List Action) (check : Config → Config → Config → Bool) : Bool :=
  (run step demo demoReview).any fun before =>
    before.command 40 == some (.tx (.reject 1 3 2 "wrong vendor")) &&
    ((Tx.reject 1 3 2 "wrong vendor").run true before.world.db).1.isOk &&
    (step before (.step 40 .execute)).any fun decided =>
      (run step decided [.step 40 .execute]).any fun m =>
        m.command 40 == some (.webhookQueueAdd 3 1) && m.world.serial == 0 &&
        (step m (.step 40 .execute)).any fun queued => (run step queued after).any fun c => check before decided c

private theorem traced_caused {after : List Action} {check : Config → Config → Config → Bool}
    (h : traced after check = true) : ∃ before decided queued c,
      Caused 40 3 (.rejected "wrong vendor") 0 before decided queued [.step 40 .execute] ∧
        run step queued after = some c ∧ check before decided c = true := by
  simp only [traced, Option.any_eq_true, Bool.and_eq_true, beq_iff_eq] at h
  obtain ⟨before, hbefore, ⟨hcmd, hok⟩, decided, hdecided, m, hm, ⟨hadd, hserial⟩, queued, hqueued, c, hc, hcheck⟩ := h
  exact ⟨before, decided, queued, c, ⟨⟨_, _, _, hbefore⟩, ⟨_, hcmd, rfl, hok⟩, hdecided, m, 1, hm, hadd, hserial, hqueued⟩,
    hc, hcheck⟩

/-- The payload execution 80 is about to send, and the job it runs. -/
private def sending (c : Config) : Option (WebhookPayload × Nat) :=
  match c.procs 80, c.command 80 with
  | some q, some (.fetch _ payload _) => (courierOf q).map fun k => (payload, k.serial)
  | _, _ => none

private theorem sending_inv {c : Config} {payload : WebhookPayload} {n : Nat} (h : sending c = some (payload, n)) :
    ∃ q k url secret, c.procs 80 = some q ∧ courierOf q = some k ∧ k.serial = n ∧
      c.command 80 = some (.fetch url payload secret) := by
  unfold sending at h
  split at h
  · next q url payload' secret hq hcmd =>
    obtain ⟨k, hk, heq⟩ := Option.map_eq_some_iff.1 h
    obtain ⟨rfl, hn⟩ := Prod.mk.inj heq
    exact ⟨q, k, url, secret, hq, hk, hn, hcmd⟩
  · cases h

/-- The webhook job of a rejection announces an approval. -/
theorem rejection_announced_as_approval : ∃ before decided queued c q k url payload secret,
    Caused 40 3 (.rejected "wrong vendor") 0 before decided queued [.step 40 .execute] ∧
    run step queued (demoReprocess ++ demoDelivery []) = some c ∧ c.procs 80 = some q ∧ courierOf q = some k ∧
    k.serial = 0 ∧ c.command 80 = some (.fetch url payload secret) ∧ payload.event = .documentApproved ∧
    ¬ Announces payload (.rejected "wrong vendor") := by
  obtain ⟨before, decided, queued, c, hcaused, hc, hcheck⟩ := @traced_caused (demoReprocess ++ demoDelivery [])
    (fun _ _ c => (sending c).any fun sent => sent.1.event == .documentApproved && sent.2 == 0) (by decide +kernel)
  simp only [Option.any_eq_true, Bool.and_eq_true, beq_iff_eq] at hcheck
  obtain ⟨⟨payload, n⟩, hsent, hevent, rfl⟩ := hcheck
  obtain ⟨q, k, url, secret, hq, hk, hn, hcmd⟩ := sending_inv hsent
  refine ⟨before, decided, queued, c, q, k, url, payload, secret, hcaused, hc, hq, hk, hn, hcmd, hevent, ?_⟩
  rintro ⟨he, -⟩
  cases he.symm.trans hevent

/-- Run at once, the job announces the rejection and its reason. -/
theorem rejection_announced : ∃ before decided queued c url payload secret,
    Caused 40 3 (.rejected "wrong vendor") 0 before decided queued [.step 40 .execute] ∧
    run step queued (demoDelivery [.step 80 .execute]) = some c ∧ c.command 80 = some (.fetch url payload secret) ∧
    Announces payload (.rejected "wrong vendor") := by
  obtain ⟨before, decided, queued, c, hcaused, hc, hcheck⟩ := @traced_caused (demoDelivery [.step 80 .execute])
    (fun before decided c => (sending c).any (fun sent => sent.2 == 0) &&
      decide (Along step (fun c _ _ => c.status 3 = some (Transition.rejected "wrong vendor").status) decided
        ([.step 40 .execute] ++ .step 40 .execute :: demoDelivery [.step 80 .execute])) &&
      (before.world.db.record 3).all fun r => (rejections r.audit).isEmpty) (by decide +kernel)
  simp only [Option.any_eq_true, Bool.and_eq_true, beq_iff_eq, decide_eq_true_eq] at hcheck
  obtain ⟨⟨⟨⟨payload, n⟩, hsent, rfl⟩, hstays⟩, hnone⟩ := hcheck
  obtain ⟨q, k, url, secret, hq, hk, hn, hcmd⟩ := sending_inv hsent
  refine ⟨before, decided, queued, c, url, payload, secret, hcaused, hc, hcmd, ?_⟩
  refine ((delivery_announces hcaused hc hq hk hn).2.1 url payload secret hcmd).2 hstays fun r hr row hrow => ?_
  rw [hr] at hnone
  rw [List.isEmpty_iff.1 hnone] at hrow
  cases hrow

end Demo
end DocAuto.Webhook
