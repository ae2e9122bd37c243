import DocAuto.Database.Commit
import DocAuto.Database.Frame
import DocAuto.Pipeline.System

/-! The review operations towards their caller: each of them alone, where any of its calls to the
database and the queues may throw. -/
namespace DocAuto.Pipeline
open Process Database Table

inductive ReviewCall where
  | approve (tenantId documentId actorId : Uuid)
  | reject (tenantId documentId actorId : Uuid) (reason : String)
  | edit (tenantId documentId actorId : Uuid) (changes : ExtractionEdit)
  | reprocess (tenantId documentId actorId processingRunId : Uuid)
  deriving DecidableEq, Repr

namespace ReviewCall

@[reducible] def tx : ReviewCall → Tx
  | approve t d a => .approve t d a
  | reject t d a reason => .reject t d a reason
  | edit t d a changes => .edit t d a changes
  | reprocess t d a _ => .reprocess t d a

def program : (call : ReviewCall) → Proc call.tx.Result
  | approve t d a => approveDocument t d a
  | reject t d a reason => rejectDocument t d a reason
  | edit t d a changes => editDocumentExtraction t d a changes
  | reprocess t d a run => reprocessDocument t d a run

def documentId : ReviewCall → Uuid
  | approve _ d _ | reject _ d _ _ | edit _ d _ _ | reprocess _ d _ _ => d

/-- The statuses the operation is for. -/
def expects : ReviewCall → List DocumentStatus
  | approve _ _ _ | reject _ _ _ _ | edit _ _ _ _ => [.pendingReview]
  | reprocess _ _ _ _ => [.failed, .rejected]

/-- The one audit row of the operation on a document of the given status. -/
def auditRow (now : Timestamp) (status : DocumentStatus) : ReviewCall → AuditRow
  | approve _ d a => ⟨d, some a, .approved, some .pendingReview, some .approved, none, now⟩
  | reject _ d a reason => ⟨d, some a, .rejected, some .pendingReview, some .rejected, some (.rejection reason), now⟩
  | edit _ d a changes => ⟨d, some a, .fieldEdited, some status, some status, some (.edit changes), now⟩
  | reprocess _ d a _ => ⟨d, some a, .reprocessed, some status, some .uploaded, none, now⟩

/-- What the operation is to make of the document and its extraction. -/
def outcome (r : Record) : ReviewCall → DocumentRow × Option ExtractionRow
  | approve _ _ _ => ({ r.row with status := .approved }, r.extraction)
  | reject _ _ _ _ => ({ r.row with status := .rejected }, r.extraction)
  | edit _ _ _ changes => (r.row, r.extraction.map (applyEdit changes))
  | reprocess _ _ _ _ => ({ r.row with status := .uploaded, docType := none, rawText := none }, none)

end ReviewCall

/-- The tenant has a webhook URL. -/
def World.notifies (w : World) (t : Uuid) : Bool := truthy ((lookup TenantRow.id t w.db.tenants).bind (·.webhookUrl))

/-- The jobs once the follow-up job of the operation is in its queue. -/
def ReviewCall.enqueued (w : World) : ReviewCall → JobId → Option Job
  | approve t d _ | reject t d _ _ =>
    if w.notifies t then Function.update w.jobs (.webhook w.serial) (some ⟨{ documentId := d, tenantId := t }, .waiting, 0⟩)
    else w.jobs
  | edit _ _ _ _ => w.jobs
  | reprocess t d _ run =>
    Function.update w.jobs (ocrJobId d (.reprocess run))
      (some ⟨{ documentId := d, tenantId := t, processingRunId := .reprocess run }, .waiting, 0⟩)

/-- Nothing has changed. -/
def World.Untouched (w w' : World) : Prop :=
  w'.db.documents = w.db.documents ∧ w'.db.documentsExtraction = w.db.documentsExtraction ∧
    w'.db.documentAuditLog = w.db.documentAuditLog ∧ w'.jobs = w.jobs

/-- The change, exactly one audit row and the follow-up job are in place, and nothing else. -/
def ReviewCall.InPlace (call : ReviewCall) (w w' : World) : Prop :=
  (∃ r, w.db.record call.documentId = some r ∧ r.row.tenantId = call.tx.tenantId ∧ r.row.status ∈ call.expects ∧
    w'.db.record call.documentId =
      some ⟨(call.outcome r).1, (call.outcome r).2, r.audit ++ [call.auditRow w.db.now r.row.status]⟩) ∧
  (∀ d, d ≠ call.documentId → w'.db.record d = w.db.record d) ∧ w'.jobs = call.enqueued w

/-- The operation rejects without a trace, or resolves with everything in place. -/
def ReviewCall.AllOrNothing (call : ReviewCall) (w : World) (result : Except Failure call.tx.Result × World) : Prop :=
  (∃ e, result.1 = .error e) ∧ w.Untouched result.2 ∨ (∃ x, result.1 = .ok x) ∧ call.InPlace w result.2

/-- The `n`-th call to the database or a queue throws `faults n`. -/
def attempt (faults : Nat → Option Failure) (c : Cmd) (s : World × Nat) : Except Failure c.Resp × World × Nat :=
  match c.exec ((faults s.2).elim .execute .throws) s.1 with
  | some (r, w) => (r, w, s.2 + 1)
  | none => (.error (.other "unanswered"), s.1, s.2 + 1)

namespace ReviewCall

/-- The operation alone, from `w`. -/
def run (call : ReviewCall) (faults : Nat → Option Failure) (w : World) : Except Failure call.tx.Result × World :=
  let result := call.program.exec (attempt faults) (w, 0)
  (result.1, result.2.1)

/-- The calls an operation makes after its transaction. -/
def followUps (w : World) : ReviewCall → Nat
  | approve t _ _ | reject t _ _ _ => if w.notifies t then 2 else 1
  | edit _ _ _ _ => 0
  | reprocess _ _ _ _ => 1

/-- Where the transaction commits, no call after it throws. -/
def Unbroken (call : ReviewCall) (faults : Nat → Option Failure) (w : World) : Prop :=
  faults 0 = none → (call.tx.run true w.db).1.isOk → ∀ n, 1 ≤ n → n ≤ call.followUps w → faults n = none

/-- The UUID and the serial number of the job to come are new. -/
def Draws (call : ReviewCall) (w : World) : Prop :=
  w.jobs (.webhook w.serial) = none ∧ ∀ t d a run, call = .reprocess t d a run → w.jobs (ocrJobId d (.reprocess run)) = none

end ReviewCall

section Commands
variable {faults : Nat → Option Failure} {w : World} {n : Nat} {e : Failure} {db : Db} {t d : Uuid}

theorem exec_perform (c : Cmd) (s : World × Nat) : (perform c).exec (attempt faults) s = attempt faults c s :=
  Program.exec_perform _ c s

theorem attempt_throws (c : Cmd) (h : faults n = some e) : attempt faults c (w, n) = (.error e, w, n + 1) := by
  unfold attempt
  rw [h]
  cases c <;> rfl

theorem attempt_tx (x : Tx) (h : faults n = none) :
    attempt faults (.tx x) (w, n) = ((x.run true w.db).1, { w with db := (x.run true w.db).2 }, n + 1) := by
  unfold attempt
  rw [h]
  rfl

theorem attempt_queueAdd (data : JobData) (jobId : JobId) (h : faults n = none) :
    attempt faults (.queueAdd data jobId) (w, n) = (.ok (), w.add jobId data, n + 1) := by
  unfold attempt
  rw [h]
  rfl

theorem attempt_webhookQueueAdd (h : faults n = none) : attempt faults (.webhookQueueAdd d t) (w, n) =
    (.ok (), { w.add (.webhook w.serial) { documentId := d, tenantId := t } with serial := w.serial + 1 }, n + 1) := by
  unfold attempt
  rw [h]
  rfl

theorem findTenant_run (t : Uuid) (db : Db) :
    (Tx.findTenant t).run true db = (.ok (lookup TenantRow.id t db.tenants), db) := by
  rw [← select_tenant]
  rfl

end Commands

section Committed
variable {call : ReviewCall} {w : World} {x : call.tx.Result} {db' : Db}

/-- A committed transaction has made the change and written the audit row. -/
theorem ReviewCall.committed (hs : w.db.Sound) (h : call.tx.run true w.db = (.ok x, db')) :
    (∃ r, w.db.record call.documentId = some r ∧ r.row.tenantId = call.tx.tenantId ∧ r.row.status ∈ call.expects ∧
      db'.record call.documentId =
        some ⟨(call.outcome r).1, (call.outcome r).2, r.audit ++ [call.auditRow w.db.now r.row.status]⟩) ∧
    ∀ d, d ≠ call.documentId → db'.record d = w.db.record d := by
  have hout := fun d => @Tx.run_outcome w.db d hs call.tx
  rw [h] at hout
  have hdoc : call.tx.documentId = some call.documentId := by cases call <;> rfl
  constructor
  · obtain ⟨hrec, hadm, -⟩ := hout call.documentId
    obtain ⟨r, hr, ht, hg⟩ : ∃ r, w.db.record call.documentId = some r ∧ call.tx.tenantId = r.row.tenantId ∧ call.tx.guard r := by
      cases call <;> exact hadm rfl
    refine ⟨r, hr, ht.symm, ?_, ?_⟩
    · cases call with
      | approve t d a | reject t d a reason => exact List.mem_singleton.2 hg
      | edit t d a changes => exact List.mem_singleton.2 hg.1
      | reprocess t d a run =>
        have hg : r.row.status = .failed ∨ r.row.status = .rejected := hg
        simpa [expects] using hg
    · rw [hrec, hr, Tx.after_own hdoc ht]
      cases call <;> rfl
  · intro d hd
    obtain ⟨hrec, -, -⟩ := hout d
    rw [hrec]
    exact Tx.after_of_ne (by rw [hdoc]; exact fun he => hd (Option.some.inj he).symm) (by cases call <;> rintro _ ⟨⟩)

end Committed

section Run
variable {faults : Nat → Option Failure} {w : World} {n : Nat} {e : Failure} {t d : Uuid} {call : ReviewCall}

/-- Neither call throws, the second being made only with a URL. -/
def Spared (faults : Nat → Option Failure) (n : Nat) (notifies : Bool) : Prop :=
  faults n = none ∧ (notifies = true → faults (n + 1) = none)

theorem spared_iff {b : Bool} : Spared faults 1 b ↔ ∀ n, 1 ≤ n → n ≤ (if b then 2 else 1) → faults n = none := by
  constructor
  · rintro ⟨hone, htwo⟩ n hn hle
    cases b with
    | false =>
      obtain rfl : n = 1 := by simp at hle; omega
      exact hone
    | true =>
      obtain rfl | rfl : n = 1 ∨ n = 2 := by simp at hle; omega
      · exact hone
      · exact htwo rfl
  · intro h
    exact ⟨h 1 (le_refl 1) (by cases b <;> decide), fun hb => h 2 (by decide) (by rw [hb]; decide)⟩

/-- The enqueueing of a webhook job, from the `n`-th call on. -/
theorem enqueueWebhook_exec (faults : Nat → Option Failure) (w : World) (n : Nat) (t d : Uuid) :
    (Spared faults n (w.notifies t) → ∃ w' m,
      (enqueueWebhookIfConfigured t d).exec (attempt faults) (w, n) = (.ok (), w', m) ∧ w'.db = w.db ∧
      w'.jobs = if w.notifies t then (w.add (.webhook w.serial) { documentId := d, tenantId := t }).jobs else w.jobs) ∧
    (¬ Spared faults n (w.notifies t) → ∃ e m,
      (enqueueWebhookIfConfigured t d).exec (attempt faults) (w, n) = (.error e, w, m)) := by
  unfold Spared
  cases hn : faults n with
  | some e =>
    refine ⟨fun h => ?_, fun _ => ⟨e, n + 1, Program.exec_bind_of_error _ ?_⟩⟩
    · cases h.1
    · exact (exec_perform _ _).trans (attempt_throws _ hn)
  | none =>
    have hfind : (transaction (.findTenant t)).exec (attempt faults) (w, n) =
        (.ok (lookup TenantRow.id t w.db.tenants), w, n + 1) := by
      refine (exec_perform _ _).trans ((attempt_tx _ hn).trans ?_)
      rw [findTenant_run]
    have hstep : (enqueueWebhookIfConfigured t d).exec (attempt faults) (w, n) =
        (if w.notifies t then perform (.webhookQueueAdd d t) else return ()).exec (attempt faults) (w, n + 1) :=
      Program.exec_bind_of_ok _ hfind
    rw [hstep]
    by_cases hu : w.notifies t = true
    · rw [if_pos hu, if_pos hu, exec_perform]
      cases hm : faults (n + 1) with
      | some e =>
        refine ⟨fun h => ?_, fun _ => ⟨e, n + 2, attempt_throws _ hm⟩⟩
        cases h.2 hu
      | none =>
        exact ⟨fun _ => ⟨_, _, attempt_webhookQueueAdd hm, World.add_db _ _ _, rfl⟩,
          fun h => absurd ⟨rfl, fun _ => rfl⟩ h⟩
    · rw [if_neg hu, if_neg hu]
      exact ⟨fun _ => ⟨w, n + 1, rfl, rfl, rfl⟩, fun h => absurd ⟨rfl, fun h => absurd h hu⟩ h⟩

theorem enqueueWebhook_db (faults : Nat → Option Failure) (w : World) (n : Nat) (t d : Uuid) :
    ((enqueueWebhookIfConfigured t d).exec (attempt faults) (w, n)).2.1.db = w.db := by
  obtain ⟨hok, herr⟩ := enqueueWebhook_exec faults w n t d
  by_cases h : Spared faults n (w.notifies t)
  · obtain ⟨w', m, he, hdb, -⟩ := hok h
    rw [he]
    exact hdb
  · obtain ⟨e, m, he⟩ := herr h
    rw [he]

/-- An operation whose transaction throws ends with it. -/
theorem ReviewCall.run_refused (h : attempt faults (.tx call.tx) (w, 0) = (.error e, w, 1)) :
    call.run faults w = (.error e, w) := by
  have hexec : (transaction call.tx).exec (attempt faults) (w, 0) = (.error e, w, 1) :=
    (exec_perform _ _).trans h
  have hrun : call.program.exec (attempt faults) (w, 0) = (.error e, w, 1) := by
    cases call with
    | edit t d a changes => exact hexec
    | _ => exact Program.exec_bind_of_error _ hexec
  rw [run, hrun]

/-- What an operation makes of its committed transaction. -/
def ReviewCall.Finishes (call : ReviewCall) (faults : Nat → Option Failure) (w : World) (x : call.tx.Result) (db' : Db) :
    Prop :=
  ((∀ n, 1 ≤ n → n ≤ call.followUps w → faults n = none) → (call.run faults w).1 = .ok x ∧
    (call.run faults w).2.db = db' ∧ (call.run faults w).2.jobs = call.enqueued w) ∧
  (¬ (∀ n, 1 ≤ n → n ≤ call.followUps w → faults n = none) →
    (∃ e, (call.run faults w).1 = .error e) ∧ (call.run faults w).2.db = db')

private theorem decision_finishes {x : call.tx.Result} {db' : Db} (hw : w.jobs (.webhook w.serial) = none)
    (htenants : db'.tenants = w.db.tenants) (hfollow : call.followUps w = if w.notifies t then 2 else 1)
    (hjobs : call.enqueued w = if w.notifies t then
        Function.update w.jobs (.webhook w.serial) (some ⟨{ documentId := d, tenantId := t }, .waiting, 0⟩) else w.jobs)
    (hexec : call.program.exec (attempt faults) (w, 0) =
      (enqueueWebhookIfConfigured t d >>= fun _ => (.ret x : Proc call.tx.Result)).exec (attempt faults) ({ w with db := db' }, 1)) :
    call.Finishes faults w x db' := by
  have hnotifies : ({ w with db := db' } : World).notifies t = w.notifies t := by
    rw [World.notifies, htenants]
    rfl
  obtain ⟨hok, herr⟩ := enqueueWebhook_exec faults { w with db := db' } 1 t d
  rw [hnotifies, spared_iff, ← hfollow] at hok herr
  unfold ReviewCall.Finishes ReviewCall.run
  rw [hexec]
  constructor
  · intro hf
    obtain ⟨w', m, he, hdb, hj⟩ := hok hf
    rw [Program.exec_bind_of_ok _ he]
    have hadd : (({ w with db := db' } : World).add (.webhook w.serial) { documentId := d, tenantId := t }).jobs =
        Function.update w.jobs (.webhook w.serial) (some ⟨{ documentId := d, tenantId := t }, .waiting, 0⟩) := by
      simp [World.add, hw]
    exact ⟨rfl, hdb, (hadd ▸ hj).trans hjobs.symm⟩
  · intro hf
    obtain ⟨e, m, he⟩ := herr hf
    rw [Program.exec_bind_of_error _ he]
    exact ⟨⟨e, rfl⟩, rfl⟩

/-- An operation whose transaction commits. -/
theorem ReviewCall.run_committed {x : call.tx.Result} {db' : Db} (hd : call.Draws w) (hn : faults 0 = none)
    (h : call.tx.run true w.db = (.ok x, db')) : call.Finishes faults w x db' := by
  have hexec : (transaction call.tx).exec (attempt faults) (w, 0) = (.ok x, { w with db := db' }, 1) := by
    refine (exec_perform _ _).trans ((attempt_tx _ hn).trans ?_)
    rw [h]
  have htenants : db'.tenants = w.db.tenants := by
    have hsame := @Tx.run_same .tenants w.db true call.tx (by cases call <;> simp [Tx.tables])
    rw [h] at hsame
    exact hsame
  cases call with
  | approve t d a | reject t d a reason =>
    exact decision_finishes hd.1 htenants rfl rfl (Program.exec_bind_of_ok _ hexec)
  | edit t d a changes =>
    have hrun : (ReviewCall.edit t d a changes).run faults w = (.ok x, { w with db := db' }) := by
      rw [run, show (ReviewCall.edit t d a changes).program.exec (attempt faults) (w, 0) = _ from hexec]
    refine ⟨fun _ => ?_, fun hf => absurd (fun n hone hle => ?_) hf⟩
    · rw [hrun]
      exact ⟨rfl, rfl, rfl⟩
    · simp [followUps] at hle
      omega
  | reprocess t d a run =>
    have hrun : (ReviewCall.reprocess t d a run).program.exec (attempt faults) (w, 0) =
        (perform (.queueAdd { documentId := d, tenantId := t, processingRunId := .reprocess run }
          (ocrJobId d (.reprocess run))) >>= fun _ => (.ret x : Proc DocumentRow)).exec (attempt faults)
            ({ w with db := db' }, 1) := Program.exec_bind_of_ok _ hexec
    unfold Finishes ReviewCall.run
    rw [hrun]
    cases hone : faults 1 with
    | some e =>
      rw [Program.exec_bind_of_error _ ((exec_perform _ _).trans (attempt_throws _ hone))]
      refine ⟨fun hf => ?_, fun _ => ⟨⟨e, rfl⟩, rfl⟩⟩
      cases (hf 1 (le_refl 1) (le_refl 1)).symm.trans hone
    | none =>
      rw [Program.exec_bind_of_ok _ ((exec_perform _ _).trans (attempt_queueAdd _ _ hone))]
      have hnew : w.jobs (ocrJobId d (.reprocess run)) = none := hd.2 t d a run rfl
      refine ⟨fun _ => ⟨rfl, ?_, ?_⟩, fun hf => absurd (fun n hn hle => ?_) hf⟩
      · simp [World.add, hnew]
      · simp [World.add, hnew, enqueued]
      · obtain rfl : n = 1 := le_antisymm hle hn
        exact hone

private theorem run_committed_db {x : call.tx.Result} {db' : Db} (hn : faults 0 = none)
    (h : call.tx.run true w.db = (.ok x, db')) : (call.run faults w).2.db = db' := by
  have hexec : (transaction call.tx).exec (attempt faults) (w, 0) = (.ok x, { w with db := db' }, 1) := by
    refine (exec_perform _ _).trans ((attempt_tx _ hn).trans ?_)
    rw [h]
  have hfollow : ∀ (p : Proc Unit), call.program.exec (attempt faults) (w, 0) =
      (p >>= fun _ => (.ret x : Proc call.tx.Result)).exec (attempt faults) ({ w with db := db' }, 1) →
      (p.exec (attempt faults) ({ w with db := db' }, 1)).2.1.db = db' → (call.run faults w).2.db = db' := by
    intro p hp hdb
    rw [ReviewCall.run, hp, Program.exec_bind_ret]
    exact hdb
  cases call with
  | approve t d a | reject t d a reason =>
    exact hfollow _ (Program.exec_bind_of_ok _ hexec) (enqueueWebhook_db _ _ _ _ _)
  | edit t d a changes =>
    exact hfollow (.ret ()) hexec rfl
  | reprocess t d a run =>
    refine hfollow _ (Program.exec_bind_of_ok _ hexec) ?_
    rw [exec_perform]
    cases hone : faults 1 with
    | some e => rw [attempt_throws _ hone]
    | none =>
      rw [attempt_queueAdd _ _ hone]
      exact World.add_db _ _ _

/-- Whatever throws, the rows are those before the transaction or those after it. -/
theorem ReviewCall.run_db (call : ReviewCall) (faults : Nat → Option Failure) (w : World) :
    (call.run faults w).2.db = w.db ∨
      ∃ x db', call.tx.run true w.db = (.ok x, db') ∧ (call.run faults w).2.db = db' := by
  cases hn : faults 0 with
  | some e =>
    rw [run_refused (attempt_throws _ hn)]
    exact .inl rfl
  | none =>
    rcases htx : call.tx.run true w.db with ⟨e | x, db'⟩
    · have hrefused : attempt faults (.tx call.tx) (w, 0) = (.error e, w, 1) := by
        rw [attempt_tx _ hn, htx, Tx.run_error htx]
      rw [run_refused hrefused]
      exact .inl rfl
    · exact .inr ⟨x, db', rfl, run_committed_db hn htx⟩

/-- The audit trail of a committed operation is longer than before. -/
theorem ReviewCall.touched {x : call.tx.Result} {db' : Db} {w' : World} (hs : w.db.Sound)
    (h : call.tx.run true w.db = (.ok x, db')) (hw : w'.db = db') : ¬ w.Untouched w' := by
  rintro ⟨hdocuments, hextraction, haudit, -⟩
  obtain ⟨⟨r, hr, -, -, hr'⟩, -⟩ := committed hs h
  have hsame : db'.record call.documentId = w.db.record call.documentId :=
    Db.record_congr (hw ▸ hdocuments) (hw ▸ hextraction) (hw ▸ haudit)
  rw [hr', hr, Option.some.injEq] at hsame
  have hlen := congrArg (fun r => r.audit.length) hsame
  simp at hlen

/-- A review operation rejects without a trace or resolves with everything in place exactly when its
transaction does not commit or none of the calls after it throws. -/
theorem all_or_nothing_iff (call : ReviewCall) (faults : Nat → Option Failure) (w : World) (hs : w.db.Sound)
    (hd : call.Draws w) : call.AllOrNothing w (call.run faults w) ↔ call.Unbroken faults w := by
  cases hn : faults 0 with
  | some e =>
    have hrun := @ReviewCall.run_refused faults w e call (attempt_throws _ hn)
    refine iff_of_true ?_ fun h => ?_
    · rw [hrun]
      exact .inl ⟨⟨e, rfl⟩, rfl, rfl, rfl, rfl⟩
    · cases hn.symm.trans h
  | none =>
    rcases htx : call.tx.run true w.db with ⟨e | x, db'⟩
    · have hdb : db' = w.db := Tx.run_error htx
      have hrefused : attempt faults (.tx call.tx) (w, 0) = (.error e, w, 1) := by
        rw [attempt_tx _ hn, htx, hdb]
      refine iff_of_true ?_ fun _ hcommits => ?_
      · rw [ReviewCall.run_refused hrefused]
        exact .inl ⟨⟨e, rfl⟩, rfl, rfl, rfl, rfl⟩
      · rw [htx] at hcommits
        cases hcommits
    · obtain ⟨hok, herr⟩ := ReviewCall.run_committed hd hn htx
      have hcommits : (call.tx.run true w.db).1.isOk := by
        rw [htx]
        rfl
      constructor
      · intro h _ _
        by_contra hf
        obtain ⟨⟨e, he⟩, hdb⟩ := herr hf
        rcases h with ⟨-, hkept⟩ | ⟨⟨y, hy⟩, -⟩
        · exact call.touched hs htx hdb hkept
        · cases he.symm.trans hy
      · intro h
        obtain ⟨hres, hdb, hjobs⟩ := hok (h hn hcommits)
        obtain ⟨hown, hothers⟩ := ReviewCall.committed hs htx
        exact .inr ⟨⟨x, hres⟩, hdb ▸ hown, hdb ▸ hothers, hjobs⟩

end Run
section Demo

/-- Document 3 of a tenant with a webhook waits for review. -/
private def demoWorld : World where
  db := { tenants := [⟨1, "Acme", "acme", 85 / 100, some "https://acme.test/hook", some "secret"⟩]
          users := [⟨2, 1, "alice@acme.test", "hash", .admin⟩]
          documents := [⟨3, 1, 2, "1/3", "a.pdf", "application/pdf", .pendingReview, none, some "text", 0⟩]
          documentsExtraction := [], documentAuditLog := [], webhookDeliveries := [], now := 0 }
  jobs _ := none
  serial := 0

private def lostConnection (n : Nat) : Option Failure := if n = 2 then some (.other "connection lost") else none

/-- The approval is committed and logged, and the caller gets an error. -/
theorem approval_half_done :
    (ReviewCall.approve 1 3 2).run lostConnection demoWorld =
      (.error (.other "connection lost"), ((ReviewCall.approve 1 3 2).run lostConnection demoWorld).2) ∧
    (((ReviewCall.approve 1 3 2).run lostConnection demoWorld).2.db.document 3).map (·.status) = some .approved ∧
    ¬ (ReviewCall.approve 1 3 2).AllOrNothing demoWorld ((ReviewCall.approve 1 3 2).run lostConnection demoWorld) := by
  have herror : ((ReviewCall.approve 1 3 2).run lostConnection demoWorld).1 = .error (.other "connection lost") := by
    decide +kernel
  refine ⟨Prod.ext herror rfl, by decide +kernel, ?_⟩
  rintro (⟨-, hdocuments, -⟩ | ⟨⟨x, hx⟩, -⟩)
  · revert hdocuments
    decide +kernel
  · cases herror.symm.trans hx

/-- An approval that nothing disturbs enqueues its webhook job. -/
theorem all_or_nothing_approval :
    (ReviewCall.approve 1 3 2).AllOrNothing demoWorld ((ReviewCall.approve 1 3 2).run (fun _ => none) demoWorld) := by
  have hsound : demoWorld.db.Sound := by
    refine ⟨?_, ?_, by decide, by decide⟩ <;> unfold Keyed <;> decide
  exact (all_or_nothing_iff _ _ _ hsound ⟨rfl, by rintro _ _ _ _ ⟨⟩⟩).2 fun _ _ _ _ _ => rfl

end Demo
end DocAuto.Pipeline
