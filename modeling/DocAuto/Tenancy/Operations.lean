import DocAuto.Pipeline.System
import DocAuto.Tenancy.Transactions

/-! Operations of one tenant from start to end, in a database that other tenants share. -/
namespace DocAuto.Tenancy
open Process Database Pipeline

inductive Operation where
  | api (call : ApiCall)
  | ocr (job : JobData)
  | extraction (job : JobData)
  | webhook (job : JobData) (deliveryId : Uuid)
  deriving DecidableEq, Repr

namespace Operation

@[reducible] def Result : Operation → Type
  | .api (.upload _ _) | .api (.approve _ _ _) | .api (.reject _ _ _ _) | .api (.reprocess _ _ _ _) => DocumentRow
  | .api (.list _ _ _ _) => List DocumentRow × Nat
  | .api (.get _ _) => DocumentRow × Option ExtractionRow × List AuditRow
  | .api (.edit _ _ _ _) => ExtractionRow
  | .api (.getTenant _) | .api (.updateTenant _ _) => TenantConfig
  | .api (.fileUrl _ _) | .api (.rotateSecret _ _) => String
  | .ocr _ | .extraction _ | .webhook _ _ => JobResult

def run : (op : Operation) → Proc op.Result
  | .api (.upload p id) => uploadNewDocument p id
  | .api (.list t status page pageSize) => listDocuments t status page pageSize
  | .api (.get t d) => getDocumentWithAudit t d
  | .api (.fileUrl t d) => getDocumentFileUrl t d
  | .api (.approve t d a) => approveDocument t d a
  | .api (.reject t d a reason) => rejectDocument t d a reason
  | .api (.edit t d a changes) => editDocumentExtraction t d a changes
  | .api (.reprocess t d a run) => reprocessDocument t d a run
  | .api (.getTenant t) => getTenantConfig t
  | .api (.updateTenant t params) => updateTenantConfig t params
  | .api (.rotateSecret t secret) => rotateWebhookSecret t secret
  | .ocr job => ocrProcessor job
  | .extraction job => extractionProcessor job
  | .webhook job deliveryId => processWebhookJob job deliveryId

def tenantId : Operation → Uuid
  | .api (.upload p _) => p.tenantId
  | .api (.list t _ _ _) | .api (.get t _) | .api (.fileUrl t _) | .api (.approve t _ _) | .api (.reject t _ _ _)
  | .api (.edit t _ _ _) | .api (.reprocess t _ _ _) | .api (.getTenant t) | .api (.updateTenant t _)
  | .api (.rotateSecret t _) => t
  | .ocr job | .extraction job | .webhook job _ => job.tenantId

/-- The user of the access token. -/
def actor : Operation → Option Uuid
  | .api (.upload p _) => some p.uploadedBy
  | .api (.approve _ _ a) | .api (.reject _ _ a _) | .api (.edit _ _ a _) | .api (.reprocess _ _ a _) => some a
  | _ => none

/-- The UUID the database generates for a row of the operation. -/
def draw : Operation → Option Uuid
  | .api (.upload _ id) => some id
  | .webhook _ deliveryId => some deliveryId
  | _ => none

def isApi : Operation → Bool
  | .api _ => true
  | _ => false

/-- These are the programs the processes of the system run. -/
theorem run_void (call : ApiCall) : call.program = (Operation.api call).run.void := by
  cases call <;> rfl

end Operation

/-- The operation's surroundings: the database, and the commands it has issued so far. -/
structure Scene where
  db : Db
  calls : List Cmd

/-- The clock, connections that fail and the answers of queues and providers, as the
commands issued so far lead to them. -/
structure Environment where
  clock : List Cmd → Timestamp
  outage : List Cmd → Option Failure
  provider : List Cmd → (c : Cmd) → Except Failure c.Resp

def Environment.answer (env : Environment) (rls : Bool) (c : Cmd) (w : Scene) : Except Failure c.Resp × Scene :=
  match c with
  | .tx x =>
    match env.outage w.calls with
    | some e => (.error e, { w with calls := .tx x :: w.calls })
    | none =>
      let result := x.run rls { w.db with now := env.clock w.calls }
      (result.1, ⟨result.2, .tx x :: w.calls⟩)
  | c => (env.provider w.calls c, { w with calls := c :: w.calls })

/-- Commands to queues and providers. -/
def external : Cmd → Prop
  | .tx _ => False
  | _ => True

/-- The transactions of one tenant's operation; other commands see none of the rows. -/
def conduct (rls : Bool) (t draw : Uuid) (actor : Option Uuid) : Protocol Cmd Cmd.Resp Failure where
  Phase := Knowledge
  allowed k
    | .tx x => Admissible rls t draw actor k x
    | _ => True
  answers _ _ _ := True
  next k
    | .tx x, r => ⟨found x r ++ k.owned, draws x || k.spent⟩
    | _, _ => k

section Steady
variable {rls : Bool} {t draw : Uuid} {actor : Option Uuid} {K : Knowledge → Prop}

/-- A program that keeps to the tenant as long as `K` holds of what it knows. -/
def Steady {α : Type} (rls : Bool) (t draw : Uuid) (actor : Option Uuid) (K : Knowledge → Prop) (p : Proc α) : Prop :=
  (conduct rls t draw actor).Keeps K p

namespace Steady

theorem provider {c : Cmd} (hc : external c) : Steady rls t draw actor K (perform c) := by
  refine Protocol.Keeps.perform fun k hk => ?_
  cases c with
  | tx x => exact hc.elim
  | _ => exact ⟨trivial, fun _ _ => hk⟩

/-- Knowledge only grows. -/
theorem transaction {x : Tx} (stable : ∀ k l, K k → K ⟨l ++ k.owned, k.spent⟩) (hd : draws x = false)
    (hx : ∀ k, K k → Admissible rls t draw actor k x) : Steady rls t draw actor K (transaction x) := by
  refine Protocol.Keeps.perform fun k hk => ⟨hx k hk, fun r _ => ?_⟩
  have : (conduct rls t draw actor).next k (.tx x) r = ⟨found x r ++ k.owned, k.spent⟩ := by
    simp [conduct, hd]
  exact this ▸ stable k _ hk

end Steady

/-- Programs whose transactions are safe whatever is known. -/
private abbrev Always {α : Type} (rls : Bool) (t draw : Uuid) (actor : Option Uuid) (p : Proc α) : Prop :=
  Steady rls t draw actor (fun _ => True) p

private theorem always_tx {x : Tx} (hd : draws x = false) (hx : ∀ k, Admissible rls t draw actor k x) :
    Always rls t draw actor (transaction x) := .transaction (fun _ _ _ => trivial) hd fun k _ => hx k

private theorem enqueueWebhookIfConfigured_steady {d : Uuid} :
    Always rls t draw actor (enqueueWebhookIfConfigured t d) :=
  .bind (always_tx rfl fun _ => rfl) fun _ => .ite (Steady.provider trivial) (.ret ())

private theorem getTenantConfig_steady : Always rls t draw actor (getTenantConfig t) := by
  refine .bind (always_tx rfl fun _ => rfl) fun tenant => ?_
  cases tenant with
  | none => exact .throw _
  | some tenant => exact .ret _

private theorem upload_conducts {p : Upload} :
    (conduct rls p.tenantId draw (some p.uploadedBy)).wp (fun _ _ => True) (uploadNewDocument p draw) ⟨[], false⟩ := by
  refine (Protocol.wp_bind _ _ _).2 (Protocol.wp_step ⟨rfl, rfl, rfl, rfl⟩ (fun _ _ => trivial) fun row _ => ?_)
  cases row with
  | none => trivial
  | some row =>
    -- The row that came back is the tenant's, and every later transaction is about it.
    have stable : ∀ (k : Knowledge) (l : List Uuid), row.id ∈ k.owned → row.id ∈ (⟨l ++ k.owned, k.spent⟩ : Knowledge).owned :=
      fun _ _ h => List.mem_append_right _ h
    have hsteady : Steady rls p.tenantId draw (some p.uploadedBy) (fun k => row.id ∈ k.owned)
        (tryCatch (do
          let storageKey ← perform (.uploadDocument p row.id)
          transaction (.updateDocument p.tenantId row.id { storageKey := some storageKey })
          writeAuditLog p.tenantId {
            documentId := row.id, actorId := some p.uploadedBy, event := .uploaded,
            newStatus := some .uploaded, payload := some (.file p.fileName p.mimeType) }
          perform (.queueAdd { documentId := row.id, tenantId := p.tenantId } (ocrJobId row.id))
          return { row with storageKey := storageKey }) fun _ => do
            transaction (.updateDocument p.tenantId row.id { status := some .failed })
            throw (.app (.internal "Failed to store uploaded document"))) := by
      refine .tryCatch ?_ fun _ => .bind (Steady.transaction stable rfl fun k hk => ⟨rfl, .inr hk⟩) fun _ => .throw _
      refine .bind (Steady.provider trivial) fun _ => ?_
      refine .bind (Steady.transaction stable rfl fun k hk => ⟨rfl, .inr hk⟩) fun _ => ?_
      refine .bind (Steady.transaction stable rfl fun k hk => ⟨rfl, .inr hk, .inr rfl⟩) fun _ => ?_
      exact .bind (Steady.provider trivial) fun _ => .ret _
    exact Protocol.wp_mono (fun _ _ _ => trivial) (hsteady _ (List.mem_append_left _ List.mem_cons_self))

private theorem get_conducts {d : Uuid} {k : Knowledge} :
    (conduct rls t draw actor).wp (fun _ _ => True) (getDocumentWithAudit t d) k := by
  refine (Protocol.wp_bind _ _ _).2 (Protocol.wp_step rfl (fun _ _ => trivial) fun found _ => ?_)
  cases found with
  | none => trivial
  | some x =>
    refine (Protocol.wp_bind _ _ _).2 (Protocol.wp_step ⟨rfl, .inr ?_⟩ (fun _ _ => trivial) fun _ _ => trivial)
    exact List.mem_append_left _ List.mem_cons_self

private theorem ocr_steady {job : JobData} : Always true job.tenantId draw actor (ocrProcessor job) := by
  refine .bind (always_tx rfl fun _ => ⟨rfl, rfl⟩) fun document => ?_
  cases document with
  | none => exact .ret _
  | some document =>
    have setStatus : ∀ st, Always true job.tenantId draw actor (setStatus job st) := fun _ =>
      always_tx rfl fun _ => ⟨rfl, .inl rfl⟩
    refine .bind (setStatus _) fun _ => .tryCatch ?_ fun _ => .bind (setStatus _) fun _ => .throw _
    refine .bind (Steady.provider trivial) fun _ => .bind (Steady.provider trivial) fun _ => ?_
    refine .bind (always_tx rfl fun _ => ⟨rfl, .inl rfl⟩) fun _ => ?_
    refine .bind (always_tx rfl fun _ => ⟨rfl, .inl rfl, .inl rfl⟩) fun _ => ?_
    exact .bind (Steady.provider trivial) fun _ => .ret _

private theorem extraction_steady {job : JobData} : Always true job.tenantId draw actor (extractionProcessor job) := by
  have setStatus : ∀ st, Always true job.tenantId draw actor (setStatus job st) := fun _ =>
    always_tx rfl fun _ => ⟨rfl, .inl rfl⟩
  have audit : ∀ e a b x, Always true job.tenantId draw actor (workerAudit job e a b x) := fun _ _ _ _ =>
    always_tx rfl fun _ => ⟨rfl, .inl rfl, .inl rfl⟩
  refine .bind (always_tx rfl fun _ => ⟨rfl, rfl⟩) fun found => ?_
  cases found with
  | none => exact .ret _
  | some found =>
    refine .ite (.ret _) ?_
    dsimp only
    split
    · exact .bind (setStatus _) fun _ => .bind (audit _ _ _ _) fun _ => .ret _
    · refine .bind (always_tx rfl fun _ => rfl) fun tenant => .bind (setStatus _) fun _ => ?_
      refine .tryCatch ?_ fun _ => .bind (setStatus _) fun _ => .bind (audit _ _ _ _) fun _ => .throw _
      refine .bind (Steady.provider trivial) fun c => .ite ?_ ?_
      · exact .bind (always_tx rfl fun _ => ⟨rfl, .inl rfl⟩) fun _ => .bind (audit _ _ _ _) fun _ => .ret _
      · refine .bind (always_tx rfl fun _ => ⟨rfl, .inl rfl⟩) fun _ => .bind (Steady.provider trivial) fun r => ?_
        refine .bind (always_tx rfl fun _ => ⟨rfl, rfl⟩) fun _ => .ite ?_ ?_
        · refine .bind (setStatus _) fun _ => .bind (audit _ _ _ _) fun _ => .bind (audit _ _ _ _) fun _ => ?_
          exact .bind (.ite (Steady.provider trivial) (.ret ())) fun _ => .ret _
        · exact .bind (setStatus _) fun _ => .bind (audit _ _ _ _) fun _ => .bind (audit _ _ _ _) fun _ => .ret _

private theorem recordDelivery_steady {job : JobData} {attempt : Nat} {deliveryId : Uuid} {d : Delivery} :
    Always true job.tenantId draw actor (recordDelivery job attempt deliveryId d) := by
  have audit : ∀ row : AuditRow, row.actorId = none → Always true job.tenantId draw actor (writeAuditLog job.tenantId row) :=
    fun _ h => always_tx rfl fun _ => ⟨rfl, .inl rfl, .inl h⟩
  refine .bind (always_tx rfl fun _ => ⟨rfl, rfl⟩) fun _ => .ite ?_ ?_
  · exact .bind (audit _ rfl) fun _ => .ret _
  · exact .bind (audit _ rfl) fun _ => .ite (.ret _) (.throw _)

private theorem steady_next {α β : Type} {p : Proc α} {f : α → Proc β} {k : Knowledge} (hk : K k)
    (hp : Steady rls t draw actor K p) (hf : ∀ a k', K k' → (conduct rls t draw actor).wp (fun _ _ => True) (f a) k') :
    (conduct rls t draw actor).wp (fun _ _ => True) (p >>= f) k := by
  refine (Protocol.wp_bind _ _ _).2 (Protocol.wp_mono (fun k' r hk' => ?_) (hp k hk))
  cases r with
  | error e => trivial
  | ok a => exact hf a k' hk'

private theorem deliver_steady {url : String} {payload : WebhookPayload} {secret : String} :
    Always rls t draw actor (deliver url payload secret) :=
  .tryCatch (.bind (Steady.provider trivial) fun _ => .ret _) fun _ => .ret _

private theorem webhook_conducts {job : JobData} :
    (conduct true job.tenantId draw actor).wp (fun _ _ => True) (processWebhookJob job draw) ⟨[], false⟩ := by
  refine (Protocol.wp_bind _ _ _).2 (Protocol.wp_step ⟨rfl, rfl⟩ (fun _ _ => trivial) fun x _ => ?_)
  obtain ⟨document | ⟨document, extraction⟩, tenant | tenant⟩ := x
  · trivial
  · trivial
  · trivial
  · simp only [Program.ofExcept, Protocol.wp_ret]
    split
    · refine Protocol.wp_ite (fun _ => trivial) fun _ => ?_
      -- The document is known to be the tenant's, and the UUID of the delivery is still unused.
      have stable : ∀ (k : Knowledge) (l : List Uuid), job.documentId ∈ k.owned ∧ k.spent = false →
          job.documentId ∈ (⟨l ++ k.owned, k.spent⟩ : Knowledge).owned ∧ k.spent = false :=
        fun _ _ h => ⟨List.mem_append_right _ h.1, h.2⟩
      refine steady_next (K := fun k => job.documentId ∈ k.owned ∧ k.spent = false) ⟨List.mem_cons_self, rfl⟩
        (Steady.transaction stable rfl fun _ _ => ⟨rfl, rfl⟩) fun n k hk => ?_
      refine steady_next (K := fun k => job.documentId ∈ k.owned ∧ k.spent = false) hk ?_ fun payload k hk => ?_
      · exact .ite (.ret _) (.bind (Steady.transaction stable rfl fun _ _ => ⟨rfl, .inl rfl⟩) fun _ => .ret _)
      · refine (Protocol.wp_bind _ _ _).2 (Protocol.wp_step ⟨rfl, rfl, hk.1, rfl, hk.2⟩ (fun _ _ => trivial) fun i _ => ?_)
        exact steady_next trivial deliver_steady fun d k _ =>
          Protocol.wp_mono (fun _ _ _ => trivial) (recordDelivery_steady k trivial)
    · trivial

private theorem review_steady {α : Type} {x : Tx} {k : x.Result → Proc α} (hd : draws x = false)
    (hx : ∀ k, Admissible rls t draw actor k x) (hk : ∀ a, Always rls t draw actor (k a)) :
    Always rls t draw actor (transaction x >>= k) := .bind (always_tx hd hx) hk

/-- Every operation keeps to its tenant: with the policies in force, or as an operation of the API. -/
theorem operation_conducts {op : Operation} (h : rls ∨ op.isApi) :
    (conduct rls op.tenantId (op.draw.getD draw) op.actor).wp (fun _ _ => True) op.run ⟨[], op.draw.isNone⟩ := by
  have done {α : Type} {p : Proc α} {t : Uuid} {u : Option Uuid} {k : Knowledge} (hp : Always rls t draw u p) :
      (conduct rls t draw u).wp (fun _ _ => True) p k := Protocol.wp_mono (fun _ _ _ => trivial) (hp k trivial)
  cases op with
  | ocr job =>
    obtain rfl : rls = true := h.resolve_right nofun
    exact done ocr_steady
  | extraction job =>
    obtain rfl : rls = true := h.resolve_right nofun
    exact done extraction_steady
  | webhook job deliveryId =>
    obtain rfl : rls = true := h.resolve_right nofun
    exact webhook_conducts
  | api call =>
    cases call with
    | upload p id => exact upload_conducts
    | list t status page pageSize => exact done (always_tx rfl fun _ => rfl)
    | get t d => exact get_conducts
    | fileUrl t d =>
      refine done (.bind (always_tx rfl fun _ => rfl) fun key => ?_)
      cases key with
      | none => exact .throw _
      | some key => exact Steady.provider trivial
    | approve t d a =>
      exact done (review_steady rfl (fun _ => ⟨rfl, rfl⟩) fun _ => .bind enqueueWebhookIfConfigured_steady fun _ => .ret _)
    | reject t d a reason =>
      exact done (review_steady rfl (fun _ => ⟨rfl, rfl⟩) fun _ => .bind enqueueWebhookIfConfigured_steady fun _ => .ret _)
    | edit t d a changes => exact done (always_tx rfl fun _ => ⟨rfl, rfl⟩)
    | reprocess t d a run =>
      exact done (review_steady rfl (fun _ => ⟨rfl, rfl⟩) fun _ => .bind (Steady.provider trivial) fun _ => .ret _)
    | getTenant t => exact done getTenantConfig_steady
    | updateTenant t params =>
      refine done (.bind (always_tx rfl fun _ => rfl) fun tenant => ?_)
      cases tenant with
      | none => exact .throw _
      | some tenant => exact getTenantConfig_steady
    | rotateSecret t secret =>
      refine done (.bind (always_tx rfl fun _ => rfl) fun tenant => ?_)
      cases tenant with
      | none => exact .throw _
      | some tenant => exact .ite (.bind (always_tx rfl fun _ => rfl) fun _ => .ret _) (.throw _)

end Steady
end DocAuto.Tenancy
