import DocAuto.Tenancy.Operations

/-! Noninterference of tenants: an operation does the same to its tenant's rows whatever
the rows of the others are, and leaves the others alone. -/
namespace DocAuto.Tenancy
open Process Database Pipeline

section View
variable {rls : Bool} {t draw : Uuid} {actor : Option Uuid} {k : Knowledge} {db o : Db}

/-- What is seen does not depend on the hour. -/
theorem Sees.at_clock (h : Sees t draw actor k db o) (n : Timestamp) :
    Sees t draw actor k { db with now := n } { o with now := n } :=
  ⟨h.sound.of_tables rfl, by rw [h.view]; rfl, h.owned, h.fresh, h.actor⟩

/-- A run on the database beside a run on the tenant's part of it. -/
private structure Paired (t draw : Uuid) (actor : Option Uuid) (db : Db) (k : Knowledge) (w v : Scene) : Prop where
  calls : w.calls = v.calls
  sees : Sees t draw actor k w.db.tables v.db.tables
  others : (others t w.db).tables = (others t db).tables

private theorem command_beside {env : Environment} {c : Cmd} {w v : Scene} (hc : (conduct rls t draw actor).allowed k c)
    (h : Paired t draw actor db k w v) :
    (env.answer rls c w).1 = (env.answer rls c v).1 ∧
      (conduct rls t draw actor).answers k c (env.answer rls c w).1 ∧
      Paired t draw actor db ((conduct rls t draw actor).next k c (env.answer rls c w).1)
        (env.answer rls c w).2 (env.answer rls c v).2 := by
  cases c with
  | tx x =>
    simp only [Environment.answer, h.calls]
    cases env.outage v.calls with
    | some e =>
      have hfound : found x (.error e) = [] := by cases x <;> rfl
      refine ⟨rfl, trivial, rfl, h.sees.weaken (fun d hd => ?_) fun hk => (Bool.or_eq_false_iff.1 hk).2, h.others⟩
      simpa [conduct, hfound] using hd
    | none =>
      obtain ⟨he, hs, ho⟩ := tx_sees hc (h.sees.at_clock (env.clock v.calls))
      exact ⟨he, trivial, rfl, hs.at_clock 0, (congrArg Db.tables ho).trans h.others⟩
  | _ =>
    refine ⟨?_, trivial, congrArg (List.cons _) h.calls, h.sees, h.others⟩
    simp only [Environment.answer, h.calls]

end View

section Operation
variable {rls : Bool} {op : Operation} {db : Db}

/-- An operation on a database, and on the part of it that is the tenant's. -/
theorem operation_view {env : Environment} (h : rls ∨ op.isApi) (hs : db.Sound)
    (hactor : ∀ u, op.actor = some u → ∃ r ∈ db.users, r.id = u ∧ r.tenantId = op.tenantId)
    (hdraw : ∀ i, op.draw = some i → (∀ r ∈ db.documents, r.id ≠ i) ∧ ∀ r ∈ db.webhookDeliveries, r.id ≠ i) :
    let w := op.run.exec (env.answer rls) ⟨db, []⟩
    let v := op.run.exec (env.answer rls) ⟨(own op.tenantId db).tables, []⟩
    w.1 = v.1 ∧ w.2.calls = v.2.calls ∧ v.2.db.tables = (own op.tenantId w.2.db).tables ∧
      (others op.tenantId w.2.db).tables = (others op.tenantId db).tables := by
  have hfresh : op.draw.isNone = false →
      (∀ r ∈ db.documents, r.id ≠ op.draw.getD 0) ∧ ∀ r ∈ db.webhookDeliveries, r.id ≠ op.draw.getD 0 := by
    intro hd
    cases hi : op.draw with
    | none => simp [hi] at hd
    | some i => exact hdraw i hi
  have hstart : Paired op.tenantId (op.draw.getD 0) op.actor db ⟨[], op.draw.isNone⟩ ⟨db, []⟩
      ⟨(own op.tenantId db).tables, []⟩ :=
    ⟨rfl, ⟨hs.of_tables rfl, rfl, nofun, hfresh, hactor⟩, rfl⟩
  obtain ⟨he, k, hb, -⟩ := Protocol.exec_related (fun _ c _ _ hc hr => command_beside (c := c) hc hr)
    (operation_conducts h) hstart
  exact ⟨he, hb.calls, hb.sees.view, hb.others⟩

/-- Two databases that agree on the tenant's rows: the operation gives the same result, issues
the same commands and leaves the same rows of the tenant in both, and changes no other row. -/
theorem tenant_noninterference {env : Environment} {db' : Db} (h : rls ∨ op.isApi) (hs : db.Sound) (hs' : db'.Sound)
    (hown : (own op.tenantId db).tables = (own op.tenantId db').tables)
    (hactor : ∀ u, op.actor = some u → ∃ r ∈ db.users, r.id = u ∧ r.tenantId = op.tenantId)
    (hdraw : ∀ i, op.draw = some i → ∀ b ∈ [db, db'], (∀ r ∈ b.documents, r.id ≠ i) ∧ ∀ r ∈ b.webhookDeliveries, r.id ≠ i) :
    let w := op.run.exec (env.answer rls) ⟨db, []⟩
    let w' := op.run.exec (env.answer rls) ⟨db', []⟩
    w.1 = w'.1 ∧ w.2.calls = w'.2.calls ∧ (own op.tenantId w.2.db).tables = (own op.tenantId w'.2.db).tables ∧
      (others op.tenantId w.2.db).tables = (others op.tenantId db).tables ∧
      (others op.tenantId w'.2.db).tables = (others op.tenantId db').tables := by
  have hactor' : ∀ u, op.actor = some u → ∃ r ∈ db'.users, r.id = u ∧ r.tenantId = op.tenantId := by
    intro u hu
    obtain ⟨r, hr, hid, ht⟩ := hactor u hu
    have hmem : r ∈ (own op.tenantId db').tables.users :=
      hown ▸ List.mem_filter.2 ⟨hr, beq_iff_eq.2 ht⟩
    exact ⟨r, (List.mem_filter.1 hmem).1, hid, ht⟩
  obtain ⟨he, hc, hv, ho⟩ := @operation_view _ _ _ env h hs hactor fun i hi => hdraw i hi db List.mem_cons_self
  obtain ⟨he', hc', hv', ho'⟩ := @operation_view _ _ _ env h hs' hactor' fun i hi => hdraw i hi db' (by simp)
  rw [hown] at he hc hv
  exact ⟨he.trans he'.symm, hc.trans hc'.symm, hv.symm.trans hv', ho, ho'⟩

end Operation

section Demo

/-- Two tenants, each with a document that waits for review. -/
def demo : Db :=
  { tenants := [⟨1, "Acme", "acme", 85 / 100, none, none⟩, ⟨5, "Globex", "globex", 85 / 100, none, none⟩]
    users := [⟨2, 1, "alice@acme.test", "hash", .admin⟩, ⟨6, 5, "bob@globex.test", "hash", .admin⟩]
    documents := [⟨3, 1, 2, "1/3", "a.pdf", "application/pdf", .pendingReview, none, some "text", 0⟩,
      ⟨7, 5, 6, "5/7", "b.pdf", "application/pdf", .pendingReview, none, some "text", 0⟩]
    documentsExtraction := []
    documentAuditLog := [{ documentId := 3, event := .sentToReview }, { documentId := 7, event := .sentToReview }]
    webhookDeliveries := []
    now := 0 }

def demoEnvironment : Environment := ⟨List.length, fun _ => none, fun _ _ => .error (.other "offline")⟩

theorem demo_sound : demo.Sound ∧ (own 1 demo).Sound := by
  constructor <;> refine ⟨?_, ?_, by decide, by decide⟩ <;> unfold Table.Keyed <;> decide

/-- Approving a document with the policies off. -/
theorem tenant_noninterference_approval :
    let w := (Operation.api (.approve 1 3 2)).run.exec (demoEnvironment.answer false) ⟨demo, []⟩
    let w' := (Operation.api (.approve 1 3 2)).run.exec (demoEnvironment.answer false) ⟨own 1 demo, []⟩
    w.1 = w'.1 ∧ w.2.calls = w'.2.calls ∧ (own 1 w.2.db).tables = (own 1 w'.2.db).tables ∧
      (others 1 w.2.db).tables = (others 1 demo).tables ∧ (others 1 w'.2.db).tables = (others 1 (own 1 demo)).tables :=
  @tenant_noninterference _ (.api (.approve 1 3 2)) _ _ _ (.inr rfl) demo_sound.1 demo_sound.2 rfl
    (by simp [Operation.actor, Operation.tenantId, demo]) nofun

end Demo
end DocAuto.Tenancy
