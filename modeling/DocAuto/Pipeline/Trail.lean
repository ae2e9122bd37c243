import DocAuto.Pipeline.Provenance
import DocAuto.Pipeline.Workers

/-! Who signs the entries of a trail: the calls in the name of their user, the workers in nobody's. -/
namespace DocAuto.Pipeline
open Process Database Protocol

namespace ApiCall

/-- The tenant on whose data the call works. -/
def tenantId : ApiCall → Uuid
  | upload p _ => p.tenantId
  | list t _ _ _ | get t _ | fileUrl t _ | approve t _ _ | reject t _ _ _ | edit t _ _ _ | reprocess t _ _ _
  | getTenant t | updateTenant t _ | rotateSecret t _ => t

/-- The user in whose name the call writes. -/
def actorId : ApiCall → Option Uuid
  | upload p _ => some p.uploadedBy
  | approve _ _ a | reject _ _ a _ | edit _ _ a _ | reprocess _ _ a _ => some a
  | list _ _ _ _ | get _ _ | fileUrl _ _ | getTenant _ | updateTenant _ _ | rotateSecret _ _ => none

/-- The event that the call logs. -/
def event : ApiCall → Option AuditEvent
  | upload _ _ => some .uploaded
  | approve _ _ _ => some .approved
  | reject _ _ _ _ => some .rejected
  | edit _ _ _ _ => some .fieldEdited
  | reprocess _ _ _ _ => some .reprocessed
  | list _ _ _ _ | get _ _ | fileUrl _ _ | getTenant _ | updateTenant _ _ | rotateSecret _ _ => none

/-- What the entry of the call says besides. -/
def payload : ApiCall → Option AuditPayload
  | upload p _ => some (.file p.fileName p.mimeType)
  | reject _ _ _ reason => some (.rejection reason)
  | edit _ _ _ changes => some (.edit changes)
  | approve _ _ _ | reprocess _ _ _ _ | list _ _ _ _ | get _ _ | fileUrl _ _ | getTenant _ | updateTenant _ _
  | rotateSecret _ _ => none

/-- The columns of its tenant that the call sets. -/
def settings : ApiCall → Option TenantsSet
  | updateTenant _ params => some params.updates
  | rotateSecret _ secret => some { webhookSecret := some (some secret) }
  | upload _ _ | list _ _ _ _ | get _ _ | fileUrl _ _ | approve _ _ _ | reject _ _ _ _ | edit _ _ _ _ | reprocess _ _ _ _
  | getTenant _ => none

end ApiCall

/-- The events of the workers. -/
def workerEvents : List AuditEvent := [.ocrComplete, .extracted, .autoApproved, .sentToReview, .webhookSent, .webhookFailed]

/-- The owner of a process signs an entry. -/
def Owner.signs : Owner → AuditRow → Prop
  | .api call, row => row.actorId = call.actorId ∧ call.event = some row.event ∧ row.payload = call.payload
  | .job _ _, row => row.actorId = none ∧ row.event ∈ workerEvents

/-- Calls log nothing but uploads outside the transactions of their reviews. -/
def Owner.announces : Owner → Cmd → Prop
  | .api _, .tx (.writeAuditLog _ row) => row.event = .uploaded
  | _, _ => True

def uploaders : Conduct := ⟨fun o => footprint o.announces, fun _ => (), fun _ _ _ => True⟩

section Uploaders
variable {α : Type} {call : ApiCall}

private abbrev Announcing (call : ApiCall) (p : Proc α) : Prop := Issuing (Owner.api call).announces p

private theorem announced {p : Proc α} (h : Announcing call p) :
    (footprint (Owner.api call).announces).wp (fun _ _ => True) p.void () := Keeps.bind h (fun _ => .ret ()) () trivial

private theorem tx {t : Tx} (h : (Owner.api call).announces (.tx t)) : Announcing call (transaction t) := .perform h

private theorem getTenantConfig_announcing (t : Uuid) : Announcing call (getTenantConfig t) := by
  refine .bind (tx trivial) fun tenant => ?_
  cases tenant with
  | none => exact .throw _
  | some tenant => exact .ret _

private theorem enqueue_announcing (t d : Uuid) : Announcing call (enqueueWebhookIfConfigured t d) :=
  .bind (tx trivial) fun _ => .ite (Issuing.perform trivial) (.ret ())

private theorem call_announces (call : ApiCall) :
    (footprint (Owner.api call).announces).wp (fun _ _ => True) call.program () := by
  cases call with
  | upload p id =>
    refine announced (.bind (tx trivial) fun document => ?_)
    cases document with
    | none => exact .throw _
    | some document =>
      refine .tryCatch ?_ fun _ => .bind (tx trivial) fun _ => .throw _
      refine .bind (Issuing.perform trivial) fun _ => .bind (tx trivial) fun _ => ?_
      exact .bind (tx rfl) fun _ => .bind (Issuing.perform trivial) fun _ => .ret _
  | list tenantId status page pageSize => exact announced (tx trivial)
  | get tenantId d =>
    refine announced (.bind (tx trivial) fun document => ?_)
    cases document with
    | none => exact .throw _
    | some document => exact .bind (tx trivial) fun _ => .ret _
  | fileUrl tenantId d =>
    refine announced (.bind (tx trivial) fun key => ?_)
    cases key with
    | none => exact .throw _
    | some key => exact Issuing.perform trivial
  | approve tenantId d actorId | reject tenantId d actorId reason =>
    exact announced (.bind (tx trivial) fun _ => .bind (enqueue_announcing _ _) fun _ => .ret _)
  | edit tenantId d actorId changes => exact announced (tx trivial)
  | reprocess tenantId d actorId run =>
    exact announced (.bind (tx trivial) fun _ => .bind (Issuing.perform trivial) fun _ => .ret _)
  | getTenant tenantId => exact announced (getTenantConfig_announcing _)
  | updateTenant tenantId params =>
    refine announced (.bind (tx trivial) fun updated => ?_)
    cases updated with
    | none => exact .throw _
    | some updated => exact getTenantConfig_announcing _
  | rotateSecret tenantId secret =>
    refine announced (.bind (tx trivial) fun tenant => ?_)
    cases tenant with
    | none => exact .throw _
    | some tenant => exact .ite (.bind (tx trivial) fun _ => .ret _) (.throw _)

end Uploaders

private theorem job_announces {j : JobId} {data : JobData} {p : Proc Unit} :
    (footprint (Owner.job j data).announces).wp (fun _ _ => True) p () := by
  induction p with
  | ret a => trivial
  | throw e => trivial
  | call c k ih => exact ⟨trivial, fun r _ => ih r⟩

theorem uploaders_start : uploaders.Starts := ⟨call_announces, fun _ _ _ => job_announces⟩

section Signed
variable {c c' : Config} {a : Action} {d : Uuid} {i : ProcId} {p : Activity} {t : Tx} {k : Except Failure t.Result → Proc Unit}
  {now : Timestamp} {r : Record} {entry : AuditRow}

/-- What a transaction logs is signed by the owner of its process. -/
theorem logged_signed (hc : Reachable c) (hp : c.procs i = some p) (hq : p.program = .call (.tx t) k)
    (hd : t.documentId = some d) (he : entry ∈ t.logged now r) :
    p.owner.signs entry ∧ ∀ call, p.owner = .api call → t.tenantId = call.tenantId := by
  have hall := hc.regular.valid.allows hp hq
  have hplaced := (hc.regular.standing d).orderly.points i p.position (Config.view_position hp)
  have hup : p.owner.announces (.tx t) := (hc.holds uploaders_start (fun _ _ _ _ => trivial) i p hp).allows hq
  have hwork : p.owner.worksOn (.tx t) := (hc.holds workers_start (fun _ _ _ _ => trivial) i p hp).allows hq
  have hworker : ∀ owner, p.owner = owner → (∃ j data, owner = .job j data) → entry.actorId = none → entry.event ∈ workerEvents →
      p.owner.signs entry ∧ ∀ call, p.owner = .api call → t.tenantId = call.tenantId := by
    rintro owner ho ⟨j, data, rfl⟩ hactor hevent
    rw [ho]
    exact ⟨⟨hactor, hevent⟩, by rintro call ⟨⟩⟩
  change View.placed _ d p.owner p.point at hplaced
  cases hpt : p.point with
  | aside =>
    rw [hpt] at hall
    cases t with
    | writeAuditLog tid row =>
      obtain rfl := List.mem_singleton.1 he
      obtain ⟨hevent, -⟩ : (row.event = .webhookSent ∨ row.event = .webhookFailed) ∧ row.newStatus = none := hall
      cases ho : p.owner with
      | api call =>
        rw [ho] at hup
        have huploaded : row.event = .uploaded := hup
        simp [huploaded] at hevent
      | job j data =>
        rw [ho] at hwork
        have hnone : row.actorId = none := (show data.works (.writeAuditLog tid row) from hwork).2.2
        refine ⟨⟨hnone, ?_⟩, by rintro call ⟨⟩⟩
        change row.event ∈ workerEvents
        rcases hevent with he | he <;> simp [workerEvents, he]
    | insertDocument _ _ => cases hd
    | _ => cases (show Tx.documentId _ = none from hall).symm.trans hd
  | lost | reopen _ _ _ =>
    rw [hpt] at hall
    cases hall
  | upload p' id u =>
    rw [hpt] at hall hplaced
    have ho : p.owner = .api (.upload p' id) := hplaced.1
    rw [ho]
    cases u <;> cases hall <;> first | cases he; done | skip
    obtain rfl := List.mem_singleton.1 he
    exact ⟨⟨rfl, rfl, rfl⟩, by rintro call ⟨⟩; rfl⟩
  | review t' =>
    rw [hpt] at hall hplaced
    obtain ⟨call, ho, hstart⟩ := hplaced
    rw [ho]
    cases hall
    cases call <;> cases hstart <;> obtain rfl := List.mem_singleton.1 he <;>
      exact ⟨⟨rfl, rfl, rfl⟩, by rintro call ⟨⟩; rfl⟩
  | reset tid d' actorId run =>
    rw [hpt] at hall hplaced
    have ho : p.owner = .api (.reprocess tid d' actorId run) := hplaced
    rw [ho]
    cases hall
    obtain rfl := List.mem_singleton.1 he
    exact ⟨⟨rfl, rfl, rfl⟩, by rintro call ⟨⟩; rfl⟩
  | ocr job o =>
    rw [hpt] at hall hplaced
    refine hworker _ hplaced.1 ⟨_, _, rfl⟩ ?_ ?_ <;> cases o <;> cases hall <;> first | cases he; done | skip
    all_goals
      obtain rfl := List.mem_singleton.1 he
      first | rfl | exact (by decide : AuditEvent.ocrComplete ∈ workerEvents)
  | extraction job e =>
    rw [hpt] at hall hplaced
    have hextracted : AuditEvent.extracted ∈ workerEvents := by decide
    have hreview : AuditEvent.sentToReview ∈ workerEvents := by decide
    have hconclude : ∀ tenant x, (concludeRow job tenant x).event ∈ workerEvents := by
      intro tenant x
      rcases concludeRow_event job tenant x with ⟨-, h⟩ | ⟨-, h⟩ <;> simp [workerEvents, h]
    refine hworker _ hplaced ⟨_, _, rfl⟩ ?_ ?_ <;> cases e <;> cases hall <;> first | cases he; done | skip
    all_goals
      obtain rfl := List.mem_singleton.1 he
      first | rfl | exact hextracted | exact hreview | exact concludeRow_actorId _ _ _ | exact hconclude _ _

/-- A record of the next configuration was there, or is fresh, or a transaction has committed to it. -/
theorem step_committed (hc : Reachable c) (h : step c a = some c') {r' : Record} (hr' : c'.world.db.record d = some r') :
    c.world.db.record d = some r' ∨
      (∃ i p up k now, c.procs i = some p ∧ p.program = .call (.tx (.insertDocument up d)) k ∧ r' = .fresh up d now) ∨
      ∃ i p t k now r, c.procs i = some p ∧ p.program = .call (.tx t) k ∧ c.world.db.record d = some r ∧
        t.documentId = some d ∧ t.tenantId = r.row.tenantId ∧ r' = t.commit now r := by
  rcases step_record (d := d) hc.regular.valid h with hsame | ⟨i, p, t, k, now, rfl, hp, hq, -, hafter, -⟩
  · exact .inl (hsame.symm.trans hr')
  have hafter : some r' = t.after now d (c.world.db.record d) := hr'.symm.trans hafter
  cases hrec : c.world.db.record d with
  | none =>
    rw [hrec] at hafter
    cases t with
    | insertDocument up id =>
      obtain ⟨rfl, hfresh⟩ := Option.ite_none_right_eq_some.1 hafter.symm
      exact .inr (.inl ⟨i, p, up, k, now, hp, hq, (Option.some.inj hfresh).symm⟩)
    | _ => cases hafter
  | some r =>
    rw [hrec] at hafter
    rcases t.after_cases now r with hsame | ⟨hd, ht, hcommit⟩
    · exact .inl (congrArg some (Option.some.inj (hafter.trans hsame)).symm)
    · exact .inr (.inr ⟨i, p, t, k, now, r, hp, hq, rfl, hd, ht, Option.some.inj (hafter.trans hcommit)⟩)

/-- The record of a document that has a row, an extraction or an entry. -/
theorem record_of_document {db : Db} (hs : db.Sound) {row : DocumentRow} (hrow : row ∈ db.documents) :
    db.record row.id = some ⟨row, db.extraction row.id, db.audit row.id⟩ :=
  congrArg (Option.map _) (Table.lookup_of_mem hs.documents hrow)

theorem record_of_entry {db : Db} (hs : db.Sound) {entry : AuditRow} (he : entry ∈ db.documentAuditLog) :
    ∃ r, db.record entry.documentId = some r ∧ r.row ∈ db.documents ∧ r.row.id = entry.documentId ∧ entry ∈ r.audit := by
  obtain ⟨row, hrow⟩ := Option.isSome_iff_exists.1 (hs.auditOf entry he)
  exact ⟨_, congrArg (Option.map _) hrow, Table.mem_of_lookup hrow, Table.key_of_lookup hrow, List.mem_filter.2 ⟨he, by simp⟩⟩

theorem mem_of_record {db : Db} {d : Uuid} {r : Record} (hr : db.record d = some r) :
    r.row ∈ db.documents ∧ (∀ row, r.extraction = some row → row ∈ db.documentsExtraction) ∧
      ∀ entry ∈ r.audit, entry ∈ db.documentAuditLog := by
  obtain ⟨row, hl, rfl⟩ := Option.map_eq_some_iff.1 hr
  exact ⟨Table.mem_of_lookup hl, fun _ he => Table.mem_of_lookup he, fun _ => List.mem_of_mem_filter⟩

/-- An entry that a step adds to a trail is signed by the owner of the process that takes the step; a call signs
for a document of its tenant. -/
theorem entry_signed (hc : Reachable c) (h : step c a = some c') (he : entry ∈ c'.world.db.documentAuditLog) :
    entry ∈ c.world.db.documentAuditLog ∨ ∃ i p, c.procs i = some p ∧ p.owner.signs entry ∧
      ∀ call, p.owner = .api call → ∃ doc ∈ c'.world.db.documents, doc.id = entry.documentId ∧ doc.tenantId = call.tenantId := by
  have hsound : c'.world.db.Sound := (step_regular c a c' hc.regular h).valid.sound
  obtain ⟨r', hr', hdoc, hid, haudit⟩ := record_of_entry hsound he
  rcases step_committed hc h hr' with hold | ⟨i, p, up, k, now, -, -, rfl⟩ | ⟨i, p, t, k, now, r, hp, hq, hold, hd, ht, rfl⟩
  · exact .inl ((mem_of_record hold).2.2 entry haudit)
  · -- A document comes onto the record without a trail.
    cases haudit
  · rw [t.commit_audit] at haudit
    rcases List.mem_append.1 haudit with hmem | hmem
    · exact .inl ((mem_of_record hold).2.2 entry hmem)
    · obtain ⟨hsigns, htenant⟩ := logged_signed hc hp hq hd hmem
      refine .inr ⟨i, p, hp, hsigns, fun call ho => ⟨_, hdoc, hid, ?_⟩⟩
      calc (t.commit now r).row.tenantId = r.row.tenantId := congrArg Origin.tenantId (commit_origin t now r)
        _ = t.tenantId := ht.symm
        _ = call.tenantId := htenant call ho

/-- A document of the next configuration was there, or a call uploads it. -/
theorem document_uploaded (hc : Reachable c) (h : step c a = some c') {row : DocumentRow} (hrow : row ∈ c'.world.db.documents) :
    (∃ old ∈ c.world.db.documents, old.origin = row.origin) ∨ ∃ i p up id now, c.procs i = some p ∧
      p.owner = .api (.upload up id) ∧ row = (Record.fresh up id now).row := by
  have hsound : c'.world.db.Sound := (step_regular c a c' hc.regular h).valid.sound
  rcases step_committed hc h (record_of_document hsound hrow) with hold | ⟨i, p, up, k, now, hp, hq, hfresh⟩ |
    ⟨i, p, t, k, now, r, -, -, hold, -, -, hcommit⟩
  · exact .inl ⟨row, (mem_of_record hold).1, rfl⟩
  · have hall := hc.regular.valid.allows hp hq
    have hplaced := (hc.regular.standing row.id).orderly.points i p.position (Config.view_position hp)
    change View.placed _ _ p.owner p.point at hplaced
    refine .inr ⟨i, p, up, row.id, now, hp, ?_, congrArg Record.row hfresh⟩
    cases hpt : p.point with
    | upload p' id' u =>
      rw [hpt] at hall hplaced
      cases u <;> cases hall
      exact hplaced.1
    | review t' =>
      rw [hpt] at hall hplaced
      obtain ⟨call, -, hstart⟩ := hplaced
      cases hall
      cases call <;> cases hstart
    | ocr job o =>
      rw [hpt] at hall
      cases o <;> cases hall
    | extraction job e =>
      rw [hpt] at hall
      cases e <;> cases hall
    | aside | lost | reset _ _ _ _ | reopen _ _ _ =>
      rw [hpt] at hall
      cases hall
  · refine .inl ⟨r.row, (mem_of_record hold).1, ?_⟩
    exact (commit_origin t now r).symm.trans (congrArg (·.row.origin) hcommit).symm

/-- Tenants change by a call that sets columns of its tenant. -/
theorem tenants_set (hc : Reachable c) (h : step c a = some c') : c'.world.db.tenants = c.world.db.tenants ∨
    ∃ i p call set, c.procs i = some p ∧ p.owner = .api call ∧ call.settings = some set ∧
      c'.world.db.tenants = c.world.db.tenants.map fun r => if r.id = call.tenantId then set.apply r else r := by
  refine (step_tenants h).imp_right ?_
  rintro ⟨i, t, set, rfl, hcmd, ht⟩
  obtain ⟨p, hp, hi⟩ := hc.coherent.served.footprints.issues hcmd
  unfold Owner.issues at hi
  dsimp only at hi
  split at hi
  · next t' params ho =>
    obtain ⟨rfl, rfl⟩ := hi
    exact ⟨i, p, _, _, hp, ho, rfl, ht⟩
  · next t' secret ho =>
    obtain ⟨rfl, rfl⟩ := hi
    exact ⟨i, p, _, _, hp, ho, rfl, ht⟩
  · exact hi.elim

end Signed

end DocAuto.Pipeline
