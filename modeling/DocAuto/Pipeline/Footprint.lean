import DocAuto.Pipeline.Conduct

/-! Which calls and executions issue the commands that concern tenants, deliveries and the
webhook queue. -/
namespace DocAuto.Pipeline
open Process Database Protocol

/-- What an owner's program may issue, of these commands; all others are open to it. -/
def Owner.issues (o : Owner) : Cmd → Prop
  | .tx (.updateTenant tenantId set) =>
    match o with
    | .api (.updateTenant t params) => t = tenantId ∧ params.updates = set
    | .api (.rotateSecret t secret) => t = tenantId ∧ { webhookSecret := some (some secret) } = set
    | _ => False
  | .tx (.webhookSubject _ _) | .tx (.countDeliveries _ _) | .tx (.insertDelivery _ _) | .tx (.updateDelivery _ _ _)
  | .fetch _ _ _ =>
    match o with
    | .job (.webhook _) _ => True
    | _ => False
  | .webhookQueueAdd documentId tenantId =>
    match o with
    | .api (.approve t d _) | .api (.reject t d _ _) => t = tenantId ∧ d = documentId
    | .job (.extraction _ _) data => data.tenantId = tenantId ∧ data.documentId = documentId
    | _ => False
  | _ => True

/-- Programs whose commands all satisfy `I`. -/
def footprint (I : Cmd → Prop) : Protocol Cmd Cmd.Resp Failure where
  Phase := Unit
  allowed _ := I
  answers _ _ _ := True
  next _ _ _ := ()

def Issuing {α : Type} (I : Cmd → Prop) (p : Proc α) : Prop := (footprint I).Keeps (fun _ => True) p

section Issuing
variable {I : Cmd → Prop} {α : Type}

theorem Issuing.perform {c : Cmd} (h : I c) : Issuing I (perform c) := Keeps.perform fun _ _ => ⟨h, fun _ _ => trivial⟩

private theorem Issuing.void {p : Proc α} (h : Issuing I p) : (footprint I).wp (fun _ _ => True) p.void () :=
  Keeps.bind h (fun _ => .ret ()) () trivial

private theorem Issuing.tx {t : Tx} (h : I (.tx t)) : Issuing I (transaction t) := .perform h

private theorem getTenantConfig_issuing {tenantId : Uuid} (h : I (.tx (.findTenant tenantId))) :
    Issuing I (getTenantConfig tenantId) := by
  refine .bind (Issuing.tx h) fun tenant => ?_
  cases tenant with
  | none => exact .throw _
  | some tenant => exact .ret _

private theorem enqueueWebhookIfConfigured_issuing {tenantId d : Uuid} (h : I (.tx (.findTenant tenantId)))
    (hw : I (.webhookQueueAdd d tenantId)) : Issuing I (enqueueWebhookIfConfigured tenantId d) :=
  .bind (Issuing.tx h) fun _ => .ite (Issuing.perform hw) (.ret ())

end Issuing

private theorem call_issues (call : ApiCall) :
    (footprint (Owner.api call).issues).wp (fun _ _ => True) call.program () := by
  cases call with
  | upload p id =>
    refine Issuing.void (.bind (Issuing.tx trivial) fun document => ?_)
    cases document with
    | none => exact .throw _
    | some document =>
      refine .tryCatch ?_ fun _ => .bind (Issuing.tx trivial) fun _ => .throw _
      refine .bind (Issuing.perform trivial) fun _ => .bind (Issuing.tx trivial) fun _ => ?_
      exact .bind (Issuing.tx trivial) fun _ => .bind (Issuing.perform trivial) fun _ => .ret _
  | list tenantId status page pageSize => exact Issuing.void (Issuing.tx trivial)
  | get tenantId d =>
    refine Issuing.void (.bind (Issuing.tx trivial) fun document => ?_)
    cases document with
    | none => exact .throw _
    | some document => exact .bind (Issuing.tx trivial) fun _ => .ret _
  | fileUrl tenantId d =>
    refine Issuing.void (.bind (Issuing.tx trivial) fun key => ?_)
    cases key with
    | none => exact .throw _
    | some key => exact Issuing.perform trivial
  | approve tenantId d actorId =>
    exact Issuing.void (.bind (Issuing.tx trivial) fun _ =>
      .bind (enqueueWebhookIfConfigured_issuing trivial ⟨rfl, rfl⟩) fun _ => .ret _)
  | reject tenantId d actorId reason =>
    exact Issuing.void (.bind (Issuing.tx trivial) fun _ =>
      .bind (enqueueWebhookIfConfigured_issuing trivial ⟨rfl, rfl⟩) fun _ => .ret _)
  | edit tenantId d actorId changes => exact Issuing.void (Issuing.tx trivial)
  | reprocess tenantId d actorId run =>
    exact Issuing.void (.bind (Issuing.tx trivial) fun _ => .bind (Issuing.perform trivial) fun _ => .ret _)
  | getTenant tenantId => exact Issuing.void (getTenantConfig_issuing trivial)
  | updateTenant tenantId params =>
    refine Issuing.void (.bind (Issuing.tx ⟨rfl, rfl⟩) fun updated => ?_)
    cases updated with
    | none => exact .throw _
    | some updated => exact getTenantConfig_issuing trivial
  | rotateSecret tenantId secret =>
    refine Issuing.void (.bind (Issuing.tx trivial) fun tenant => ?_)
    cases tenant with
    | none => exact .throw _
    | some tenant => exact .ite (.bind (Issuing.tx ⟨rfl, rfl⟩) fun _ => .ret _) (.throw _)

private theorem ocr_issuing (d : Uuid) (run : RunId) (job : JobData) :
    Issuing (Owner.job (.ocr d run) job).issues (ocrProcessor job) := by
  refine .bind (Issuing.tx trivial) fun document => ?_
  cases document with
  | none => exact .ret _
  | some document =>
    refine .bind (Issuing.tx trivial) fun _ => .tryCatch ?_ fun _ => .bind (Issuing.tx trivial) fun _ => .throw _
    refine .bind (Issuing.perform trivial) fun _ => .bind (Issuing.perform trivial) fun _ => ?_
    refine .bind (Issuing.tx trivial) fun _ => .bind (Issuing.tx trivial) fun _ => ?_
    exact .bind (Issuing.perform trivial) fun _ => .ret _

private theorem extraction_issuing (d : Uuid) (run : RunId) (job : JobData) :
    Issuing (Owner.job (.extraction d run) job).issues (extractionProcessor job) := by
  refine .bind (Issuing.tx trivial) fun found => ?_
  cases found with
  | none => exact .ret _
  | some found =>
    refine .ite (.ret _) ?_
    dsimp only
    split
    · exact .bind (Issuing.tx trivial) fun _ => .bind (Issuing.tx trivial) fun _ => .ret _
    · refine .bind (Issuing.tx trivial) fun tenant => .bind (Issuing.tx trivial) fun _ => .tryCatch ?_ fun _ =>
        .bind (Issuing.tx trivial) fun _ => .bind (Issuing.tx trivial) fun _ => .throw _
      refine .bind (Issuing.perform trivial) fun c => .ite ?_ ?_
      · exact .bind (Issuing.tx trivial) fun _ => .bind (Issuing.tx trivial) fun _ => .ret _
      · refine .bind (Issuing.tx trivial) fun _ => .bind (Issuing.perform trivial) fun r => ?_
        refine .bind (Issuing.tx trivial) fun _ => .ite ?_ ?_
        · refine .bind (Issuing.tx trivial) fun _ => .bind (Issuing.tx trivial) fun _ => .bind (Issuing.tx trivial) fun _ => ?_
          exact .bind (.ite (Issuing.perform ⟨rfl, rfl⟩) (.ret ())) fun _ => .ret _
        · exact .bind (Issuing.tx trivial) fun _ => .bind (Issuing.tx trivial) fun _ => .bind (Issuing.tx trivial) fun _ => .ret _

private theorem webhook_issuing (n : Nat) (job : JobData) (draw : Uuid) :
    Issuing (Owner.job (.webhook n) job).issues (processWebhookJob job draw) := by
  refine .bind (Issuing.tx trivial) fun found => ?_
  rcases found with ⟨_ | ⟨document, extraction⟩, _ | tenant⟩
  iterate 3 exact .ret _
  dsimp only
  split
  · refine .ite (.ret _) (.bind (Issuing.tx trivial) fun _ => .bind (.ite (.ret _) ?_) fun _ => ?_)
    · exact .bind (Issuing.tx trivial) fun _ => .ret _
    · refine .bind (Issuing.tx trivial) fun _ => .bind ?_ fun _ => .bind (Issuing.tx trivial) fun _ => .ite ?_ ?_
      · exact .tryCatch (.bind (Issuing.perform trivial) fun _ => .ret _) fun _ => .ret _
      · exact .bind (Issuing.tx trivial) fun _ => .ret _
      · exact .bind (Issuing.tx trivial) fun _ => .ite (.ret _) (.throw _)
  · exact .ret _

private theorem processor_issues (jobId : JobId) (data : JobData) (draw : Uuid) :
    (footprint (Owner.job jobId data).issues).wp (fun _ _ => True) (processor jobId data draw) () := by
  cases jobId with
  | ocr d run => exact Issuing.void (ocr_issuing d run data)
  | extraction d run => exact Issuing.void (extraction_issuing d run data)
  | webhook n => exact Issuing.void (webhook_issuing n data draw)

/-- The footprints of all owners. -/
def footprints : Conduct := ⟨fun o => footprint o.issues, fun _ => (), fun _ _ _ => True⟩

theorem footprints_start : footprints.Starts := ⟨call_issues, processor_issues⟩

/-- Every process keeps to its footprint. -/
def Config.Footprints (c : Config) : Prop := ∀ i p, c.procs i = some p → footprints.Holds p

theorem initial_footprints (tenants : List TenantRow) (users : List UserRow) : (initial tenants users).Footprints := by
  intro i p hp
  cases hp

theorem step_footprints {c c' : Config} {a : Action} (hf : c.Footprints) (h : step c a = some c') : c'.Footprints :=
  Conduct.step_holds footprints_start hf (fun _ _ _ _ _ _ _ _ _ _ _ => trivial) h

theorem Config.Footprints.issues {c : Config} (hf : c.Footprints) {i : ProcId} {cmd : Cmd} (h : c.command i = some cmd) :
    ∃ p, c.procs i = some p ∧ p.owner.issues cmd := by
  obtain ⟨p, hp, hc⟩ := Option.bind_eq_some_iff.1 h
  obtain ⟨k, hk⟩ := Activity.program_of hc
  exact ⟨p, hp, (hf i p hp).allows hk⟩

end DocAuto.Pipeline
