import DocAuto.ReadCommitted.System

/-! What the bodies of the transactions may do between their statements' answers. -/
namespace DocAuto.ReadCommitted
open Process Database Pipeline

/-- A review transaction: the statuses it may start from, the columns it sets, the event it logs. -/
structure Review where
  documentId : Uuid
  allowed : List DocumentStatus
  set : DocumentsSet
  event : AuditEvent

def review : Tx → Option Review
  | .approve _ d _ => some ⟨d, [.pendingReview], { status := some .approved }, .approved⟩
  | .reject _ d _ _ => some ⟨d, [.pendingReview], { status := some .rejected }, .rejected⟩
  | .reprocess _ d _ =>
    some ⟨d, [.failed, .rejected], { status := some .uploaded, docType := some none, rawText := some none }, .reprocessed⟩
  | _ => none

/-- The events that only review transactions log. -/
def reviewEvents : List AuditEvent := [.approved, .rejected, .reprocessed]

inductive Stage where
  | checking
  | updated
  | logged
  deriving DecidableEq

/-- A review transaction updates its document once, under its guard, and then logs its event. -/
def stages (r : Review) : Protocol Statement Statement.Resp Failure where
  Phase := Stage
  allowed
    | .checking, .selectDocuments _ | .checking, .deleteExtraction _ => True
    | .checking, .updateDocuments set w =>
      set = r.set ∧ ∃ status ∈ r.allowed, w = { id := some r.documentId, status := some status }
    | .updated, .insertAuditLog row => row.documentId = r.documentId ∧ row.event = r.event
    | _, _ => False
  answers _ _ _ := True
  next
    | .checking, .updateDocuments _ _, .ok (_ :: _) => .updated
    | .updated, .insertAuditLog _, .ok _ => .logged
    | st, _, _ => st

/-- Any other transaction logs no review event; an insert returns the row with its id. -/
def plain : Protocol Statement Statement.Resp Failure where
  Phase := Unit
  allowed _ q := ∀ row, q = .insertAuditLog row → row.event ∉ reviewEvents
  answers _ q r :=
    match q, r with
    | .insertDocument row, .ok rows => ∀ x ∈ rows, x.id = row.id
    | _, _ => True
  next _ _ _ := ()

private theorem decide_stages {tid d actorId : Uuid} {decided : DocumentStatus} {event : AuditEvent}
    {payload : Option AuditPayload} {wrongStatus changed : String} :
    (stages ⟨d, [.pendingReview], { status := some decided }, event⟩).wp (fun st x => ∀ a, x = .ok a → st = .logged)
      (decideTx tid d actorId decided event payload wrongStatus changed) .checking := by
  refine (Protocol.wp_bind _ _ _).2 (Protocol.wp_step trivial (fun e _ => by rintro _ ⟨⟩) fun rows _ => ?_)
  cases rows with
  | nil => rintro _ ⟨⟩
  | cons row rows =>
    refine Protocol.wp_ite (fun _ => by rintro _ ⟨⟩) fun _ => ?_
    refine (Protocol.wp_bind _ _ _).2 (Protocol.wp_step ⟨rfl, _, List.mem_cons_self, rfl⟩ (fun e _ => by rintro _ ⟨⟩)
      fun rows _ => ?_)
    cases rows with
    | nil => rintro _ ⟨⟩
    | cons row rows =>
      refine (Protocol.wp_bind _ _ _).2 (Protocol.wp_step ⟨rfl, rfl⟩ (fun e _ => by rintro _ ⟨⟩) fun _ _ => ?_)
      exact fun _ _ => rfl

theorem body_stages {t : Tx} {r : Review} (h : review t = some r) :
    (stages r).wp (fun st x => ∀ a, x = .ok a → st = .logged) t.body .checking := by
  cases t with
  | approve tid d actorId => cases h; exact decide_stages
  | reject tid d actorId reason => cases h; exact decide_stages
  | reprocess tid d actorId =>
    cases h
    refine (Protocol.wp_bind _ _ _).2 (Protocol.wp_step trivial (fun e _ => by rintro _ ⟨⟩) fun rows _ => ?_)
    cases rows with
    | nil => rintro _ ⟨⟩
    | cons row rows =>
      refine Protocol.wp_ite (fun _ => by rintro _ ⟨⟩) fun hst => ?_
      refine (Protocol.wp_bind _ _ _).2 (Protocol.wp_step trivial (fun e _ => by rintro _ ⟨⟩) fun _ _ => ?_)
      have hst : row.status ∈ [DocumentStatus.failed, .rejected] := by
        simp only [ne_eq, not_and_or, not_not] at hst
        simpa using hst
      refine (Protocol.wp_bind _ _ _).2 (Protocol.wp_step ⟨rfl, _, hst, rfl⟩ (fun e _ => by rintro _ ⟨⟩)
        fun rows _ => ?_)
      cases rows with
      | nil => rintro _ ⟨⟩
      | cons row rows =>
        refine (Protocol.wp_bind _ _ _).2 (Protocol.wp_step ⟨rfl, rfl⟩ (fun e _ => by rintro _ ⟨⟩) fun _ _ => ?_)
        exact fun _ _ => rfl
  | _ => cases h

private theorem plain_last {α : Type} {Q : Unit → Except Failure α → Prop} {q : Statement} {f : q.Resp → Body α}
    (hq : ∀ row, q = .insertAuditLog row → row.event ∉ reviewEvents) (he : ∀ e, Q () (.error e))
    (hf : ∀ r, plain.answers () q (.ok r) → plain.wp Q (f r) ()) : plain.wp Q (statement q >>= f) () :=
  (Protocol.wp_bind _ _ _).2 (Protocol.wp_step hq (fun e _ => he e) hf)

private theorem plain_edit {tid d actorId : Uuid} {changes : ExtractionEdit} :
    plain.wp (fun _ _ => True) (editTx tid d actorId changes) () := by
  refine plain_last (by rintro _ ⟨⟩) (fun _ => trivial) fun rows _ => ?_
  cases rows with
  | nil => trivial
  | cons row rows =>
    refine Protocol.wp_ite (fun _ => trivial) fun _ => plain_last (by rintro _ ⟨⟩) (fun _ => trivial) fun rows _ => ?_
    cases rows with
    | nil => trivial
    | cons e rows =>
      refine Protocol.wp_ite (fun _ => trivial) fun _ => plain_last (by rintro _ ⟨⟩) (fun _ => trivial) fun rows _ => ?_
      cases rows with
      | nil => trivial
      | cons e rows =>
        refine plain_last ?_ (fun _ => trivial) fun _ _ => trivial
        rintro _ ⟨⟩
        simp [reviewEvents]

theorem body_plain {t : Tx} (hr : review t = none)
    (hlog : ∀ tid row, t = .writeAuditLog tid row → row.event ∉ reviewEvents) :
    plain.wp (fun _ x => answered (.tx t) x) t.body () := by
  cases t with
  | insertDocument p id =>
    refine plain_last (by rintro _ ⟨⟩) (fun _ => trivial) fun rows h => ?_
    cases rows with
    | nil => trivial
    | cons row rows => exact h row List.mem_cons_self
  | writeAuditLog tid row => exact Protocol.wp_step (fun _ h => by cases h; exact hlog tid row rfl) (fun _ _ => trivial) fun _ _ => trivial
  | edit tid d actorId changes => exact plain_edit
  | approve _ _ _ | reject _ _ _ _ | reprocess _ _ _ => cases hr
  | listDocuments tid status page pageSize =>
    exact plain_last (by rintro _ ⟨⟩) (fun _ => trivial) fun _ _ =>
      plain_last (by rintro _ ⟨⟩) (fun _ => trivial) fun _ _ => trivial
  | webhookSubject tid d =>
    exact plain_last (by rintro _ ⟨⟩) (fun _ => trivial) fun _ _ =>
      plain_last (by rintro _ ⟨⟩) (fun _ => trivial) fun _ _ => trivial
  | updateTenant tid set =>
    exact Protocol.wp_ite (fun _ => trivial) fun _ => plain_last (by rintro _ ⟨⟩) (fun _ => trivial) fun _ _ => trivial
  | insertDelivery tid row =>
    refine plain_last (by rintro _ ⟨⟩) (fun _ => trivial) fun rows _ => ?_
    cases rows <;> trivial
  | selectAuditLog _ _ | insertExtraction _ _ | countDeliveries _ _ | updateDelivery _ _ _ =>
    exact Protocol.wp_step (by rintro _ ⟨⟩) (fun _ _ => trivial) fun _ _ => trivial
  | _ => exact plain_last (by rintro _ ⟨⟩) (fun _ => trivial) fun _ _ => trivial

end DocAuto.ReadCommitted
