import DocAuto.Tenancy.View

/-! Transactions of one tenant. Some are safe by their own tenant condition, some because
an earlier answer has shown the document to be the tenant's, and some only because the
policies hide every other row. -/
namespace DocAuto.Tenancy
open Process Database

/-- The transactions an operation of tenant `t` may run, given what it knows. -/
def Admissible (rls : Bool) (t draw : Uuid) (actor : Option Uuid) (k : Knowledge) : Tx → Prop
  | .insertDocument p id => p.tenantId = t ∧ id = draw ∧ k.spent = false ∧ actor = some p.uploadedBy
  | .updateDocument t' d _ | .selectAuditLog t' d => t' = t ∧ (rls ∨ d ∈ k.owned)
  | .writeAuditLog t' row =>
    t' = t ∧ (rls ∨ row.documentId ∈ k.owned) ∧ (row.actorId = none ∨ row.actorId = actor)
  | .approve t' _ a | .reject t' _ a _ | .edit t' _ a _ | .reprocess t' _ a => t' = t ∧ actor = some a
  | .listDocuments t' _ _ _ | .getDocument t' _ | .getStorageKey t' _ | .findTenant t' | .updateTenant t' _ => t' = t
  | .findDocument t' _ | .findDocumentWithExtraction t' _ | .insertExtraction t' _ | .webhookSubject t' _
  | .countDeliveries t' _ | .updateDelivery t' _ _ => rls ∧ t' = t
  | .insertDelivery t' row => rls ∧ t' = t ∧ row.documentId ∈ k.owned ∧ row.id = draw ∧ k.spent = false

/-- The documents the result of a transaction shows to be the tenant's. -/
def found : (x : Tx) → Except Failure x.Result → List Uuid
  | .insertDocument _ _, .ok (some row) => [row.id]
  | .getDocument _ d, .ok (some _) | .webhookSubject _ d, .ok (some _, _) => [d]
  | _, _ => []

def draws : Tx → Bool
  | .insertDocument _ _ | .insertDelivery _ _ => true
  | _ => false

/-- What the end of a transaction adds to what is known. -/
def Learns (x : Tx) (k k' : Knowledge) (r : Except Failure x.Result) : Prop :=
  (∀ d ∈ found x r, d ∈ k'.owned) ∧ k'.spent = (draws x || k.spent)

section Bodies
variable {rls : Bool} {t draw : Uuid} {actor : Option Uuid} {k : Knowledge}

private theorem statement_next {α : Type} {Q : Knowledge → Except Failure α → Prop} {q : Statement} {f : q.Resp → Body α}
    (hq : Permitted rls t draw actor k q) (he : ∀ e, Q ⟨k.owned, spends q || k.spent⟩ (.error e))
    (hf : ∀ r, truthful q (.ok r) →
      (tenancy rls t draw actor).wp Q (f r) ⟨learned q (.ok r) ++ k.owned, spends q || k.spent⟩) :
    (tenancy rls t draw actor).wp Q (statement q >>= f) k :=
  (Protocol.wp_bind _ _ _).2 (Protocol.wp_step hq (fun e _ => by cases q <;> exact he e) hf)

private theorem select_next {α : Type} {Q : Knowledge → Except Failure α → Prop} {d : Uuid}
    {f : List DocumentRow → Body α} (he : ∀ e, Q k (.error e)) (hnil : (tenancy rls t draw actor).wp Q (f []) k)
    (hcons : ∀ row rows k', d ∈ k'.owned → k'.spent = k.spent →
      (tenancy rls t draw actor).wp Q (f (row :: rows)) k') :
    (tenancy rls t draw actor).wp Q (statement (.selectDocuments { id := some d, tenantId := some t }) >>= f) k := by
  refine statement_next (.inr rfl) he fun rows hrows => ?_
  cases rows with
  | nil => exact hnil
  | cons row rows =>
    have hid : row.id = d := by
      have := hrows row List.mem_cons_self
      simp only [DocumentsWhere.holds, Option.all_some, Bool.and_eq_true, beq_iff_eq] at this
      exact this.1.1.symm
    exact hcons row rows _ (by simp [learned, hid]) rfl

private theorem decide_tenancy {d a : Uuid} {decided : DocumentStatus} {event : AuditEvent}
    {payload : Option AuditPayload} {wrongStatus changed : String} (ha : actor = some a) :
    (tenancy rls t draw actor).wp (fun k' _ => k'.spent = k.spent)
      (decideTx t d a decided event payload wrongStatus changed) k := by
  refine select_next (fun _ => rfl) rfl fun row rows k' hd hk => ?_
  refine Protocol.wp_ite (fun _ => hk) fun _ => ?_
  refine statement_next (.inr ⟨d, hd, rfl⟩) (fun _ => hk) fun rows _ => ?_
  cases rows with
  | nil => exact hk
  | cons row rows =>
    refine statement_next ⟨.inr (by simp [learned, hd]), .inr ha.symm⟩ (fun _ => hk) fun _ _ => ?_
    exact hk

private theorem edit_tenancy {d a : Uuid} {changes : ExtractionEdit} (ha : actor = some a) :
    (tenancy rls t draw actor).wp (fun k' _ => k'.spent = k.spent) (editTx t d a changes) k := by
  refine select_next (fun _ => rfl) rfl fun row rows k' hd hk => ?_
  refine Protocol.wp_ite (fun _ => hk) fun _ => ?_
  refine statement_next (.inr hd) (fun _ => hk) fun rows _ => ?_
  cases rows with
  | nil => exact hk
  | cons e rows =>
    refine Protocol.wp_ite (fun _ => hk) fun _ => ?_
    refine statement_next (.inr (by simp [learned, hd])) (fun _ => hk) fun rows _ => ?_
    cases rows with
    | nil => exact hk
    | cons e rows =>
      refine statement_next ⟨.inr (by simp [learned, hd]), .inr ha.symm⟩ (fun _ => hk)
        fun _ _ => ?_
      exact hk

private theorem reprocess_tenancy {d a : Uuid} (ha : actor = some a) :
    (tenancy rls t draw actor).wp (fun k' _ => k'.spent = k.spent) (reprocessTx t d a) k := by
  refine select_next (fun _ => rfl) rfl fun row rows k' hd hk => ?_
  refine Protocol.wp_ite (fun _ => hk) fun _ => ?_
  refine statement_next (.inr hd) (fun _ => hk) fun _ _ => ?_
  refine statement_next (.inr ⟨d, by simp [learned, hd], rfl⟩) (fun _ => hk) fun rows _ => ?_
  cases rows with
  | nil => exact hk
  | cons row rows =>
    refine statement_next ⟨.inr (by simp [learned, hd]), .inr ha.symm⟩ (fun _ => hk)
      fun _ _ => ?_
    exact hk

/-- A read of one document with its extraction shows the document to be the tenant's. -/
private theorem found_next {α : Type} {Q : Knowledge → Except Failure α → Prop} {w : DocumentsWhere} {d : Uuid}
    {f : List (DocumentRow × Option ExtractionRow) → Body α} (hw : w.id = some d) (ht : rls ∨ w.tenantId = some t)
    (he : ∀ e, Q k (.error e)) (hnil : (tenancy rls t draw actor).wp Q (f []) k)
    (hcons : ∀ x xs k', d ∈ k'.owned → k'.spent = k.spent → (tenancy rls t draw actor).wp Q (f (x :: xs)) k') :
    (tenancy rls t draw actor).wp Q (statement (.selectDocumentWithExtraction w) >>= f) k := by
  refine statement_next ht he fun xs hxs => ?_
  cases xs with
  | nil => exact hnil
  | cons x xs =>
    have hid : x.1.id = d := by
      have := hxs x List.mem_cons_self
      simp only [DocumentsWhere.holds, hw, Option.all_some, Bool.and_eq_true, beq_iff_eq] at this
      exact this.1.1.symm
    exact hcons x xs _ (by simp [learned, hid]) rfl

private theorem learns_of_spent {x : Tx} {k' : Knowledge} {r : Except Failure x.Result} (hf : found x r = [])
    (hd : draws x = false) (hk : k'.spent = k.spent) : Learns x k k' r :=
  ⟨by rw [hf]; rintro _ ⟨⟩, by rw [hk, hd, Bool.false_or]⟩

/-- Admissible transactions issue permitted statements only. -/
theorem body_tenancy {x : Tx} (h : Admissible rls t draw actor k x) :
    x.tenantId = t ∧ (tenancy rls t draw actor).wp (Learns x k) x.body k := by
  cases x with
  | insertDocument p id =>
    obtain ⟨ht, hid, hk, ha⟩ := h
    refine ⟨ht, statement_next ⟨ht, hid, hk, ha⟩ (fun _ => ⟨by rintro _ ⟨⟩, rfl⟩) fun rows _ => ?_⟩
    cases rows with
    | nil => exact ⟨by rintro _ ⟨⟩, rfl⟩
    | cons row rows => exact ⟨fun d hd => by rw [List.mem_singleton.1 hd]; simp [learned], rfl⟩
  | approve t' d a =>
    obtain ⟨rfl, ha⟩ := h
    exact ⟨rfl, Protocol.wp_mono (fun _ _ => learns_of_spent rfl rfl) (decide_tenancy ha)⟩
  | reject t' d a reason =>
    obtain ⟨rfl, ha⟩ := h
    exact ⟨rfl, Protocol.wp_mono (fun _ _ => learns_of_spent rfl rfl) (decide_tenancy ha)⟩
  | edit t' d a changes =>
    obtain ⟨rfl, ha⟩ := h
    exact ⟨rfl, Protocol.wp_mono (fun _ _ => learns_of_spent rfl rfl) (edit_tenancy ha)⟩
  | reprocess t' d a =>
    obtain ⟨rfl, ha⟩ := h
    exact ⟨rfl, Protocol.wp_mono (fun _ _ => learns_of_spent rfl rfl) (reprocess_tenancy ha)⟩
  | getDocument t' d =>
    obtain rfl := h
    exact ⟨rfl, found_next rfl (.inr rfl) (fun _ => learns_of_spent rfl rfl rfl) (learns_of_spent rfl rfl rfl)
      fun x xs k' hd hk => ⟨fun d' hd' => (List.mem_singleton.1 hd').symm ▸ hd, hk⟩⟩
  | webhookSubject t' d =>
    obtain ⟨hrls, rfl⟩ := h
    refine ⟨rfl, found_next rfl (.inl hrls) (fun _ => learns_of_spent rfl rfl rfl) ?_ fun x xs k' hd hk => ?_⟩
    · exact statement_next rfl (fun _ => learns_of_spent rfl rfl rfl) fun _ _ => learns_of_spent rfl rfl rfl
    · refine statement_next rfl (fun _ => learns_of_spent rfl rfl hk) fun _ _ => ⟨fun d' hd' => ?_, hk⟩
      exact List.mem_append_right _ ((List.mem_singleton.1 hd').symm ▸ hd)
  | updateDocument t' d set =>
    exact ⟨h.1, statement_next (h.2.imp_right fun hd => ⟨d, hd, rfl⟩) (fun _ => learns_of_spent rfl rfl rfl)
      fun _ _ => learns_of_spent rfl rfl rfl⟩
  | writeAuditLog t' row =>
    exact ⟨h.1, Protocol.wp_step h.2 (fun _ _ => learns_of_spent rfl rfl rfl) fun _ _ => learns_of_spent rfl rfl rfl⟩
  | selectAuditLog t' d =>
    exact ⟨h.1, Protocol.wp_step h.2 (fun _ _ => learns_of_spent rfl rfl rfl) fun _ _ => learns_of_spent rfl rfl rfl⟩
  | insertExtraction t' row =>
    exact ⟨h.2, Protocol.wp_step (.inl h.1) (fun _ _ => learns_of_spent rfl rfl rfl)
      fun _ _ => learns_of_spent rfl rfl rfl⟩
  | countDeliveries t' d =>
    exact ⟨h.2, Protocol.wp_step h.1 (fun _ _ => learns_of_spent rfl rfl rfl) fun _ _ => learns_of_spent rfl rfl rfl⟩
  | updateDelivery t' set id =>
    exact ⟨h.2, Protocol.wp_step h.1 (fun _ _ => learns_of_spent rfl rfl rfl) fun _ _ => learns_of_spent rfl rfl rfl⟩
  | listDocuments t' status page pageSize =>
    obtain rfl := h
    exact ⟨rfl, statement_next (.inr rfl) (fun _ => learns_of_spent rfl rfl rfl) fun _ _ =>
      statement_next (.inr rfl) (fun _ => learns_of_spent rfl rfl rfl) fun _ _ => learns_of_spent rfl rfl rfl⟩
  | getStorageKey t' d =>
    obtain rfl := h
    exact ⟨rfl, statement_next (.inr rfl) (fun _ => learns_of_spent rfl rfl rfl) fun _ _ => learns_of_spent rfl rfl rfl⟩
  | findTenant t' =>
    exact ⟨h, statement_next h (fun _ => learns_of_spent rfl rfl rfl) fun _ _ => learns_of_spent rfl rfl rfl⟩
  | updateTenant t' set =>
    exact ⟨h, Protocol.wp_ite (fun _ => learns_of_spent rfl rfl rfl) fun _ =>
      statement_next h (fun _ => learns_of_spent rfl rfl rfl) fun _ _ => learns_of_spent rfl rfl rfl⟩
  | findDocument t' d =>
    exact ⟨h.2, statement_next (.inl h.1) (fun _ => learns_of_spent rfl rfl rfl) fun _ _ => learns_of_spent rfl rfl rfl⟩
  | findDocumentWithExtraction t' d =>
    exact ⟨h.2, statement_next (.inl h.1) (fun _ => learns_of_spent rfl rfl rfl) fun _ _ => learns_of_spent rfl rfl rfl⟩
  | insertDelivery t' row =>
    obtain ⟨hrls, rfl, hd, hid, hk⟩ := h
    refine ⟨rfl, statement_next ⟨hrls, hd, hid, hk⟩ (fun _ => ⟨by rintro _ ⟨⟩, rfl⟩) fun rows _ => ?_⟩
    cases rows <;> exact ⟨by rintro _ ⟨⟩, rfl⟩

end Bodies

section Run
variable {rls : Bool} {t draw : Uuid} {actor : Option Uuid} {k k' : Knowledge} {db o : Db} {x : Tx}

/-- To know less is to see as much. -/
theorem Sees.weaken (h : Sees t draw actor k' db o) (ho : ∀ d ∈ k.owned, d ∈ k'.owned)
    (hs : k.spent = false → k'.spent = false) : Sees t draw actor k db o :=
  ⟨h.sound, h.view, fun d hd => h.owned d (ho d hd), fun hk => h.fresh (hs hk), h.actor⟩

/-- The two runs of a transaction that began in `db`, knowing `k`. -/
private def Beside (t draw : Uuid) (actor : Option Uuid) (k : Knowledge) (db : Db) (k' : Knowledge) (a b : Db) : Prop :=
  Sees t draw actor k' a b ∧ others t a = others t db ∧ ∀ d ∈ k.owned, d ∈ k'.owned

/-- One transaction, run on the database and on the tenant's part of it. -/
theorem tx_sees (hx : Admissible rls t draw actor k x) (h : Sees t draw actor k db o) :
    (x.run rls db).1 = (x.run rls o).1 ∧
      Sees t draw actor ⟨found x (x.run rls db).1 ++ k.owned, draws x || k.spent⟩ (x.run rls db).2 (x.run rls o).2 ∧
      others t (x.run rls db).2 = others t db := by
  obtain ⟨ht, hwp⟩ := body_tenancy hx
  have hstep : ∀ (k' : Knowledge) (q : Statement) (a b : Db), (tenancy rls t draw actor).allowed k' q →
      Beside t draw actor k db k' a b → (q.exec ⟨rls, x.tenantId⟩ a).1 = (q.exec ⟨rls, x.tenantId⟩ b).1 ∧
        (tenancy rls t draw actor).answers k' q (q.exec ⟨rls, x.tenantId⟩ a).1 ∧
        Beside t draw actor k db ((tenancy rls t draw actor).next k' q (q.exec ⟨rls, x.tenantId⟩ a).1)
          (q.exec ⟨rls, x.tenantId⟩ a).2 (q.exec ⟨rls, x.tenantId⟩ b).2 := by
    intro k' q a b hq hr
    obtain ⟨he, htr, hs, ho⟩ := @statement_sees t draw actor k' a ⟨rls, x.tenantId⟩ q b ht hq hr.1
    exact ⟨he, htr, hs, ho.trans hr.2.1, fun d hd => List.mem_append_right _ (hr.2.2 d hd)⟩
  have hrun := Protocol.exec_related hstep hwp ⟨h, rfl, fun d hd => hd⟩
  obtain ⟨he, k', ⟨hsees, ho, hk⟩, hl⟩ := hrun
  rw [Tx.run, Tx.run]
  rcases hex : x.body.exec (Statement.exec ⟨rls, x.tenantId⟩) db with ⟨e | a, db'⟩
  all_goals
    rcases hex' : x.body.exec (Statement.exec ⟨rls, x.tenantId⟩) o with ⟨e' | a', o'⟩
    all_goals
      rw [hex, hex'] at he
      cases he
  · have hnone : found x (.error e) = [] := by cases x <;> rfl
    refine ⟨rfl, h.weaken (by rw [hnone]; exact fun d hd => hd) fun hk => (Bool.or_eq_false_iff.1 hk).2, rfl⟩
  · rw [hex] at hsees ho hl
    rw [hex'] at hsees
    refine ⟨rfl, hsees.weaken (fun d hd => ?_) fun hk => hl.2.trans hk, ho⟩
    rcases List.mem_append.1 hd with hd | hd
    · exact hl.1 d hd
    · exact hk d hd

end Run
end DocAuto.Tenancy
