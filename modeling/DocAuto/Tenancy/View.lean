import DocAuto.Database.Outcome

/-! The database as one tenant sees it. A statement that keeps to what its session may
touch does the same to the tenant's own rows whether or not the other rows are there. -/
namespace DocAuto.Tenancy
open Process Database Table

/-- The rows of tenant `t`: its own, its users, documents and deliveries, and what hangs
on its documents. -/
def own (t : Uuid) (db : Db) : Db :=
  { db with
    tenants := db.tenants.filter fun r => r.id == t
    users := db.users.filter fun r => r.tenantId == t
    documents := db.documents.filter fun r => r.tenantId == t
    documentsExtraction := db.documentsExtraction.filter fun r => db.ownsDocument t r.documentId
    documentAuditLog := db.documentAuditLog.filter fun r => db.ownsDocument t r.documentId
    webhookDeliveries := db.webhookDeliveries.filter fun r => r.tenantId == t }

/-- All other rows. -/
def others (t : Uuid) (db : Db) : Db :=
  { db with
    tenants := db.tenants.filter fun r => !(r.id == t)
    users := db.users.filter fun r => !(r.tenantId == t)
    documents := db.documents.filter fun r => !(r.tenantId == t)
    documentsExtraction := db.documentsExtraction.filter fun r => !db.ownsDocument t r.documentId
    documentAuditLog := db.documentAuditLog.filter fun r => !db.ownsDocument t r.documentId
    webhookDeliveries := db.webhookDeliveries.filter fun r => !(r.tenantId == t) }

/-- What an operation has found out: documents that are the tenant's, and whether it has
used up the UUID it draws. -/
structure Knowledge where
  owned : List Uuid
  spent : Bool

/-- The statements an operation of tenant `t` may issue, given what it knows. -/
def Permitted (rls : Bool) (t draw : Uuid) (actor : Option Uuid) (k : Knowledge) : Statement → Prop
  | .selectTenant id | .updateTenants _ id => id = t
  | .selectDocuments w | .selectDocumentsPage w _ _ | .countDocuments w | .selectDocumentWithExtraction w =>
    rls ∨ w.tenantId = some t
  | .insertDocument row => row.tenantId = t ∧ row.id = draw ∧ k.spent = false ∧ actor = some row.uploadedBy
  | .updateDocuments _ w => rls ∨ ∃ d ∈ k.owned, w.id = some d
  | .selectExtraction d | .updateExtraction _ d | .deleteExtraction d | .selectAuditLog d => rls ∨ d ∈ k.owned
  | .insertExtraction row => rls ∨ row.documentId ∈ k.owned
  | .insertAuditLog row => (rls ∨ row.documentId ∈ k.owned) ∧ (row.actorId = none ∨ row.actorId = actor)
  | .countDeliveries _ | .updateDelivery _ _ => rls
  | .insertDelivery row => rls ∧ row.documentId ∈ k.owned ∧ row.id = draw ∧ k.spent = false
  | .insertTenant _ | .insertUser _ => False

/-- The documents an answer shows to be the tenant's. -/
def learned : (q : Statement) → Except Failure q.Resp → List Uuid
  | .selectDocuments _, .ok rows | .insertDocument _, .ok rows => rows.map (·.id)
  | .selectDocumentWithExtraction _, .ok rows => rows.map (·.1.id)
  | _, _ => []

def spends : Statement → Bool
  | .insertDocument _ | .insertDelivery _ => true
  | _ => false

/-- An answer shows the row that was asked for. -/
def truthful (q : Statement) (r : Except Failure q.Resp) : Prop :=
  match q, r with
  | .selectDocuments w, .ok rows => ∀ row ∈ rows, w.holds row
  | .selectDocumentWithExtraction w, .ok rows => ∀ x ∈ rows, w.holds x.1
  | .insertDocument row, .ok rows => ∀ x ∈ rows, x.id = row.id
  | _, _ => True

/-- Statements of the operations of one tenant. -/
def tenancy (rls : Bool) (t draw : Uuid) (actor : Option Uuid) : Protocol Statement Statement.Resp Failure where
  Phase := Knowledge
  allowed := Permitted rls t draw actor
  answers _ := truthful
  next k q r := ⟨learned q r ++ k.owned, spends q || k.spent⟩

/-- `o` is the tenant's part of `db`, and what the operation knows is so. -/
structure Sees (t draw : Uuid) (actor : Option Uuid) (k : Knowledge) (db o : Db) : Prop where
  sound : db.Sound
  view : o = own t db
  owned : ∀ d ∈ k.owned, db.ownsDocument t d
  fresh : k.spent = false → (∀ r ∈ db.documents, r.id ≠ draw) ∧ ∀ r ∈ db.webhookDeliveries, r.id ≠ draw
  actor : ∀ u, actor = some u → ∃ r ∈ db.users, r.id = u ∧ r.tenantId = t

section Rows
variable {α : Type} {rows : List α} {p q : α → Bool} {f : α → α}

private theorem filter_own (h : ∀ r ∈ rows, p r → q r) : (rows.filter q).filter p = rows.filter p := by
  rw [List.filter_filter]
  refine List.filter_congr fun r hr => ?_
  cases hp : p r with
  | false => rfl
  | true => exact h r hr hp

private theorem update_own (hq : ∀ r, q (f r) = q r) :
    (rows.map fun r => if p r then f r else r).filter q = (rows.filter q).map fun r => if p r then f r else r := by
  rw [List.filter_map]
  refine congrArg _ (List.filter_congr fun r _ => ?_)
  dsimp only [Function.comp_apply]
  split
  · exact hq r
  · rfl

private theorem update_others (h : ∀ r ∈ rows, p r → q r) (hq : ∀ r, q (f r) = q r) :
    ((rows.map fun r => if p r then f r else r).filter fun r => !q r) = rows.filter fun r => !q r := by
  induction rows with
  | nil => rfl
  | cons r rows ih =>
    rw [List.map_cons, List.filter_cons, List.filter_cons, ih fun r hr => h r (List.mem_cons_of_mem _ hr)]
    by_cases hp : p r
    · simp [hp, hq, h r List.mem_cons_self hp]
    · simp [hp]

private theorem append_own {r : α} (h : q r = true) : (rows ++ [r]).filter q = rows.filter q ++ [r] := by
  simp [List.filter_append, h]

private theorem append_others {r : α} (h : q r = true) :
    ((rows ++ [r]).filter fun r => !q r) = rows.filter fun r => !q r := by
  simp [List.filter_append, h]

end Rows

section View
variable {t d : Uuid} {db : Db} {s : Session}

theorem own_ownsDocument : (own t db).ownsDocument t d = db.ownsDocument t d := by
  rw [Db.ownsDocument, Db.ownsDocument, own, List.any_filter]
  refine congrArg (db.documents.any ·) (funext fun r => ?_)
  cases r.tenantId == t <;> cases r.id == d <;> rfl

theorem own_admitsChild (hs : s.tenantId = t) : s.admitsChild (own t db) d = s.admitsChild db d := by
  rw [Session.admitsChild, Session.admitsChild, hs, own_ownsDocument]

private theorem own_of_admits {w : DocumentsWhere} {r : DocumentRow}
    (hs : s.tenantId = t) (hw : s.rls ∨ w.tenantId = some t) (h : (s.admitsTenant r.tenantId && w.holds r) = true) :
    (r.tenantId == t) = true := by
  simp only [Bool.and_eq_true, Session.admitsTenant, DocumentsWhere.holds, Bool.or_eq_true, Bool.not_eq_true'] at h
  rcases hw with hr | hw
  · simpa [hr, hs] using h.1
  · have := h.2.1.2
    rw [hw, Option.all_some] at this
    exact beq_iff_eq.2 (beq_iff_eq.1 this).symm

theorem matching_own {w : DocumentsWhere} (hs : s.tenantId = t) (hw : s.rls ∨ w.tenantId = some t) :
    Statement.matching s w (own t db) = Statement.matching s w db :=
  filter_own fun _ _ => own_of_admits hs hw

theorem visibleExtraction_own (hs : s.tenantId = t) (hd : s.rls ∨ db.ownsDocument t d) :
    Statement.visibleExtraction s (own t db) d = Statement.visibleExtraction s db d := by
  rw [Statement.visibleExtraction, Statement.visibleExtraction]
  simp only [own_admitsChild hs]
  refine filter_own fun r _ h => ?_
  simp only [Bool.and_eq_true, beq_iff_eq, Session.admitsChild, Bool.or_eq_true, Bool.not_eq_true'] at h
  rcases hd with hr | hd
  · simpa [hr, hs] using h.1
  · exact h.2.symm ▸ hd

end View

section Effect
variable {t draw : Uuid} {actor : Option Uuid} {k : Knowledge} {db : Db} {s : Session} {q : Statement}

/-- The effect of a statement, on the whole database and on the tenant's part of it. -/
structure Confined (t : Uuid) (s : Session) (q : Statement) (db : Db) : Prop where
  answer : (q.exec s db).1 = (q.exec s (own t db)).1
  view : own t (q.exec s db).2 = (q.exec s (own t db)).2
  others : others t (q.exec s db).2 = others t db

private theorem own_tenants : (own t db).tenants.any (·.id == t) = db.tenants.any (·.id == t) := by
  simp [own, List.any_filter]

private theorem own_users {u : Uuid} (h : ∃ r ∈ db.users, r.id = u ∧ r.tenantId = t) :
    db.users.any (·.id == u) = true ∧ (own t db).users.any (·.id == u) = true := by
  obtain ⟨r, hr, hu, ht⟩ := h
  exact ⟨List.any_eq_true.2 ⟨r, hr, beq_iff_eq.2 hu⟩,
    List.any_eq_true.2 ⟨r, List.mem_filter.2 ⟨hr, beq_iff_eq.2 ht⟩, beq_iff_eq.2 hu⟩⟩

private theorem own_documents {d : Uuid} (h : db.ownsDocument t d) :
    db.documents.any (·.id == d) = true ∧ (own t db).documents.any (·.id == d) = true := by
  obtain ⟨r, hr, h⟩ := List.any_eq_true.1 h
  simp only [Bool.and_eq_true, beq_iff_eq] at h
  exact ⟨List.any_eq_true.2 ⟨r, hr, beq_iff_eq.2 h.1⟩,
    List.any_eq_true.2 ⟨r, List.mem_filter.2 ⟨hr, beq_iff_eq.2 h.2⟩, beq_iff_eq.2 h.1⟩⟩

/-- Rows of existing documents only: a new document has nothing hanging on it. -/
private theorem owns_new {row : DocumentRow} {d : Uuid} (hd : (db.document d).isSome)
    (hnew : ∀ r ∈ db.documents, r.id ≠ row.id) :
    ({ db with documents := db.documents ++ [row] } : Db).ownsDocument t d = db.ownsDocument t d := by
  obtain ⟨r, hr⟩ := Option.isSome_iff_exists.1 hd
  have hne : row.id ≠ d := fun he => hnew r (mem_of_lookup hr) ((key_of_lookup hr).trans he.symm)
  simp [Db.ownsDocument, hne]

private theorem owns_updated {set : DocumentsSet} {p : DocumentRow → Bool} (d : Uuid) :
    ({ db with documents := db.documents.map fun r => if p r then set.apply r else r } : Db).ownsDocument t d =
      db.ownsDocument t d := by
  rw [Db.ownsDocument, Db.ownsDocument, List.any_map]
  refine congrArg (db.documents.any ·) (funext fun r => ?_)
  dsimp only [Function.comp_apply]
  split <;> rfl

private theorem of_owned {d : Uuid} {r : DocumentRow} (hs : db.Sound) (hd : db.ownsDocument t d) (hr : r ∈ db.documents)
    (he : r.id = d) : r.tenantId = t := by
  obtain ⟨x, hx, h⟩ := List.any_eq_true.1 hd
  simp only [Bool.and_eq_true, beq_iff_eq] at h
  exact (List.inj_on_of_nodup_map hs.documents hr hx (he.trans h.1.symm)) ▸ h.2

section
variable (hs : s.tenantId = t) (h : Sees t draw actor k db (own t db))
include hs h

private theorem insertDocument_confined {row : DocumentRow} (ht : row.tenantId = t) (hd : row.id = draw)
    (hk : k.spent = false) (ha : actor = some row.uploadedBy) : Confined t s (.insertDocument row) db := by
  have hadm : s.admitsTenant row.tenantId = true := by simp [Session.admitsTenant, hs, ht]
  have hfresh := (h.fresh hk).1
  have hnew : db.documents.any (·.id == row.id) = false := by simpa [hd] using hfresh
  have hnew' : (own t db).documents.any (·.id == row.id) = false := by
    simpa [own, hd] using fun r hr _ => hfresh r hr
  obtain ⟨hu, hu'⟩ := own_users (h.actor _ ha)
  have hten : (own t db).tenants.any (·.id == row.tenantId) = db.tenants.any (·.id == row.tenantId) :=
    ht ▸ own_tenants
  cases hex : db.tenants.any (·.id == row.tenantId) with
  | false =>
    refine ⟨?_, ?_, ?_⟩ <;> simp [Statement.exec, hadm, hnew, hnew', hten, hex]
  | true =>
    have hx : (Statement.insertDocument row).exec s db = (.ok [{ row with createdAt := db.now }],
        { db with documents := db.documents ++ [{ row with createdAt := db.now }] }) := by
      simp [Statement.exec, hadm, hnew, hex, hu]
    have hx' : (Statement.insertDocument row).exec s (own t db) = (.ok [{ row with createdAt := db.now }],
        { own t db with documents := (own t db).documents ++ [{ row with createdAt := db.now }] }) := by
      simp [Statement.exec, hadm, hnew', hten, hex, hu', show (own t db).now = db.now from rfl]
    have hown : ∀ d, (db.document d).isSome → ({ db with
        documents := db.documents ++ [{ row with createdAt := db.now }] } : Db).ownsDocument t d = db.ownsDocument t d :=
      fun d hdoc => owns_new hdoc fun r hr => hd.symm ▸ hfresh r hr
    refine ⟨by rw [hx, hx'], ?_, ?_⟩
    · rw [hx, hx']
      simp only [own, List.filter_append, Db.mk.injEq, true_and, and_true]
      refine ⟨by simp [ht], ?_, ?_⟩
      · exact List.filter_congr fun r hr => hown _ (h.sound.extractionOf r hr)
      · exact List.filter_congr fun r hr => hown _ (h.sound.auditOf r hr)
    · rw [hx]
      simp only [others, List.filter_append, Db.mk.injEq, true_and, and_true]
      refine ⟨by simp [ht], ?_, ?_⟩
      · exact List.filter_congr fun r hr => congrArg _ (hown _ (h.sound.extractionOf r hr))
      · exact List.filter_congr fun r hr => congrArg _ (hown _ (h.sound.auditOf r hr))

private theorem updateDocuments_confined {set : DocumentsSet} {w : DocumentsWhere}
    (hp : s.rls ∨ ∃ d ∈ k.owned, w.id = some d) : Confined t s (.updateDocuments set w) db := by
  have hown : ∀ r ∈ db.documents, (s.admitsTenant r.tenantId && w.holds r) = true → (r.tenantId == t) = true := by
    intro r hr hp'
    rcases hp with hrls | ⟨d, hd, hw⟩
    · exact own_of_admits hs (.inl hrls) hp'
    · simp only [Bool.and_eq_true, DocumentsWhere.holds, hw, Option.all_some, beq_iff_eq] at hp'
      exact beq_iff_eq.2 (of_owned h.sound (h.owned d hd) hr hp'.2.1.1.symm)
  have hkeep := fun d => @owns_updated t db set (fun r => s.admitsTenant r.tenantId && w.holds r) d
  refine ⟨congrArg (fun rows : List DocumentRow => Except.ok (rows.map set.apply)) (filter_own hown).symm, ?_, ?_⟩
  · simp only [Statement.exec, own, Db.mk.injEq, true_and, and_true, hkeep]
    exact update_own fun _ => rfl
  · simp only [Statement.exec, others, Db.mk.injEq, true_and, and_true, hkeep]
    exact update_others hown fun _ => rfl

private theorem insertExtraction_confined {row : ExtractionRow} (hp : s.rls ∨ row.documentId ∈ k.owned) :
    Confined t s (.insertExtraction row) db := by
  by_cases hd : db.ownsDocument t row.documentId
  · have hadm : s.admitsChild db row.documentId = true := by simp [Session.admitsChild, hs, hd]
    have hadm' : s.admitsChild (own t db) row.documentId = true := (own_admitsChild hs).trans hadm
    obtain ⟨hdoc, hdoc'⟩ := own_documents hd
    have hex : (own t db).documentsExtraction.any (·.documentId == row.documentId) =
        db.documentsExtraction.any (·.documentId == row.documentId) := by
      rw [own, List.any_filter]
      refine congrArg (db.documentsExtraction.any ·) (funext fun r => ?_)
      cases he : r.documentId == row.documentId with
      | false => exact Bool.and_false _
      | true => rw [beq_iff_eq.1 he, hd]; rfl
    cases ha : db.documentsExtraction.any (·.documentId == row.documentId) with
    | true => refine ⟨?_, ?_, ?_⟩ <;> simp [Statement.exec, hadm, hadm', hex, ha]
    | false =>
      have hx : (Statement.insertExtraction row).exec s db =
          (.ok (), { db with documentsExtraction := db.documentsExtraction ++ [row] }) := by
        simp [Statement.exec, hadm, ha, hdoc]
      have hx' : (Statement.insertExtraction row).exec s (own t db) =
          (.ok (), { own t db with documentsExtraction := (own t db).documentsExtraction ++ [row] }) := by
        simp [Statement.exec, hadm', hex, ha, hdoc']
      refine ⟨by rw [hx, hx'], ?_, ?_⟩
      · rw [hx, hx']
        exact congrArg (fun rows : List ExtractionRow => { own t db with documentsExtraction := rows })
          (append_own (q := fun r => db.ownsDocument t r.documentId) hd)
      · rw [hx]
        exact congrArg (fun rows : List ExtractionRow => { others t db with documentsExtraction := rows })
          (append_others (q := fun r => db.ownsDocument t r.documentId) hd)
  · have hrls : s.rls = true := hp.resolve_right fun hk => hd (h.owned _ hk)
    have hadm : s.admitsChild db row.documentId = false := by simp [Session.admitsChild, hs, hrls, hd]
    have hadm' : s.admitsChild (own t db) row.documentId = false := (own_admitsChild hs).trans hadm
    refine ⟨?_, ?_, ?_⟩ <;> simp [Statement.exec, hadm, hadm']

private theorem insertAuditLog_confined {row : AuditRow} (hp : s.rls ∨ row.documentId ∈ k.owned)
    (ha : row.actorId = none ∨ row.actorId = actor) : Confined t s (.insertAuditLog row) db := by
  by_cases hd : db.ownsDocument t row.documentId
  · have hadm : s.admitsChild db row.documentId = true := by simp [Session.admitsChild, hs, hd]
    have hadm' : s.admitsChild (own t db) row.documentId = true := (own_admitsChild hs).trans hadm
    obtain ⟨hdoc, hdoc'⟩ := own_documents hd
    have hact : row.actorId.all (fun id => db.users.any (·.id == id)) = true ∧
        row.actorId.all (fun id => (own t db).users.any (·.id == id)) = true := by
      cases hr : row.actorId with
      | none => exact ⟨rfl, rfl⟩
      | some u => exact own_users (h.actor u ((ha.resolve_left (by simp [hr])).symm.trans hr))
    have hx : (Statement.insertAuditLog row).exec s db =
        (.ok (), { db with documentAuditLog := db.documentAuditLog ++ [{ row with createdAt := db.now }] }) := by
      simp [Statement.exec, hadm, hdoc, hact.1]
    have hx' : (Statement.insertAuditLog row).exec s (own t db) = (.ok (),
        { own t db with documentAuditLog := (own t db).documentAuditLog ++ [{ row with createdAt := db.now }] }) := by
      simp [Statement.exec, hadm', hdoc', hact.2, show (own t db).now = db.now from rfl]
    have hd' : db.ownsDocument t ({ row with createdAt := db.now } : AuditRow).documentId = true := hd
    refine ⟨by rw [hx, hx'], ?_, ?_⟩
    · rw [hx, hx']
      exact congrArg (fun rows : List AuditRow => { own t db with documentAuditLog := rows })
        (append_own (q := fun r => db.ownsDocument t r.documentId) hd')
    · rw [hx]
      exact congrArg (fun rows : List AuditRow => { others t db with documentAuditLog := rows })
        (append_others (q := fun r => db.ownsDocument t r.documentId) hd')
  · have hrls : s.rls = true := hp.resolve_right fun hk => hd (h.owned _ hk)
    have hadm : s.admitsChild db row.documentId = false := by simp [Session.admitsChild, hs, hrls, hd]
    have hadm' : s.admitsChild (own t db) row.documentId = false := (own_admitsChild hs).trans hadm
    refine ⟨?_, ?_, ?_⟩ <;> simp [Statement.exec, hadm, hadm']

private theorem insertDelivery_confined {row : DeliveryRow} (hrls : s.rls) (hd : row.documentId ∈ k.owned)
    (hid : row.id = draw) (hk : k.spent = false) : Confined t s (.insertDelivery row) db := by
  by_cases ht : row.tenantId = t
  · have hadm : s.admitsTenant row.tenantId = true := by simp [Session.admitsTenant, hs, ht]
    have hfresh := (h.fresh hk).2
    have hnew : db.webhookDeliveries.any (·.id == row.id) = false := by simpa [hid] using hfresh
    have hnew' : (own t db).webhookDeliveries.any (·.id == row.id) = false := by
      simpa [own, hid] using fun r hr _ => hfresh r hr
    obtain ⟨hdoc, hdoc'⟩ := own_documents (h.owned _ hd)
    have hten : (own t db).tenants.any (·.id == row.tenantId) = db.tenants.any (·.id == row.tenantId) :=
      ht ▸ own_tenants
    cases hex : db.tenants.any (·.id == row.tenantId) with
    | false => refine ⟨?_, ?_, ?_⟩ <;> simp [Statement.exec, hadm, hnew, hnew', hdoc, hdoc', hten, hex]
    | true =>
      have hx : (Statement.insertDelivery row).exec s db =
          (.ok [row], { db with webhookDeliveries := db.webhookDeliveries ++ [row] }) := by
        simp [Statement.exec, hadm, hnew, hdoc, hex]
      have hx' : (Statement.insertDelivery row).exec s (own t db) =
          (.ok [row], { own t db with webhookDeliveries := (own t db).webhookDeliveries ++ [row] }) := by
        simp [Statement.exec, hadm, hnew', hdoc', hten, hex]
      refine ⟨by rw [hx, hx'], ?_, ?_⟩
      · rw [hx, hx']
        exact congrArg (fun rows : List DeliveryRow => { own t db with webhookDeliveries := rows })
          (append_own (q := fun r => r.tenantId == t) (beq_iff_eq.2 ht))
      · rw [hx]
        exact congrArg (fun rows : List DeliveryRow => { others t db with webhookDeliveries := rows })
          (append_others (q := fun r => r.tenantId == t) (beq_iff_eq.2 ht))
  · have hadm : s.admitsTenant row.tenantId = false := by simp [Session.admitsTenant, hs, hrls, ht]
    refine ⟨?_, ?_, ?_⟩ <;> simp [Statement.exec, hadm]

private theorem child_own {d d' : Uuid} (hp : s.rls ∨ d ∈ k.owned)
    (hr : (s.admitsChild db d' && d' == d) = true) : db.ownsDocument t d' = true := by
  simp only [Bool.and_eq_true, beq_iff_eq, Session.admitsChild, Bool.or_eq_true, Bool.not_eq_true'] at hr
  rcases hp with hrls | hd
  · simpa [hrls, hs] using hr.1
  · exact hr.2.symm ▸ h.owned d hd

private theorem updateExtraction_confined {changes : ExtractionEdit} {d : Uuid} (hp : s.rls ∨ d ∈ k.owned) :
    Confined t s (.updateExtraction changes d) db := by
  have hown : ∀ r ∈ db.documentsExtraction, (s.admitsChild db r.documentId && r.documentId == d) = true →
      db.ownsDocument t r.documentId = true := fun r _ => child_own hs h hp
  refine ⟨?_, ?_, ?_⟩ <;> simp only [Statement.exec, own_admitsChild hs]
  · exact congrArg (fun rows : List ExtractionRow => Except.ok (rows.map (applyEdit changes))) (filter_own hown).symm
  · exact congrArg (fun rows : List ExtractionRow => { own t db with documentsExtraction := rows })
      (update_own (q := fun r => db.ownsDocument t r.documentId) (f := applyEdit changes) fun _ => rfl)
  · exact congrArg (fun rows : List ExtractionRow => { others t db with documentsExtraction := rows })
      (update_others (f := applyEdit changes) hown fun _ => rfl)

private theorem deleteExtraction_confined {d : Uuid} (hp : s.rls ∨ d ∈ k.owned) :
    Confined t s (.deleteExtraction d) db := by
  have hown : ∀ r ∈ db.documentsExtraction, (s.admitsChild db r.documentId && r.documentId == d) = true →
      db.ownsDocument t r.documentId = true := fun r _ => child_own hs h hp
  refine ⟨rfl, ?_, ?_⟩ <;> simp only [Statement.exec, own_admitsChild hs]
  · refine congrArg (fun rows : List ExtractionRow => { own t db with documentsExtraction := rows }) ?_
    exact (List.filter_filter ..).trans ((List.filter_congr fun r _ => Bool.and_comm ..).trans (List.filter_filter ..).symm)
  · refine congrArg (fun rows : List ExtractionRow => { others t db with documentsExtraction := rows }) ?_
    refine (List.filter_filter ..).trans (List.filter_congr fun r hr => ?_)
    cases hc : s.admitsChild db r.documentId && r.documentId == d with
    | false => exact Bool.and_true _
    | true => exact (Bool.and_false _).trans (by rw [show db.ownsDocument t r.documentId = true from hown r hr hc]; rfl)

end

theorem statement_confined (hs : s.tenantId = t) (hp : Permitted s.rls t draw actor k q)
    (h : Sees t draw actor k db (own t db)) : Confined t s q db := by
  cases q with
  | selectTenant id =>
    refine ⟨congrArg Except.ok (filter_own fun r _ hr => ?_).symm, rfl, rfl⟩
    simp only [Bool.and_eq_true, beq_iff_eq] at hr ⊢
    exact hr.2.trans hp
  | updateTenants set id =>
    have hown : ∀ r ∈ db.tenants, (s.admitsTenant r.id && r.id == id) = true → (r.id == t) = true := fun r _ hr => by
      simp only [Bool.and_eq_true, beq_iff_eq] at hr ⊢
      exact hr.2.trans hp
    exact ⟨congrArg (fun rows : List TenantRow => Except.ok (rows.map set.apply)) (filter_own hown).symm,
      congrArg (fun rows : List TenantRow => { own t db with tenants := rows })
        (update_own (q := fun r => r.id == t) (f := set.apply) fun _ => rfl),
      congrArg (fun rows : List TenantRow => { others t db with tenants := rows }) (update_others (f := set.apply) hown fun _ => rfl)⟩
  | insertTenant _ | insertUser _ => exact hp.elim
  | selectDocuments w => exact ⟨congrArg Except.ok (matching_own hs hp).symm, rfl, rfl⟩
  | selectDocumentsPage w limit offset =>
    refine ⟨?_, rfl, rfl⟩
    simp only [Statement.exec, matching_own hs hp]
  | countDocuments w => exact ⟨congrArg (fun rows => Except.ok (List.length rows)) (matching_own hs hp).symm, rfl, rfl⟩
  | insertDocument row => exact insertDocument_confined hs h hp.1 hp.2.1 hp.2.2.1 hp.2.2.2
  | updateDocuments set w => exact updateDocuments_confined hs h hp
  | selectDocumentWithExtraction w =>
    refine ⟨?_, rfl, rfl⟩
    simp only [Statement.exec, matching_own hs hp]
    refine congrArg Except.ok (List.map_congr_left fun r hr => ?_)
    obtain ⟨hmem, hc⟩ := List.mem_filter.1 hr
    have hown : db.ownsDocument t r.id = true :=
      List.any_eq_true.2 ⟨r, hmem, by simpa using own_of_admits hs hp hc⟩
    rw [Statement.withExtraction, Statement.withExtraction, visibleExtraction_own hs (.inr hown)]
  | insertExtraction row => exact insertExtraction_confined hs h hp
  | selectExtraction d =>
    exact ⟨congrArg Except.ok (visibleExtraction_own hs (hp.imp_right (h.owned d))).symm, rfl, rfl⟩
  | updateExtraction changes d => exact updateExtraction_confined hs h hp
  | deleteExtraction d => exact deleteExtraction_confined hs h hp
  | selectAuditLog d =>
    refine ⟨congrArg (fun rows => Except.ok (orderAuditLog rows)) ?_, rfl, rfl⟩
    simp only [own_admitsChild hs]
    exact (filter_own fun r _ => child_own hs h hp).symm
  | insertAuditLog row => exact insertAuditLog_confined hs h hp.1 hp.2
  | countDeliveries d =>
    refine ⟨congrArg (fun rows => Except.ok (List.length rows)) (filter_own fun r _ hr => ?_).symm, rfl, rfl⟩
    simp only [Bool.and_eq_true, Session.admitsTenant, show s.rls = true from hp, hs] at hr
    exact hr.1
  | insertDelivery row => exact insertDelivery_confined hs h hp.1 hp.2.1 hp.2.2.1 hp.2.2.2
  | updateDelivery set id =>
    have hown : ∀ r ∈ db.webhookDeliveries, (s.admitsTenant r.tenantId && r.id == id) = true →
        (r.tenantId == t) = true := fun r _ hr => by
      simp only [Bool.and_eq_true, Session.admitsTenant, show s.rls = true from hp, hs] at hr
      exact hr.1
    exact ⟨rfl,
      congrArg (fun rows : List DeliveryRow => { own t db with webhookDeliveries := rows })
        (update_own (q := fun r => r.tenantId == t) (f := set.apply db.now) fun _ => rfl),
      congrArg (fun rows : List DeliveryRow => { others t db with webhookDeliveries := rows })
        (update_others (f := set.apply db.now) hown fun _ => rfl)⟩

private theorem exec_owns {d : Uuid} (hd : db.ownsDocument t d) : (q.exec s db).2.ownsDocument t d := by
  cases q with
  | insertDocument row =>
    simp only [Statement.exec]
    split_ifs
    all_goals first | exact hd | skip
    exact List.any_append.trans (by rw [show db.documents.any _ = true from hd]; rfl)
  | updateDocuments set w => exact (owns_updated d).trans hd
  | insertTenant _ | insertUser _ | insertExtraction _ | insertAuditLog _ | insertDelivery _ =>
    simp only [Statement.exec]
    split_ifs <;> exact hd
  | _ => exact hd

private theorem exec_learned (hs : s.tenantId = t) (hp : Permitted s.rls t draw actor k q) :
    truthful q (q.exec s db).1 ∧ ∀ d ∈ learned q (q.exec s db).1, (q.exec s db).2.ownsDocument t d := by
  cases q with
  | selectDocuments w =>
    refine ⟨fun r hr => (Bool.and_eq_true_iff.1 (List.mem_filter.1 hr).2).2, fun d hd => ?_⟩
    obtain ⟨r, hr, rfl⟩ := List.mem_map.1 hd
    obtain ⟨hmem, hc⟩ := List.mem_filter.1 hr
    exact List.any_eq_true.2 ⟨r, hmem, by simpa using own_of_admits hs hp hc⟩
  | selectDocumentWithExtraction w =>
    refine ⟨fun x hx => ?_, fun d hd => ?_⟩
    · obtain ⟨r, hr, rfl⟩ := List.mem_map.1 hx
      exact (Bool.and_eq_true_iff.1 (List.mem_filter.1 hr).2).2
    · obtain ⟨x, hx, rfl⟩ := List.mem_map.1 hd
      obtain ⟨r, hr, rfl⟩ := List.mem_map.1 hx
      obtain ⟨hmem, hc⟩ := List.mem_filter.1 hr
      exact List.any_eq_true.2 ⟨r, hmem, by simpa [Statement.withExtraction] using own_of_admits hs hp hc⟩
  | insertDocument row =>
    simp only [Statement.exec]
    split_ifs
    rotate_left 4
    · refine ⟨fun x hx => by rw [List.mem_singleton.1 hx], fun d hd => ?_⟩
      rw [List.mem_singleton.1 hd]
      exact List.any_eq_true.2 ⟨_, List.mem_append_right _ List.mem_cons_self, by simp [hp.1]⟩
    all_goals exact ⟨trivial, by rintro _ ⟨⟩⟩
  | insertTenant _ | insertUser _ => exact hp.elim
  | insertExtraction _ | insertAuditLog _ | insertDelivery _ =>
    cases (Statement.exec s _ db).1 <;> exact ⟨trivial, by rintro _ ⟨⟩⟩
  | _ => exact ⟨trivial, by rintro _ ⟨⟩⟩

private theorem exec_ids (hq : spends q = false) :
    (∀ r ∈ (q.exec s db).2.documents, ∃ r' ∈ db.documents, r'.id = r.id) ∧
      ∀ r ∈ (q.exec s db).2.webhookDeliveries, ∃ r' ∈ db.webhookDeliveries, r'.id = r.id := by
  have same : (∀ r ∈ db.documents, ∃ r' ∈ db.documents, r'.id = r.id) ∧
      ∀ r ∈ db.webhookDeliveries, ∃ r' ∈ db.webhookDeliveries, r'.id = r.id :=
    ⟨fun r hr => ⟨r, hr, rfl⟩, fun r hr => ⟨r, hr, rfl⟩⟩
  cases q with
  | insertDocument _ | insertDelivery _ => cases hq
  | updateDocuments set w =>
    refine ⟨fun r hr => ?_, same.2⟩
    obtain ⟨r', hr', rfl⟩ := List.mem_map.1 hr
    exact ⟨r', hr', by dsimp only; split <;> rfl⟩
  | updateDelivery set id =>
    refine ⟨same.1, fun r hr => ?_⟩
    obtain ⟨r', hr', rfl⟩ := List.mem_map.1 hr
    exact ⟨r', hr', by dsimp only; split <;> rfl⟩
  | insertTenant _ | insertUser _ | insertExtraction _ | insertAuditLog _ =>
    simp only [Statement.exec]
    split_ifs <;> exact same
  | _ => exact same

private theorem exec_users (hp : Permitted s.rls t draw actor k q) : (q.exec s db).2.users = db.users := by
  cases q with
  | insertUser _ => exact hp.elim
  | insertTenant _ | insertDocument _ | insertExtraction _ | insertAuditLog _ | insertDelivery _ =>
    simp only [Statement.exec]
    split_ifs <;> rfl
  | _ => rfl

/-- One statement, run on the database and on the tenant's part of it. -/
theorem statement_sees {o : Db} (hs : s.tenantId = t) (hp : Permitted s.rls t draw actor k q)
    (h : Sees t draw actor k db o) : (q.exec s db).1 = (q.exec s o).1 ∧ truthful q (q.exec s db).1 ∧
      Sees t draw actor ⟨learned q (q.exec s db).1 ++ k.owned, spends q || k.spent⟩ (q.exec s db).2 (q.exec s o).2 ∧
      others t (q.exec s db).2 = others t db := by
  obtain rfl := h.view
  have hc := statement_confined hs hp h
  have hl := @exec_learned t draw actor k db s q hs hp
  refine ⟨hc.answer, hl.1, ⟨q.exec_sound h.sound, hc.view.symm, fun d hd => ?_, fun hk => ?_, fun u hu => ?_⟩, hc.others⟩
  · rcases List.mem_append.1 hd with hd | hd
    · exact hl.2 d hd
    · exact exec_owns (h.owned d hd)
  · obtain ⟨hq, hk⟩ := Bool.or_eq_false_iff.1 hk
    obtain ⟨hdoc, hdel⟩ := @exec_ids db s q hq
    refine ⟨fun r hr => ?_, fun r hr => ?_⟩
    · obtain ⟨r', hr', he⟩ := hdoc r hr
      exact he ▸ (h.fresh hk).1 r' hr'
    · obtain ⟨r', hr', he⟩ := hdel r hr
      exact he ▸ (h.fresh hk).2 r' hr'
  · rw [exec_users hp]
    exact h.actor u hu

end Effect
end DocAuto.Tenancy
