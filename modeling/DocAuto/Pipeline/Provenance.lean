import DocAuto.Pipeline.Secrets
import DocAuto.Pipeline.Writes
import DocAuto.Webhook.Served

/-! What is on record stays on record, and who brings a document to which status. -/
namespace DocAuto

/-- What an upload fixes about a document. -/
structure Origin where
  id : Uuid
  tenantId : Uuid
  uploadedBy : Uuid
  fileName : String
  mimeType : String
  createdAt : Timestamp
  deriving DecidableEq, Repr

def DocumentRow.origin (r : DocumentRow) : Origin :=
  ⟨r.id, r.tenantId, r.uploadedBy, r.fileName, r.mimeType, r.createdAt⟩

/-- What the insert of a delivery fixes about it. -/
def DeliveryRow.origin (r : DeliveryRow) : Uuid × Uuid × Uuid × Nat := (r.id, r.documentId, r.tenantId, r.attempt)

/-- Documents, their trails, deliveries, users and tenants that are there in `db` are there in `db'`:
no row is gone, no entry of a trail is changed, and no row has become another's. -/
structure Db.Extends (db db' : Db) : Prop where
  documents : ∀ d r, db.record d = some r →
    ∃ r', db'.record d = some r' ∧ r'.row.origin = r.row.origin ∧ r.audit <+: r'.audit
  deliveries : ∀ r ∈ db.webhookDeliveries, ∃ r' ∈ db'.webhookDeliveries, r'.origin = r.origin
  users : db'.users = db.users
  tenants : db'.tenants.map (fun t => (t.id, t.slug)) = db.tenants.map fun t => (t.id, t.slug)

namespace Db.Extends

theorem refl (db : Db) : db.Extends db :=
  ⟨fun _ r hr => ⟨r, hr, rfl, List.prefix_refl _⟩, fun r hr => ⟨r, hr, rfl⟩, rfl, rfl⟩

theorem trans {a b c : Db} (hab : a.Extends b) (hbc : b.Extends c) : a.Extends c := by
  refine ⟨fun d r hr => ?_, fun r hr => ?_, hbc.users.trans hab.users, hbc.tenants.trans hab.tenants⟩
  · obtain ⟨r₁, hr₁, ho₁, ha₁⟩ := hab.documents d r hr
    obtain ⟨r₂, hr₂, ho₂, ha₂⟩ := hbc.documents d r₁ hr₁
    exact ⟨r₂, hr₂, ho₂.trans ho₁, ha₁.trans ha₂⟩
  · obtain ⟨r₁, hr₁, ho₁⟩ := hab.deliveries r hr
    obtain ⟨r₂, hr₂, ho₂⟩ := hbc.deliveries r₁ hr₁
    exact ⟨r₂, hr₂, ho₂.trans ho₁⟩

end Db.Extends

namespace Pipeline
open Process Database

/-- A committed transaction leaves what the upload fixed. -/
theorem commit_origin (t : Tx) (now : Timestamp) (r : Record) : (t.commit now r).row.origin = r.row.origin := by
  cases t <;> rfl

section Step
variable {c c' : Config} {a : Action} {d : Uuid}

/-- No transaction writes to `users`. -/
theorem step_users (h : step c a = some c') : c'.world.db.users = c.world.db.users := by
  rcases step_tables h with ⟨i, answer, rfl⟩ | ht
  · obtain ⟨p, cmd, k, r, w, hp, hc, he, rfl⟩ := step_inv h
    rcases Cmd.exec_db he with ⟨x, rfl, rfl, hw⟩ | hw
    · have hno : TableName.users ∉ x.tables := by cases x <;> simp [Tx.tables]
      exact hw ▸ Tx.run_same (T := .users) true hno
    · exact congrArg Db.users hw
  · exact show c'.world.db.tables.users = c.world.db.tables.users from congrArg Db.users ht

/-- A record goes on with its origin, and its trail grows at the end. -/
theorem step_recorded (hr : c.Regular) (h : step c a = some c') {r : Record} (hd : c.world.db.record d = some r) :
    ∃ r', c'.world.db.record d = some r' ∧ r'.row.origin = r.row.origin ∧ r.audit <+: r'.audit := by
  have hv : (c.view d).record = some r := hd
  rcases step_record (d := d) hr.valid h with he | ⟨i, p, t, k, now, -, -, -, -, he, -⟩
  · exact ⟨r, he.trans hd, rfl, List.prefix_refl _⟩
  · rw [hv] at he
    rcases t.after_cases now r with hsame | ⟨-, -, hcommit⟩
    · exact ⟨r, he.trans hsame, rfl, List.prefix_refl _⟩
    · exact ⟨t.commit now r, he.trans hcommit, commit_origin t now r, t.commit_audit now r ▸ List.prefix_append _ _⟩

theorem step_extends (hs : Webhook.Served c) (h : step c a = some c') : c.world.db.Extends c'.world.db := by
  refine ⟨fun d r hr => step_recorded hs.regular h hr, fun r hr => ?_, step_users h, ?_⟩
  · obtain ⟨r', hr', hid, hd, ht, ha⟩ := Webhook.row_kept hs h hr
    exact ⟨r', hr', by rw [DeliveryRow.origin, hid, hd, ht, ha, DeliveryRow.origin]⟩
  · rcases step_tenants h with ht | ⟨i, t, set, -, -, ht⟩
    · rw [ht]
    · rw [ht, List.map_map]
      refine List.map_congr_left fun r _ => ?_
      dsimp only [Function.comp_apply]
      split <;> rfl

end Step

/-- Whatever happens after a state has been reached, what was on record then is on record. -/
theorem history_kept {c c' : Config} {actions : List Action} (hc : Reachable c) (h : run step c actions = some c') :
    c.world.db.Extends c'.world.db :=
  run_monotone (I := Webhook.Served) (R := fun c c' => c.world.db.Extends c'.world.db) (fun c => .refl c.world.db)
    (fun _ _ _ hab hbc => hab.trans hbc) (fun _ _ _ hs h => Webhook.step_served hs h) (fun _ _ _ hs h => step_extends hs h)
    (Webhook.reachable_served hc) h

/-- A document is on record from its upload through its first OCR. -/
theorem history_kept_ocr : ∃ c c', run step demo demoUpload = some c ∧
    run step c (demoOcr .initial 20 "text") = some c' ∧ (c.world.db.record 3).isSome ∧
    c.world.db.Extends c'.world.db := by
  obtain ⟨c', hc'⟩ := Option.isSome_iff_exists.1
    (by decide +kernel : (run step demo (demoUpload ++ demoOcr .initial 20 "text")).isSome = true)
  rw [run_append, Option.bind_eq_some_iff] at hc'
  obtain ⟨c, hc, hc'⟩ := hc'
  have hrec : (run step demo demoUpload).map (fun c => (c.world.db.record 3).isSome) = some true := by decide +kernel
  rw [hc] at hrec
  exact ⟨c, c', hc, hc', Option.some.inj hrec, history_kept ⟨_, _, _, hc⟩ hc'⟩

/-- The statuses a call, or a job of `d`, brings `d` to, from which status it has (none before the upload). -/
inductive Transit (d : Uuid) : Owner → Option DocumentStatus → DocumentStatus → Prop where
  | upload {p} : Transit d (.api (.upload p d)) none .uploaded
  | notStored {p} : Transit d (.api (.upload p d)) (some .uploaded) .failed
  | approve {t actorId} : Transit d (.api (.approve t d actorId)) (some .pendingReview) .approved
  | reject {t actorId reason} : Transit d (.api (.reject t d actorId reason)) (some .pendingReview) .rejected
  | reprocess {t actorId run s} : s = .failed ∨ s = .rejected →
    Transit d (.api (.reprocess t d actorId run)) (some s) .uploaded
  | ocr {q job s s'} : s' ∈ [.ocrProcessing, .extracted, .failed] → Transit d (.job (.ocr d q) job) (some s) s'
  | extraction {q job s s'} : s' ∈ [.extracting, .pendingReview, .approved, .failed] →
    Transit d (.job (.extraction d q) job) (some s) s'

/-- The step leaves the status of `d` as it is, or its process brings `d` to the next one. -/
def StatusMoved (d : Uuid) (c : Config) (a : Action) (c' : Config) : Prop :=
  c'.status d = c.status d ∨ ∃ i p s, a = .step i .execute ∧ c.procs i = some p ∧ c'.status d = some s ∧
    Transit d p.owner (c.status d) s

section Transit
variable {d : Uuid} {v : View} {i : ProcId} {pos : Position} {t : Tx}

private theorem transit_new (hs : Standing d v) (hpos : v.positions i = some pos) {p : Upload}
    (hall : pos.point.allows (.tx (.insertDocument p d))) : Transit d pos.owner none .uploaded := by
  have hp := hs.orderly.points i pos hpos
  obtain ⟨owner, pt⟩ := pos
  cases pt with
  | aside | lost | reset _ _ _ _ | reopen _ _ _ => cases hall
  | review t =>
    cases hall
    obtain ⟨call, -, hc⟩ := hp
    cases call <;> cases hc
  | upload p' id u =>
    cases u <;> cases hall
    exact hp.1 ▸ .upload
  | ocr job o => cases o <;> cases hall
  | extraction job e => cases e <;> cases hall

private theorem transit_set (hs : Standing d v) (hpos : v.positions i = some pos) (hall : pos.point.allows (.tx t))
    {r : Record} (hr : v.record = some r) (hd : t.documentId = some d) {s : DocumentStatus}
    (hset : t.statusSet = some s) (had : t.admitted d v.record) : Transit d pos.owner (some r.row.status) s := by
  have hp := hs.orderly.points i pos hpos
  obtain ⟨owner, pt⟩ := pos
  cases pt with
  | aside =>
    cases t with
    | writeAuditLog _ _ => cases hset
    | insertDocument _ _ => cases hall
    | _ => cases (show Tx.documentId _ = none from hall).symm.trans hd
  | lost | reopen _ _ _ => cases hall
  | upload p id u =>
    have hid : id = d := by cases u <;> cases hall <;> cases hd <;> rfl
    subst hid
    have hup := hs.born.uploading hpos rfl r hr
    rw [hup]
    cases u <;> cases hall <;> cases hset
    exact hp.1 ▸ .notStored
  | review t' =>
    cases hall
    obtain ⟨call, rfl, hc⟩ := hp
    obtain ⟨r', hr', -, hg⟩ : ∃ r, v.record = some r ∧ t.tenantId = r.row.tenantId ∧ t.guard r := by
      cases call <;> cases hc <;> exact had hd
    obtain rfl := Option.some.inj (hr.symm.trans hr')
    cases call <;> cases hc <;> cases hd <;> cases hset
    · exact (show r.row.status = .pendingReview from hg) ▸ .approve
    · exact (show r.row.status = .pendingReview from hg) ▸ .reject
  | reset tid d' actorId run =>
    cases hall
    cases hd
    cases hset
    obtain ⟨r', hr', -, hg⟩ := had rfl
    obtain rfl := Option.some.inj (hr.symm.trans hr')
    exact (show owner = _ from hp) ▸ .reprocess hg
  | ocr job o =>
    have howner : owner = .job (.ocr job.documentId job.processingRunId) job := hp.1
    cases o <;> cases hall <;> first | cases hset; done | skip
    all_goals
      cases hd
      cases hset
      exact howner ▸ .ocr (by simp)
  | extraction job e =>
    have howner : owner = .job (.extraction job.documentId job.processingRunId) job := hp
    have hdecided : ∀ tenant x, decided tenant x ∈ [.extracting, .pendingReview, .approved, .failed] := by
      intro tenant x
      unfold decided
      split <;> simp
    cases e <;> cases hall <;> first | cases hset; done | skip
    all_goals
      cases hd
      cases hset
      refine howner ▸ .extraction ?_
      first | exact hdecided _ _ | simp

theorem step_statusMoved {c c' : Config} {a : Action} (hr : c.Regular) (h : step c a = some c') : StatusMoved d c a c' := by
  rcases step_record (d := d) hr.valid h with he | ⟨i, p, t, k, now, rfl, hp, -, hall, he, had⟩
  · exact .inl (by rw [status_eq, status_eq, he])
  have hpos : (c.view d).positions i = some p.position := Config.view_position hp
  cases hrec : (c.view d).record with
  | none =>
    rw [hrec] at he
    cases t with
    | insertDocument p' id =>
      by_cases hid : id = d
      · subst hid
        refine .inr ⟨i, p, .uploaded, rfl, hp, ?_, ?_⟩
        · rw [status_eq, he]
          exact congrArg (Option.map fun r : Record => r.row.status) (if_pos rfl)
        · rw [status_eq, hrec]
          exact transit_new (hr.standing id) hpos hall
      · exact .inl (by rw [status_eq, status_eq, he, hrec, Tx.after, if_neg hid])
    | _ => exact .inl (by rw [status_eq, status_eq, he, hrec]; rfl)
  | some r =>
    obtain ⟨r', ha, hsame | ⟨hd, -, hset⟩⟩ := Tx.after_status (d := d) t now r
    · exact .inl (by rw [status_eq, status_eq, he, hrec, ha, Option.map_some, Option.map_some, hsame])
    · refine .inr ⟨i, p, r'.row.status, rfl, hp, by rw [status_eq, he, hrec, ha]; rfl, ?_⟩
      rw [status_eq, hrec]
      exact transit_set (hr.standing d) hpos hall hrec hd hset had

end Transit

/-- In every run, whatever the order of calls, jobs, failures and re-deliveries, the status of a document moves
by its transits only, each made by the process of the call or of the job that it names. -/
theorem status_moves (tenants : List TenantRow) (users : List UserRow) (d : Uuid) (actions : List Action) :
    Along step (StatusMoved d) (initial tenants users) actions :=
  along_of_inductive step_regular (fun _ _ _ hr h => step_statusMoved hr h) (initial_regular tenants users)

end Pipeline
end DocAuto
