import DocAuto.Pipeline.Writes

/-! Evidence: when an approved or rejected document has an audit row that says so. -/
namespace DocAuto
open Process Database

namespace Record

/-- The audit rows since the last reprocess, the newest first. -/
def sinceReprocess (r : Record) : List AuditRow := r.audit.reverse.takeWhile (·.event ≠ .reprocessed)

/-- Some row since the last reprocess reports one of the events. -/
def Shows (r : Record) (events : List AuditEvent) : Prop := ∃ row ∈ r.sinceReprocess, row.event ∈ events

/-- A decision of the document is backed by a row with a matching event. -/
def Attested (r : Record) : Prop :=
  (r.row.status = .approved → r.Shows [.approved, .autoApproved]) ∧ (r.row.status = .rejected → r.Shows [.rejected])

instance (r : Record) (events : List AuditEvent) : Decidable (r.Shows events) :=
  inferInstanceAs (Decidable (∃ row ∈ r.sinceReprocess, row.event ∈ events))

theorem shows_log {r : Record} {now : Timestamp} {row : AuditRow} {events : List AuditEvent}
    (h : row.event ≠ .reprocessed) : (r.log now row).Shows events ↔ row.event ∈ events ∨ r.Shows events := by
  simp [Shows, sinceReprocess, log, h]

end Record

namespace Pipeline

/-- The execution has approved its document, or has failed and not yet said so. -/
def ExtractionPoint.unconfirmed : ExtractionPoint → Bool
  | .report tenant r | .conclude tenant r => decided tenant r == .approved
  | .recover _ => true
  | _ => false

def Point.unconfirmed (d : Uuid) : Point → Bool
  | .extraction job e => job.documentId == d && e.unconfirmed
  | _ => false

/-- No execution for `d` is in progress. -/
def Idle (d : Uuid) (c : Config) : Prop :=
  ∀ i p jobId job, c.procs i = some p → p.owner = .job jobId job → job.documentId ≠ d

def AttestedWhenIdle (d : Uuid) (c : Config) : Prop := Idle d c → ∀ r, c.world.db.record d = some r → r.Attested

/-- An extraction execution of an approved document without evidence stops before its
`auto_approved` row, or the status write of its catch block fails. -/
def Abandons (d : Uuid) (c : Config) (a : Action) : Prop :=
  ∃ i p job e, c.procs i = some p ∧ p.point = .extraction job e ∧ job.documentId = d ∧ e.unconfirmed ∧
    (a = .crash i ∨ (∃ err, e = .recover err) ∧ ∃ err, a = .step i (.throws err)) ∧
    ∃ r, c.world.db.record d = some r ∧ r.row.status = .approved ∧ ¬ r.Shows [.approved, .autoApproved]

/-- An approval is attested, or an execution will still attest or withdraw it; a
rejection is attested. -/
structure Evident (d : Uuid) (v : View) : Prop where
  approved : ∀ r, v.record = some r → r.row.status = .approved → r.Shows [.approved, .autoApproved] ∨
    ∃ i pos, v.positions i = some pos ∧ pos.point.unconfirmed d
  rejected : ∀ r, v.record = some r → r.row.status = .rejected → r.Shows [.rejected]

section
variable {c c' : Config} {d : Uuid} {a : Action} {v w : View} {pt pt' : Point} {rec rec' : Option Record}

/-- What the step of a process must do for the evidence: a new approval is attested or
will be, an old one is kept with its evidence, and likewise for rejections. -/
private def Confirms (d : Uuid) (pt pt' : Point) (rec rec' : Option Record) : Prop :=
  ∀ r', rec' = some r' →
    (r'.row.status = .approved → r'.Shows [.approved, .autoApproved] ∨ pt'.unconfirmed d ∨
      pt.unconfirmed d = false ∧ ∃ r, rec = some r ∧ r.row.status = .approved ∧
        (r.Shows [.approved, .autoApproved] → r'.Shows [.approved, .autoApproved])) ∧
    (r'.row.status = .rejected → r'.Shows [.rejected] ∨
      ∃ r, rec = some r ∧ r.row.status = .rejected ∧ (r.Shows [.rejected] → r'.Shows [.rejected]))

private theorem confirms_same (hpt : pt.unconfirmed d = false) (h : rec' = rec) : Confirms d pt pt' rec rec' :=
  fun r' hr' => ⟨fun hs => .inr (.inr ⟨hpt, r', h ▸ hr', hs, id⟩), fun hs => .inr ⟨r', h ▸ hr', hs, id⟩⟩

private theorem confirms_open {r' : Record} (h : rec' = some r') (ha : r'.row.status ≠ .approved)
    (hr : r'.row.status ≠ .rejected) : Confirms d pt pt' rec rec' := by
  rintro r₁ h₁
  obtain rfl := Option.some.inj (h.symm.trans h₁)
  exact ⟨fun hs => absurd hs ha, fun hs => absurd hs hr⟩

private theorem confirms_kept {r r' : Record} (hpt : pt.unconfirmed d = false) (hr : rec = some r)
    (hr' : rec' = some r') (hs : r'.row.status = r.row.status) (hk : ∀ es, r.Shows es → r'.Shows es) :
    Confirms d pt pt' rec rec' := by
  rintro r₁ h₁
  obtain rfl := Option.some.inj (hr'.symm.trans h₁)
  exact ⟨fun h => .inr (.inr ⟨hpt, r, hr, hs ▸ h, hk _⟩), fun h => .inr ⟨r, hr, hs ▸ h, hk _⟩⟩

/-- A step after which the execution still has to attest the approval or withdraw it. -/
private theorem confirms_pending (hpt' : pt'.unconfirmed d)
    (hr : ∀ r', rec' = some r' → r'.row.status = .rejected → r'.Shows [.rejected]) : Confirms d pt pt' rec rec' :=
  fun r' hr' => ⟨fun _ => .inr (.inl hpt'), fun hs => .inl (hr r' hr' hs)⟩

private theorem kept_log {r : Record} {now : Timestamp} {row : AuditRow} (h : row.event ≠ .reprocessed)
    (es : List AuditEvent) (hs : r.Shows es) : (r.log now row).Shows es := (Record.shows_log h).2 (.inr hs)

section Strides
variable {i : ProcId} {pos : Position} {job : JobData} {cmd : Cmd} {answer : Answer} {r : Except Failure cmd.Resp}

private theorem quiet_confirms (hpt : pt.unconfirmed d = false) (heff : Effect d v cmd answer r w)
    (h : ∀ t, cmd = .tx t → t.documentId ≠ some d ∧ ∀ p, t ≠ .insertDocument p d) :
    Confirms d pt pt' v.record w.record := confirms_same hpt (heff.quiet h)

private theorem update_confirms {tenantId d' : Uuid} {set : DocumentsSet} {res : Except Failure Unit}
    (heff : Effect d v (.tx (.updateDocument tenantId d' set)) answer res w) (hpt : pt.unconfirmed d = false)
    (ha : set.status ≠ some .approved) (hr : set.status ≠ some .rejected) : Confirms d pt pt' v.record w.record := by
  rcases heff.commit_cases (by rintro _ ⟨⟩) with he | ⟨now, rec, hrec, he⟩
  · exact confirms_same hpt he
  · have hst : (rec.set set).row.status = set.status.getD rec.row.status := rfl
    cases hset : set.status with
    | none => exact confirms_kept hpt hrec he (by rw [Tx.commit, hst, hset]; rfl) fun _ => id
    | some s =>
      rw [hset] at hst ha hr
      exact confirms_open he (fun h => ha (congrArg some (hst.symm.trans h)))
        fun h => hr (congrArg some (hst.symm.trans h))

private theorem log_confirms {tenantId : Uuid} {row : AuditRow} {res : Except Failure Unit}
    (heff : Effect d v (.tx (.writeAuditLog tenantId row)) answer res w) (hpt : pt.unconfirmed d = false)
    (hev : row.event ≠ .reprocessed) : Confirms d pt pt' v.record w.record := by
  rcases heff.commit_cases (by rintro _ ⟨⟩) with he | ⟨now, rec, hrec, he⟩
  · exact confirms_same hpt he
  · exact confirms_kept hpt hrec he rfl (kept_log hev)

private theorem ocr_confirms {o : OcrPoint} (hall : (Point.ocr job o).allows cmd)
    (heff : Effect d v cmd answer r w) : Confirms d (.ocr job o) pt' v.record w.record := by
  cases hall
  cases o with
  | read => exact quiet_confirms rfl heff (by rintro _ ⟨⟩; exact ⟨nofun, nofun⟩)
  | download row | recognise row buffer | enqueue row => exact quiet_confirms rfl heff (by rintro _ ⟨⟩)
  | claim row | save row x | recover => exact update_confirms heff rfl nofun nofun
  | report row x => exact log_confirms heff rfl nofun

private theorem upload_confirms {p : Upload} {id : Uuid} {u : UploadPoint} (hall : (Point.upload p id u).allows cmd)
    (heff : Effect d v cmd answer r w) : Confirms d (.upload p id u) pt' v.record w.record := by
  cases hall
  cases u with
  | insert =>
    rcases heff.record with he | ⟨t, now, ht, -, he, -⟩
    · exact confirms_same rfl he
    · cases ht
      cases hrec : v.record with
      | none =>
        rw [hrec] at he
        by_cases hd : id = d
        · exact confirms_open (he.trans (if_pos hd)) nofun nofun
        · exact confirms_same rfl (he.trans (if_neg hd))
      | some rec =>
        rw [hrec] at he
        rcases Tx.after_cases (d := d) (.insertDocument p id) now rec with hs | ⟨hd, -⟩
        · exact confirms_same rfl (he.trans hs)
        · cases hd
  | store | enqueue => exact quiet_confirms rfl heff (by rintro _ ⟨⟩)
  | key storageKey | recover => exact update_confirms heff rfl nofun nofun
  | announce => exact log_confirms heff rfl nofun

private theorem extraction_confirms (ho : Orderly d v) (hi : v.positions i = some pos) {e : ExtractionPoint}
    (hpt : pos.point = .extraction job e) (hd : job.documentId = d) (hall : (Point.extraction job e).allows cmd)
    (heff : Effect d v cmd answer r w)
    (hab : ∀ err err', e = .recover err → answer = .throws err' → ∀ rec, v.record = some rec →
      rec.row.status = .approved → rec.Shows [.approved, .autoApproved])
    (hrej : ∀ rec, v.record = some rec → rec.row.status = .rejected → rec.Shows [.rejected]) :
    Confirms d (.extraction job e) ((Point.extraction job e).next cmd r) v.record w.record := by
  have hown := extraction_owned ho hi hpt hd
  subst hd
  have hconf : ∀ e', (Point.extraction job e').unconfirmed job.documentId = e'.unconfirmed := fun e' => by
    simp [Point.unconfirmed]
  cases hall
  cases e with
  | read | findTenant rawText => exact quiet_confirms (Bool.and_false _) heff (by rintro _ ⟨⟩; exact ⟨nofun, nofun⟩)
  | classify rawText tenant | extract rawText tenant | notify x =>
    exact quiet_confirms (Bool.and_false _) heff (by rintro _ ⟨⟩)
  | refuse status | claim rawText tenant | park x | setType rawText tenant docType =>
    exact update_confirms heff (Bool.and_false _) nofun nofun
  | reportRefusal status | reportParked x | reportFailure err =>
    exact log_confirms heff (Bool.and_false _) nofun
  | insert tenant x =>
    rcases heff.insertExtraction rfl hown with ⟨e, -, -, rfl⟩ | ⟨rec, -, -, hrec, hw⟩
    · exact confirms_same (Bool.and_false _) rfl
    · exact confirms_kept (Bool.and_false _) hrec hw rfl fun _ => id
  | decide tenant x =>
    rcases heff.update hown with ⟨e, -, -, rfl⟩ | ⟨rec, -, rfl, hrec, hw⟩
    · exact confirms_same (Bool.and_false _) rfl
    · have hst : (rec.set { status := some (decided tenant x) }).row.status = decided tenant x := rfl
      rcases concludeRow_event job tenant x with ⟨hdec, -⟩ | ⟨hdec, -⟩
      · refine confirms_pending ((hconf (.report tenant x)).trans (by simp [ExtractionPoint.unconfirmed, hdec])) ?_
        rintro r' hr' hs
        obtain rfl := Option.some.inj (hw.symm.trans hr')
        cases hdec.symm.trans (hst.symm.trans hs)
      · exact confirms_open hw (by rw [hst, hdec]; nofun) (by rw [hst, hdec]; nofun)
  | report tenant x =>
    rcases concludeRow_event job tenant x with ⟨hdec, -⟩ | ⟨hdec, -⟩
    · rcases heff.log rfl rfl hown with ⟨e, -, rfl, rfl⟩ | ⟨now, rec, -, rfl, hrec, hw⟩
      · exact confirms_pending (hconf (.recover e)) hrej
      · refine confirms_pending ((hconf (.conclude tenant x)).trans (by simp [ExtractionPoint.unconfirmed, hdec]))
          fun r' hr' hs => ?_
        obtain rfl := Option.some.inj (hw.symm.trans hr')
        exact kept_log (by rintro ⟨⟩) _ (hrej rec hrec hs)
    · exact log_confirms heff ((hconf (.report tenant x)).trans (by simp [ExtractionPoint.unconfirmed, hdec])) nofun
  | conclude tenant x =>
    have hd := concludeRow_documentId job tenant x
    have ha := concludeRow_actorId job tenant x
    rcases concludeRow_event job tenant x with ⟨hdec, hev⟩ | ⟨hdec, hev⟩
    · have hne : (concludeRow job tenant x).event ≠ .reprocessed := by rw [hev]; nofun
      rcases heff.log hd ha hown with ⟨e, -, rfl, rfl⟩ | ⟨now, rec, -, rfl, hrec, hw⟩
      · exact confirms_pending (hconf (.recover e)) hrej
      · intro r' hr'
        obtain rfl := Option.some.inj (hw.symm.trans hr')
        exact ⟨fun _ => .inl ((Record.shows_log hne).2 (.inl (by simp [hev]))),
          fun hs => .inl (kept_log hne _ (hrej rec hrec hs))⟩
    · exact log_confirms heff ((hconf (.conclude tenant x)).trans (by simp [ExtractionPoint.unconfirmed, hdec]))
        (by rw [hev]; nofun)
  | recover err =>
    rcases heff.update hown with ⟨e, he, -, rfl⟩ | ⟨rec, -, rfl, hrec, hw⟩
    · exact fun r' hr' => ⟨fun hs => .inl (hab err e rfl he r' hr' hs), fun hs => .inl (hrej r' hr' hs)⟩
    · exact confirms_open hw nofun nofun

private theorem review_confirms {owner : Owner} {t : Tx} {res : Except Failure t.Result}
    (hp : v.placed d owner (.review t)) (heff : Effect d v (.tx t) answer res w) :
    Confirms d (.review t) pt' v.record w.record := by
  obtain ⟨call, -, hc⟩ := hp
  rcases heff.commit_cases (by rintro p rfl; cases call <;> cases hc) with he | ⟨now, rec, hrec, he⟩
  · exact confirms_same rfl he
  · cases call with
    | approve tid d' actorId =>
      cases hc
      rintro r' hr'
      obtain rfl := Option.some.inj (he.symm.trans hr')
      exact ⟨fun _ => .inl ((Record.shows_log (by rintro ⟨⟩)).2 (.inl (by simp [Tx.decisionRow]))), by rintro ⟨⟩⟩
    | reject tid d' actorId reason =>
      cases hc
      rintro r' hr'
      obtain rfl := Option.some.inj (he.symm.trans hr')
      exact ⟨by rintro ⟨⟩, fun _ => .inl ((Record.shows_log (by rintro ⟨⟩)).2 (.inl (by simp [Tx.decisionRow])))⟩
    | edit tid d' actorId changes =>
      cases hc
      exact confirms_kept rfl hrec he rfl (kept_log (by rintro ⟨⟩))
    | _ => cases hc

private theorem step_confirms (ho : Orderly d v) (he : Evident d v) (hi : v.positions i = some pos)
    (hall : pos.point.allows cmd) (heff : Effect d v cmd answer r w)
    (hab : ∀ job err err', pos.point = .extraction job (.recover err) → job.documentId = d → answer = .throws err' →
      ∀ rec, v.record = some rec → rec.row.status = .approved → rec.Shows [.approved, .autoApproved]) :
    Confirms d pos.point (pos.point.next cmd r) v.record w.record := by
  have hp := ho.points i pos hi
  obtain ⟨owner, pt⟩ := pos
  cases pt with
  | aside =>
    cases cmd with
    | tx t =>
      cases t with
      | writeAuditLog tid row => exact log_confirms heff rfl (by rcases hall.1 with h | h <;> rw [h] <;> nofun)
      | insertDocument _ _ => cases hall
      | _ =>
        refine quiet_confirms rfl heff ?_
        rintro _ ⟨⟩
        exact ⟨fun h => (by cases (show Tx.documentId _ = none from hall).symm.trans h), by rintro _ ⟨⟩⟩
    | _ => exact quiet_confirms rfl heff (by rintro _ ⟨⟩)
  | lost => cases hall
  | upload p id u => exact upload_confirms hall heff
  | review t => cases hall; exact review_confirms hp heff
  | reset tid d' actorId run =>
    cases hall
    rcases heff.commit_cases (by rintro _ ⟨⟩) with he | ⟨now, rec, -, he⟩
    · exact confirms_same rfl he
    · exact confirms_open he nofun nofun
  | reopen tid d' run => cases hall; exact quiet_confirms rfl heff (by rintro _ ⟨⟩)
  | ocr job o => exact ocr_confirms hall heff
  | extraction job e =>
    by_cases hd : job.documentId = d
    · exact extraction_confirms ho hi rfl hd hall heff (fun err err' h => hab job err err' (by rw [h]) hd) he.rejected
    · exact confirms_same (by simp [Point.unconfirmed, hd]) (foreign_quiet (show (Point.extraction job e).Foreign d from hd) hall heff)

end Strides

private theorem unconfirmed_point {pt : Point} (h : pt.unconfirmed d) :
    ∃ job e, pt = .extraction job e ∧ job.documentId = d ∧ e.unconfirmed := by
  cases pt with
  | extraction job e =>
    simp only [Point.unconfirmed, Bool.and_eq_true, beq_iff_eq] at h
    exact ⟨job, e, rfl, h.1, h.2⟩
  | _ => cases h

theorem evident_step (hr : c.Regular) (he : Evident d (c.view d)) (h : step c a = some c') (hab : ¬ Abandons d c a) :
    Evident d (c'.view d) := by
  have hm := step_move d hr.valid h
  by_cases hown : ∃ i answer, a = .step i answer
  · obtain ⟨i, answer, rfl⟩ := hown
    obtain ⟨p, -, -, -, -, hp, -⟩ := step_inv h
    have hpos : (c.view d).positions i = some p.position := Config.view_position hp
    obtain ⟨cmd, k, res, w, -, hall, heff, hw⟩ := step_effect (d := d) hr h hp
    have hi : (c'.view d).positions i = some ⟨p.owner, p.point.next cmd res⟩ := by rw [hw, View.place_self]
    have hc : Confirms d p.point (p.point.next cmd res) (c.view d).record (c'.view d).record := by
      rw [hw, View.place_record]
      refine step_confirms (hr.standing d).orderly he hpos hall heff ?_
      rintro job err err' hpt hd rfl rec hrec hst
      by_contra hno
      exact hab ⟨i, p, job, _, hp, hpt, hd, rfl, .inr ⟨⟨err, rfl⟩, err', rfl⟩, rec, hrec, hst, hno⟩
    refine ⟨fun r' hr' hs => ?_, fun r' hr' hs => ?_⟩
    · rcases (hc r' hr').1 hs with hsh | hpt' | ⟨hpt, r, hrec, hst, hk⟩
      · exact .inl hsh
      · exact .inr ⟨i, _, hi, hpt'⟩
      · rcases he.approved r hrec hst with hsh | ⟨j, pos, hj, hu⟩
        · exact .inl (hk hsh)
        · rcases (hr.standing d).known.kept hm hj with hj' | ⟨answer', ha⟩ | ⟨ha, -⟩ | ha
          · exact .inr ⟨j, pos, hj', hu⟩
          · cases ha
            obtain rfl := Option.some.inj (hpos.symm.trans hj)
            cases hpt.symm.trans hu
          · cases ha
          · cases ha
    · rcases (hc r' hr').2 hs with hsh | ⟨r, hrec, hst, hk⟩
      · exact hsh
      · exact hk (he.rejected r hrec hst)
  · have hrec : (c'.view d).record = (c.view d).record :=
      hm.record_change.resolve_right fun ⟨i, _, _, _, ha, _⟩ => hown ⟨i, _, ha⟩
    refine ⟨fun r hr' hs => ?_, fun r hr' hs => he.rejected r (hrec ▸ hr') hs⟩
    rw [hrec] at hr'
    by_cases hsh : r.Shows [.approved, .autoApproved]
    · exact .inl hsh
    · obtain ⟨j, pos, hj, hu⟩ := (he.approved r hr' hs).resolve_left hsh
      rcases (hr.standing d).known.kept hm hj with hj' | ⟨answer, ha⟩ | ⟨-, hend⟩ | rfl
      · exact .inr ⟨j, pos, hj', hu⟩
      · exact absurd ⟨j, answer, ha⟩ hown
      · rcases hend with hpt | hpt <;> rw [hpt] at hu <;> cases hu
      · obtain ⟨p, hp, rfl⟩ := Option.map_eq_some_iff.1 hj
        obtain ⟨job, e, hpt, hd, hu⟩ := unconfirmed_point hu
        exact absurd ⟨j, p, job, e, hp, hpt, hd, hu, .inl rfl, r, hr', hs, hsh⟩ hab

private theorem idle_attested (hr : c.Regular) (he : Evident d (c.view d)) : AttestedWhenIdle d c := by
  refine fun hidle r hrec => ⟨fun hs => ?_, he.rejected r hrec⟩
  refine (he.approved r hrec hs).resolve_right ?_
  rintro ⟨i, pos, hi, hu⟩
  obtain ⟨p, hp, rfl⟩ := Option.map_eq_some_iff.1 hi
  obtain ⟨job, e, hpt, hd, -⟩ := unconfirmed_point hu
  have hplaced := (hr.standing d).orderly.points i _ hi
  rw [hpt] at hplaced
  exact hidle i p _ job hp hplaced hd

/-- In every run in which no extraction execution stops, and no catch block fails, while
the document is approved without evidence, decisions are attested whenever no execution
is in progress. -/
theorem decisions_attested (tenants : List TenantRow) (users : List UserRow) (d : Uuid) (actions : List Action)
    (h : Along step (fun c a _ => ¬ Abandons d c a) (initial tenants users) actions) :
    Along step (fun _ _ c' => AttestedWhenIdle d c') (initial tenants users) actions := by
  refine along_of_invariant (I := fun c => c.Regular ∧ Evident d (c.view d)) ?_ ?_
    ⟨initial_regular tenants users, ⟨by rintro _ ⟨⟩, by rintro _ ⟨⟩⟩⟩ h
  · exact fun c a c' hi hc hs => ⟨step_regular c a c' hi.1 hs, evident_step hi.1 hi.2 hs hc⟩
  · exact fun c a c' hi hc hs => idle_attested (step_regular c a c' hi.1 hs) (evident_step hi.1 hi.2 hs hc)

/-- No process crashes and no command throws. -/
private def smooth : Action → Bool
  | .crash _ | .step _ (.throws _) => false
  | _ => true

private theorem smooth_sound (h : smooth a = true) : ¬ Abandons d c a := by
  rintro ⟨i, -, -, -, -, -, -, -, rfl | ⟨-, err, rfl⟩, -⟩ <;> cases h

private def reviewed : List Action :=
  demoUpload ++ demoOcr .initial 20 "text" ++ [.finish 20] ++ demoExtraction .initial 30 (demoResult 10 (1 / 2)) ++
    [.step 30 .execute, .step 30 .execute, .finish 30, .call 40 (.reject 1 3 2 "wrong total"), .step 40 .execute,
      .finish 40]

theorem decisions_attested_reviewed : Along step (fun _ _ c' => AttestedWhenIdle 3 c') demo reviewed :=
  decisions_attested _ _ 3 _ (along_mono (fun _ _ _ => smooth_sound)
    (by decide +kernel : Along step (fun _ a _ => smooth a = true) demo reviewed))

private def approving : List Action :=
  demoUpload ++ demoOcr .initial 20 "text" ++ [.finish 20] ++ demoExtraction .initial 30 (demoResult 10 (99 / 100))

/-- A worker that stops right after its `approved` write leaves an approval without evidence. -/
theorem approval_unattested : ¬ ∀ (tenants : List TenantRow) (users : List UserRow) (d : Uuid)
    (actions : List Action), Along step (fun _ _ c' => AttestedWhenIdle d c') (initial tenants users) actions := by
  intro h
  have hend : (run step demo (approving ++ [.crash 30])).map (fun c =>
      (c.issued.all fun i => (c.procs i).isNone, (c.world.db.record 3).map fun r =>
        (r.row.status, decide (r.Shows [.approved, .autoApproved])))) =
      some (true, some (.approved, false)) := by decide +kernel
  obtain ⟨c', hrun, hend⟩ := Option.map_eq_some_iff.1 hend
  obtain ⟨hnone, hrec⟩ := Prod.mk.inj hend
  obtain ⟨r, hr, ht⟩ := Option.map_eq_some_iff.1 hrec
  obtain ⟨hs, hsh⟩ := Prod.mk.inj ht
  obtain ⟨c, hc, hstep⟩ := run_snoc_some hrun
  have hidle : Idle 3 c' := fun i p jobId job hp _ => by
    cases ((run_regular (initial_regular _ _) hrun).deserted hnone i).symm.trans hp
  exact of_decide_eq_false hsh ((along_last (h _ _ 3 _) hc hstep hidle r hr).1 hs)

end
end Pipeline
end DocAuto
