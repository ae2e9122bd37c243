import DocAuto.Pipeline.Writes

/-! Replay: when the newest status in the audit trail of a document is its status. -/
namespace DocAuto
open Process Database

namespace Record

/-- The status the audit trail ends with. -/
def replayed (r : Record) : Option DocumentStatus := (r.audit.filterMap (·.newStatus)).getLast?

@[simp] theorem replayed_set (r : Record) (set : DocumentsSet) : (r.set set).replayed = r.replayed := rfl

theorem replayed_log (r : Record) (now : Timestamp) (row : AuditRow) :
    (r.log now row).replayed = row.newStatus.or r.replayed := by
  simp only [replayed, log, List.filterMap_append]
  cases row.newStatus <;> simp

@[simp] theorem status_log (r : Record) (now : Timestamp) (row : AuditRow) :
    (r.log now row).row.status = r.row.status := rfl

@[simp] theorem status_set (r : Record) (set : DocumentsSet) :
    (r.set set).row.status = set.status.getD r.row.status := rfl

/-- The trail of a document, when there is one, ends with its status. -/
def Consistent (rec : Option Record) : Prop := ∀ r, rec = some r → r.replayed = some r.row.status

def trail (r : Record) : DocumentStatus × Option DocumentStatus := (r.row.status, r.replayed)

theorem consistent_congr {rec rec' : Option Record} (h : rec'.map trail = rec.map trail) (hc : Consistent rec) :
    Consistent rec' := by
  rintro r rfl
  obtain ⟨r₀, hr₀, he⟩ := Option.map_eq_some_iff.1 h.symm
  obtain ⟨hs, hp⟩ := Prod.mk.inj he
  rw [← hs, ← hp]
  exact hc r₀ hr₀

end Record

namespace Pipeline

/-- What a process still has to tell the audit trail: nothing, something not yet
determined, or rows for the status `s` it has written. -/
inductive Dues where
  | settled
  | unsettled
  | due (s : DocumentStatus)
  deriving DecidableEq, Repr

def UploadPoint.dues : UploadPoint → Dues
  | .insert | .enqueue => .settled
  | .store | .key _ | .recover => .unsettled
  | .announce => .due .uploaded

def OcrPoint.dues : OcrPoint → Dues
  | .read | .claim _ | .enqueue _ => .settled
  | .download _ | .recognise _ _ | .save _ _ | .recover => .unsettled
  | .report _ _ => .due .extracted

def ExtractionPoint.dues : ExtractionPoint → Dues
  | .read | .refuse _ | .findTenant _ | .claim _ _ | .notify _ => .settled
  | .classify _ _ | .park _ | .setType _ _ _ | .extract _ _ | .insert _ _ | .decide _ _ | .recover _ => .unsettled
  | .reportRefusal _ | .reportFailure _ => .due .failed
  | .reportParked _ => .due .pendingReview
  | .report tenant r | .conclude tenant r => .due (decided tenant r)

/-- What a process at the point has still to tell the trail of `d`. -/
def Point.dues (d : Uuid) : Point → Dues
  | .upload _ id u => if id = d then u.dues else .settled
  | .ocr job o => if job.documentId = d then o.dues else .settled
  | .extraction job e => if job.documentId = d then e.dues else .settled
  | _ => .settled

/-- No call and no execution for `d` is in progress. -/
def Quiet (d : Uuid) (c : Config) : Prop := ∀ i p, c.procs i = some p → p.owner.documentId ≠ some d

def ReplaysWhenQuiet (d : Uuid) (c : Config) : Prop := Quiet d c → Record.Consistent (c.world.db.record d)

/-- No process of `d` crashes and no write to `d` is made to fail. -/
def Sturdy (d : Uuid) (c : Config) (a : Action) : Prop :=
  (∀ i p, a = .crash i → c.procs i = some p → p.owner.documentId ≠ some d) ∧
    ∀ i e p t k, a = .step i (.throws e) → c.procs i = some p → p.program = .call (.tx t) k →
      t.documentId ≠ some d

/-- The catch block of the upload or of the OCR processor writes `failed`, which the
trail does not say. -/
def FailsSilently (d : Uuid) (c : Config) (a : Action) : Prop :=
  ∃ i p, a = .step i .execute ∧ c.procs i = some p ∧
    ((∃ u, p.point = .upload u d .recover) ∨ ∃ job, p.point = .ocr job .recover ∧ job.documentId = d) ∧
    (c.world.db.record d).bind Record.replayed ≠ some .failed

/-- The status is changed by another process between the status write of one process
and its last audit row. -/
def Interferes (d : Uuid) (c : Config) (a : Action) (c' : Config) : Prop :=
  ∃ i p s, c.procs i = some p ∧ p.point.dues d = .due s ∧ (∀ answer, a ≠ .step i answer) ∧
    c.status d = some s ∧ c'.status d ≠ some s

/-- Rows that are due report the present status, and the trail ends with it unless
somebody still has to write. -/
structure Reported (d : Uuid) (v : View) : Prop where
  due : ∀ i pos s, v.positions i = some pos → pos.point.dues d = .due s → v.record.map (·.row.status) = some s
  trail : (∃ i pos, v.positions i = some pos ∧ pos.point.dues d ≠ .settled) ∨ Record.Consistent v.record

section
variable {c c' : Config} {d : Uuid} {a : Action} {v w : View}

/-- What a step of a process must do for the trail: rows it leaves due report the status,
and when nothing is left to write the trail is right, or as it was. -/
private def Reports (d : Uuid) (pt pt' : Point) (rec rec' : Option Record) : Prop :=
  (∀ s, pt'.dues d = .due s → rec'.map (·.row.status) = some s) ∧
    (pt'.dues d ≠ .settled ∨ Record.Consistent rec' ∨
      pt.dues d = .settled ∧ rec'.map Record.trail = rec.map Record.trail)

private theorem reports_unsettled {pt pt' : Point} {rec rec' : Option Record} (h : pt'.dues d = .unsettled) :
    Reports d pt pt' rec rec' := ⟨fun s hs => by simp [h] at hs, .inl (by simp [h])⟩

private theorem reports_idle {pt pt' : Point} {rec rec' : Option Record} (hp : pt.dues d = .settled)
    (hp' : pt'.dues d = .settled) (h : rec'.map Record.trail = rec.map Record.trail) : Reports d pt pt' rec rec' :=
  ⟨fun s hs => by simp [hp'] at hs, .inr (.inr ⟨hp, h⟩)⟩

private theorem reports_due {pt pt' : Point} {rec rec' : Option Record} {s : DocumentStatus}
    (hp' : pt'.dues d = .due s) (h : rec'.map (·.row.status) = some s) : Reports d pt pt' rec rec' :=
  ⟨fun s' hs => by rw [hp'] at hs; cases hs; exact h, .inl (by simp [hp'])⟩

private theorem reports_done {pt pt' : Point} {rec rec' : Option Record} (hp' : pt'.dues d = .settled)
    (h : Record.Consistent rec') : Reports d pt pt' rec rec' :=
  ⟨fun s hs => by simp [hp'] at hs, .inr (.inl h)⟩

private theorem consistent_log {r : Record} {now : Timestamp} {row : AuditRow}
    (h : row.newStatus = some r.row.status) : Record.Consistent (some (r.log now row)) := by
  rintro _ ⟨⟩
  rw [Record.replayed_log, h]
  rfl

section Strides
variable {i : ProcId} {pos : Position} {job : JobData} {cmd : Cmd} {answer : Answer} {r : Except Failure cmd.Resp}

private theorem dues_upload (p : Upload) (u : UploadPoint) : (Point.upload p d u).dues d = u.dues := if_pos rfl

private theorem dues_ocr (hd : job.documentId = d) (o : OcrPoint) : (Point.ocr job o).dues d = o.dues := if_pos hd

private theorem dues_extraction (hd : job.documentId = d) (e : ExtractionPoint) :
    (Point.extraction job e).dues d = e.dues := if_pos hd

private theorem ocr_reports (hr : Reported d v) (ho : Orderly d v) (hi : v.positions i = some pos) {o : OcrPoint}
    (hpt : pos.point = .ocr job o) (hd : job.documentId = d) (hall : (Point.ocr job o).allows cmd)
    (heff : Effect d v cmd answer r w)
    (hsturdy : ∀ e t, answer = .throws e → cmd = .tx t → t.documentId ≠ some d)
    (hsilent : answer = .execute → o = .recover → v.record.bind Record.replayed = some .failed) :
    Reports d (.ocr job o) ((Point.ocr job o).next cmd r) v.record w.record := by
  have hown := ocr_owned ho hi hpt hd
  have hnow := hr.due i pos
  rw [hpt] at hnow
  cases hall
  cases o with
  | read =>
    have hrec := heff.quiet (d := d) (by rintro _ ⟨⟩; exact ⟨nofun, nofun⟩)
    rcases r with e | _ | row <;> refine reports_idle (dues_ocr hd _) ?_ (by rw [hrec])
    · rfl
    · rfl
    · exact dues_ocr hd _
  | claim row =>
    subst hd
    rcases heff.update hown with ⟨e, he, -⟩ | ⟨rec, -, rfl, -⟩
    · exact absurd rfl (hsturdy e _ he rfl)
    · exact reports_unsettled (dues_ocr rfl _)
  | download row =>
    rcases r with e | b <;> exact reports_unsettled (dues_ocr hd _)
  | recognise row buffer =>
    rcases r with e | b <;> exact reports_unsettled (dues_ocr hd _)
  | save row x =>
    subst hd
    rcases heff.update hown with ⟨e, he, -⟩ | ⟨rec, -, rfl, -, hw⟩
    · exact absurd rfl (hsturdy e _ he rfl)
    · exact reports_due (dues_ocr rfl _) (by rw [hw]; rfl)
  | report row x =>
    subst hd
    rcases heff.log rfl rfl hown with ⟨e, he, -⟩ | ⟨now, rec, -, rfl, hrec, hw⟩
    · exact absurd rfl (hsturdy e _ he rfl)
    · have hst := hnow _ hi (dues_ocr rfl _)
      rw [hrec, Option.map_some, Option.some.injEq] at hst
      exact reports_done (dues_ocr rfl _) (by rw [hw]; exact consistent_log (congrArg some hst.symm))
  | enqueue row =>
    have hrec := heff.quiet (d := d) (by rintro _ ⟨⟩)
    rcases r with e | u
    · exact reports_unsettled (dues_ocr hd _)
    · exact reports_idle (dues_ocr hd _) rfl (by rw [hrec])
  | recover =>
    subst hd
    rcases heff.update hown with ⟨e, he, -⟩ | ⟨rec, ha, rfl, hrec, hw⟩
    · exact absurd rfl (hsturdy e _ he rfl)
    · refine reports_done rfl ?_
      have hf := hsilent ha rfl
      rw [hrec] at hf
      rw [hw]
      rintro _ ⟨⟩
      exact hf

private theorem log_reports {pt' : Point} {tenantId : Uuid} {row : AuditRow} {s : DocumentStatus}
    {res : Except Failure Unit} (heff : Effect d v (.tx (.writeAuditLog tenantId row)) answer res w)
    (hown : v.owned tenantId) (hd : row.documentId = d) (ha : row.actorId = none) (hrow : row.newStatus = some s)
    (hst : v.record.map (·.row.status) = some s) (hsturdy : ∀ e, answer ≠ .throws e)
    (hp' : ∀ u, res = .ok u → pt'.dues d = .settled ∨ pt'.dues d = .due s) {pt : Point} :
    Reports d pt pt' v.record w.record := by
  rcases heff.log hd ha hown with ⟨e, he, -⟩ | ⟨now, rec, -, hres, hrec, hw⟩
  · exact absurd he (hsturdy e)
  · rw [hrec, Option.map_some, Option.some.injEq] at hst
    rcases hp' () hres with hp' | hp'
    · exact reports_done hp' (by rw [hw]; exact consistent_log (hrow.trans (congrArg some hst.symm)))
    · exact reports_due hp' (by rw [hw]; exact congrArg some hst)

private theorem extraction_reports (hr : Reported d v) (ho : Orderly d v) (hi : v.positions i = some pos)
    {e : ExtractionPoint} (hpt : pos.point = .extraction job e) (hd : job.documentId = d)
    (hall : (Point.extraction job e).allows cmd) (heff : Effect d v cmd answer r w)
    (hsturdy : ∀ e t, answer = .throws e → cmd = .tx t → t.documentId ≠ some d) :
    Reports d (.extraction job e) ((Point.extraction job e).next cmd r) v.record w.record := by
  have hown := extraction_owned ho hi hpt hd
  have hnow := hr.due i pos
  rw [hpt] at hnow
  subst hd
  cases hall
  cases e with
  | read =>
    have hrec := heff.quiet (d := job.documentId) (by rintro _ ⟨⟩; exact ⟨nofun, nofun⟩)
    refine reports_idle (dues_extraction rfl _) ?_ (by rw [hrec])
    rcases r with e | _ | ⟨row, extraction⟩
    · rfl
    · rfl
    · rcases Point.next_found job row extraction with ⟨he, -⟩ | ⟨status, he⟩ | ⟨rawText, he⟩ <;> rw [he]
      · rfl
      · exact dues_extraction rfl _
      · exact dues_extraction rfl _
  | findTenant rawText =>
    have hrec := heff.quiet (d := job.documentId) (by rintro _ ⟨⟩; exact ⟨nofun, nofun⟩)
    rcases r with e | tenant <;> refine reports_idle (dues_extraction rfl _) ?_ (by rw [hrec])
    · rfl
    · exact dues_extraction rfl _
  | notify x =>
    have hrec := heff.quiet (d := job.documentId) (by rintro _ ⟨⟩)
    rcases r with e | u
    · exact reports_unsettled (dues_extraction rfl _)
    · exact reports_idle (dues_extraction rfl _) rfl (by rw [hrec])
  | classify rawText tenant =>
    rcases r with e | x
    · exact reports_unsettled (dues_extraction rfl _)
    · rcases Point.next_classified job tenant rawText x with he | he <;> rw [he] <;>
        exact reports_unsettled (dues_extraction rfl _)
  | extract rawText tenant =>
    rcases r with e | x <;> exact reports_unsettled (dues_extraction rfl _)
  | claim rawText tenant =>
    rcases heff.update hown with ⟨e, he, -⟩ | ⟨rec, -, rfl, -⟩
    · exact absurd rfl (hsturdy e _ he rfl)
    · exact reports_unsettled (dues_extraction rfl _)
  | setType rawText tenant docType | insert tenant x =>
    rcases r with e | u <;> exact reports_unsettled (dues_extraction rfl _)
  | refuse status | park x | decide tenant x | recover err =>
    rcases heff.update hown with ⟨e, he, -⟩ | ⟨rec, -, rfl, -, hw⟩
    · exact absurd rfl (hsturdy e _ he rfl)
    · exact reports_due (dues_extraction rfl _) (by rw [hw]; rfl)
  | reportRefusal status | reportFailure err =>
    refine log_reports heff hown rfl rfl rfl (hnow _ hi (dues_extraction rfl _))
      (fun e he => hsturdy e _ he rfl rfl) fun u hu => .inl ?_
    rw [hu]
    rfl
  | reportParked x =>
    refine log_reports heff hown rfl rfl rfl (hnow _ hi (dues_extraction rfl _))
      (fun e he => hsturdy e _ he rfl rfl) fun u hu => .inl ?_
    rw [hu]
    rfl
  | report tenant x =>
    refine log_reports heff hown rfl rfl rfl (hnow _ hi (dues_extraction rfl _))
      (fun e he => hsturdy e _ he rfl rfl) fun u hu => .inr ?_
    rw [hu]
    exact dues_extraction rfl _
  | conclude tenant x =>
    refine log_reports heff hown (concludeRow_documentId job tenant x) (concludeRow_actorId job tenant x)
      (concludeRow_newStatus job tenant x) (hnow _ hi (dues_extraction rfl _))
      (fun e he => hsturdy e _ he rfl (congrArg some (concludeRow_documentId job tenant x))) fun u hu => .inl ?_
    rw [hu]
    rcases Point.next_concluded job tenant x u with he | he
    · exact congrArg (Point.dues job.documentId) he
    · exact (congrArg (Point.dues job.documentId) he).trans (dues_extraction rfl (.notify x))

private theorem upload_reports (hs : Standing d v) (hi : v.positions i = some pos) {p : Upload} {u : UploadPoint}
    (hpt : pos.point = .upload p d u) (hall : (Point.upload p d u).allows cmd) (heff : Effect d v cmd answer r w)
    (hsturdy : ∀ e t, answer = .throws e → cmd = .tx t → t.documentId ≠ some d)
    (hsilent : answer = .execute → u = .recover → v.record.bind Record.replayed = some .failed) :
    Reports d (.upload p d u) ((Point.upload p d u).next cmd r) v.record w.record := by
  obtain ⟨-, -, hrow⟩ := hs.born.upload i pos p u hi hpt
  have hown : u ≠ .insert → v.owned p.tenantId := fun hu => by
    have hp := hs.orderly.points i pos hi
    rw [hpt] at hp
    exact hp.2 rfl hu
  cases hall
  cases u with
  | insert =>
    rcases r with e | _ | row
    · exact reports_idle (dues_upload p _) rfl (by rw [heff.refused.1])
    · obtain ⟨-, -, -, -, row, he, -⟩ := heff.committed
      cases he
    · exact reports_unsettled (dues_upload p _)
  | store => rcases r with e | x <;> exact reports_unsettled (dues_upload p _)
  | key storageKey =>
    rcases heff.update (hown nofun) with ⟨e, he, -⟩ | ⟨rec, -, rfl, hrec, hw⟩
    · exact absurd rfl (hsturdy e _ he rfl)
    · obtain ⟨rec', hrec', hst⟩ := hrow nofun
      obtain rfl := Option.some.inj (hrec.symm.trans hrec')
      exact reports_due (dues_upload p _) (by rw [hw]; exact congrArg some hst)
  | announce =>
    rcases r with e | x
    · exact reports_unsettled (dues_upload p _)
    · obtain ⟨rec, hrec, hst⟩ := hrow nofun
      obtain ⟨-, now, rfl, had, -⟩ := heff.committed
      obtain ⟨rec', hrec', ht, -⟩ := had rfl
      obtain rfl := Option.some.inj (hrec.symm.trans hrec')
      refine reports_done (dues_upload p _) ?_
      show Record.Consistent ((Tx.writeAuditLog p.tenantId (uploadRow p d)).after now d v.record)
      rw [hrec, Tx.after_own (d := d) (t := .writeAuditLog p.tenantId (uploadRow p d)) rfl ht]
      exact consistent_log (congrArg some hst.symm)
  | enqueue =>
    have hrec := heff.quiet (d := d) (by rintro _ ⟨⟩)
    rcases r with e | x
    · exact reports_unsettled (dues_upload p _)
    · exact reports_idle (dues_upload p _) rfl (by rw [hrec])
  | recover =>
    rcases heff.update (hown nofun) with ⟨e, he, -⟩ | ⟨rec, ha, rfl, hrec, hw⟩
    · exact absurd rfl (hsturdy e _ he rfl)
    · refine reports_done rfl ?_
      have hf := hsilent ha rfl
      rw [hrec] at hf
      rw [hw]
      rintro _ ⟨⟩
      exact hf

/-- Audit rows without a status leave the trail as it is. -/
private theorem neutral_trail {pt' : Point} (hall : cmd.neutral) (heff : Effect d v cmd answer r w)
    (hp' : pt'.dues d = .settled) : Reports d .aside pt' v.record w.record := by
  refine reports_idle rfl hp' ?_
  cases cmd with
  | tx t =>
    cases t with
    | writeAuditLog tid row =>
      rcases heff.commit_cases (by rintro _ ⟨⟩) with he | ⟨now, rec, hrec, he⟩
      · rw [he]
      · have hn : row.newStatus = none := hall.2
        rw [he, hrec]
        show some (Record.trail (rec.log now row)) = some rec.trail
        simp [Record.trail, Record.replayed_log, hn]
    | insertDocument _ _ => cases hall
    | _ =>
      have hnone : Tx.documentId _ = none := hall
      rw [heff.quiet]
      rintro _ ⟨⟩
      refine ⟨?_, by rintro _ ⟨⟩⟩
      rw [hnone]
      rintro ⟨⟩
  | _ => rw [heff.quiet (by rintro _ ⟨⟩)]

private theorem review_consistent {t : Tx} {res : t.Result} (hd : t.documentId = some d)
    (ht : (∃ call, (Owner.api call).start = .review t) ∨ ∃ tid actorId, t = .reprocess tid d actorId)
    (heff : Effect d v (.tx t) answer (.ok res) w) : Record.Consistent w.record := by
  obtain ⟨-, now, rfl, had, -⟩ := heff.committed
  show Record.Consistent (t.after now d v.record)
  rcases ht with ⟨call, hc⟩ | ⟨tid, actorId, rfl⟩
  · cases call <;> cases hc
    all_goals
      obtain ⟨rec, hrec, htid, -⟩ := had hd
      rw [hrec, Tx.after_own hd htid]
      exact consistent_log rfl
  · obtain ⟨rec, hrec, htid, -⟩ := had rfl
    rw [hrec, Tx.after_own rfl htid]
    exact consistent_log rfl

theorem step_reports (hs : Standing d v) (hr : Reported d v) (hi : v.positions i = some pos)
    (hall : pos.point.allows cmd) (heff : Effect d v cmd answer r w)
    (hsturdy : ∀ e t, answer = .throws e → cmd = .tx t → t.documentId ≠ some d)
    (hsilent : answer = .execute → ((∃ u, pos.point = .upload u d .recover) ∨
      ∃ job, pos.point = .ocr job .recover ∧ job.documentId = d) → v.record.bind Record.replayed = some .failed) :
    Reports d pos.point (pos.point.next cmd r) v.record w.record := by
  have hp := hs.orderly.points i pos hi
  have foreign : pos.point.Foreign d → pos.point.dues d = .settled →
      Reports d pos.point (pos.point.next cmd r) v.record w.record := fun hf hd => by
    refine reports_idle hd ?_ (by rw [foreign_quiet hf hall heff])
    rcases foreign_next (r := r) hf hall with he | he | he
    · rw [he]; rfl
    · rw [he]; rfl
    · generalize pos.point.next cmd r = pt' at he
      cases pt' with
      | upload p id u => exact if_neg he
      | ocr job o => exact if_neg he
      | extraction job e => exact if_neg he
      | _ => rfl
  obtain ⟨owner, pt⟩ := pos
  cases pt with
  | aside => exact neutral_trail hall heff rfl
  | lost => cases hall
  | upload p id u =>
    by_cases hd : id = d
    · subst hd
      exact upload_reports hs hi rfl hall heff hsturdy fun ha hu => hsilent ha (.inl ⟨p, by rw [hu]⟩)
    · exact foreign hd (if_neg hd)
  | review t =>
    obtain ⟨call, -, hc⟩ := hp
    cases hall
    rcases r with e | res
    · exact reports_idle rfl rfl (by rw [heff.refused.1])
    · by_cases hd : t.documentId = some d
      · exact reports_done rfl (review_consistent hd (.inl ⟨call, hc⟩) heff)
      · have hrec := heff.quiet (d := d) (by rintro _ ⟨⟩; exact ⟨hd, by cases call <;> cases hc <;> rintro _ ⟨⟩⟩)
        exact reports_idle rfl rfl (by rw [hrec])
  | reset tid d' actorId run =>
    cases hall
    rcases r with e | res
    · exact reports_idle rfl rfl (by rw [heff.refused.1])
    · by_cases hd : d' = d
      · subst hd
        exact reports_done rfl (review_consistent rfl (.inr ⟨tid, actorId, rfl⟩) heff)
      · have hrec := heff.quiet (d := d) (by rintro _ ⟨⟩; exact ⟨fun h => hd (Option.some.inj h), nofun⟩)
        exact reports_idle rfl rfl (by rw [hrec])
  | reopen tid d' run =>
    cases hall
    have hrec := heff.quiet (d := d) (by rintro _ ⟨⟩)
    rcases r with e | u <;> exact reports_idle rfl rfl (by rw [hrec])
  | ocr job o =>
    by_cases hd : job.documentId = d
    · exact ocr_reports hr hs.orderly hi rfl hd hall heff hsturdy
        fun ha ho => hsilent ha (.inr ⟨job, by rw [ho], hd⟩)
    · exact foreign hd (if_neg hd)
  | extraction job e =>
    by_cases hd : job.documentId = d
    · exact extraction_reports hr hs.orderly hi rfl hd hall heff hsturdy
    · exact foreign hd (if_neg hd)

end Strides

private theorem dues_owner {owner : Owner} {pt : Point} (hp : v.placed d owner pt) (h : pt.dues d ≠ .settled) :
    owner.documentId = some d := by
  cases pt with
  | upload p id u =>
    have hd : id = d := by by_contra hne; exact h (if_neg hne)
    rw [hp.1, ← hd]; rfl
  | ocr job o =>
    have hd : job.documentId = d := by by_contra hne; exact h (if_neg hne)
    rw [hp.1, ← hd]; rfl
  | extraction job e =>
    have hd : job.documentId = d := by by_contra hne; exact h (if_neg hne)
    rw [show owner = _ from hp, ← hd]; rfl
  | _ => exact absurd rfl h

private theorem dues_start (owner : Owner) : owner.start.dues d = .settled := by
  cases owner with
  | api call => cases call <;> first | rfl | exact ite_self _
  | job jobId data => cases jobId <;> first | rfl | exact ite_self _

private theorem process_reports (hr : c.Regular) (hb : Reported d (c.view d)) {i : ProcId} {answer : Answer}
    (h : step c (.step i answer) = some c') (hst : Sturdy d c (.step i answer))
    (hsil : ¬ FailsSilently d c (.step i answer)) {p : Activity} (hp : c.procs i = some p) :
    ∃ pt', (c'.view d).positions i = some ⟨p.owner, pt'⟩ ∧
      Reports d p.point pt' (c.view d).record (c'.view d).record := by
  have hpos : (c.view d).positions i = some p.position := Config.view_position hp
  obtain ⟨cmd, k, r, w, hprog, hall, heff, hw⟩ := step_effect (d := d) hr h hp
  refine ⟨p.point.next cmd r, by rw [hw, View.place_self], ?_⟩
  rw [hw, View.place_record]
  refine step_reports (hr.standing d) hb hpos hall heff (fun e t he hc => ?_) fun he hpt => ?_
  · subst he hc
    exact hst.2 i e p t k rfl hp hprog
  · subst he
    by_contra hf
    exact hsil ⟨i, p, rfl, hp, hpt, hf⟩

theorem reported_step (hr : c.Regular) (hb : Reported d (c.view d)) (h : step c a = some c') (hst : Sturdy d c a)
    (hsil : ¬ FailsSilently d c a) (hint : ¬ Interferes d c a c') : Reported d (c'.view d) := by
  have hm := step_move d hr.valid h
  refine ⟨fun i pos s hi hdue => ?_, ?_⟩
  · rcases hm.position_origin hi with ⟨hold, hne⟩ | ⟨call, -, -, rfl⟩ | ⟨j, draw, job, -, -, -, rfl⟩ |
      ⟨old, answer, -, -, -, rfl, hold, -⟩
    · obtain ⟨p, hp, rfl⟩ := Option.map_eq_some_iff.1 hold
      by_contra hch
      rw [← status_eq] at hch
      exact hint ⟨i, p, s, hp, hdue, hne, (status_eq c d).trans (hb.due i _ s hold hdue), hch⟩
    · rw [dues_start] at hdue; cases hdue
    · rw [dues_start] at hdue; cases hdue
    · obtain ⟨p, hp, rfl⟩ := Option.map_eq_some_iff.1 hold
      obtain ⟨pt', hi', hrep, -⟩ := process_reports hr hb h hst hsil hp
      obtain rfl := Option.some.inj (hi'.symm.trans hi)
      exact hrep s hdue
  · by_cases hown : ∃ i answer, a = .step i answer
    · obtain ⟨i, answer, rfl⟩ := hown
      obtain ⟨p, -, -, -, -, hp, -⟩ := step_inv h
      obtain ⟨pt', hi', -, hl | hc | ⟨hl, ht⟩⟩ := process_reports hr hb h hst hsil hp
      · exact .inl ⟨i, _, hi', hl⟩
      · exact .inr hc
      · rcases hb.trail with ⟨j, pos, hj, hl'⟩ | hc
        · rcases (hr.standing d).known.kept hm hj with hk | ⟨answer', ha⟩ | ⟨ha, -⟩ | ha
          · exact .inl ⟨j, pos, hk, hl'⟩
          · cases ha
            obtain ⟨q, hq, rfl⟩ := Option.map_eq_some_iff.1 hj
            cases hp.symm.trans hq
            exact absurd hl hl'
          · cases ha
          · cases ha
        · exact .inr (Record.consistent_congr ht hc)
    · have hrec : (c'.view d).record = (c.view d).record :=
        hm.record_change.resolve_right fun ⟨i, _, _, _, ha, _⟩ => hown ⟨i, _, ha⟩
      rcases hb.trail with ⟨j, pos, hj, hl⟩ | hc
      · rcases (hr.standing d).known.kept hm hj with hk | ⟨answer, ha⟩ | ⟨-, hend⟩ | rfl
        · exact .inl ⟨j, pos, hk, hl⟩
        · exact absurd ⟨j, answer, ha⟩ hown
        · rcases hend with he | he <;> rw [he] at hl <;> exact absurd rfl hl
        · obtain ⟨q, hq, rfl⟩ := Option.map_eq_some_iff.1 hj
          exact absurd (dues_owner ((hr.standing d).orderly.points j _ hj) hl) (hst.1 j q rfl hq)
      · exact .inr (hrec ▸ hc)

private theorem quiet_replays (hr : c.Regular) (hb : Reported d (c.view d)) : ReplaysWhenQuiet d c := by
  intro hq
  rcases hb.trail with ⟨i, pos, hi, hl⟩ | hc
  · obtain ⟨p, hp, rfl⟩ := Option.map_eq_some_iff.1 hi
    exact absurd (dues_owner ((hr.standing d).orderly.points i _ hi) hl) (hq i p hp)
  · exact hc

/-- In every run in which no write fails and no process crashes, no catch block of the
upload or the OCR processor writes a status the trail does not say, and no process
changes a status that another one is reporting, the trail replays to the status. The runs
take each transaction in one step, so that no transaction overlaps another. -/
theorem trail_replays (tenants : List TenantRow) (users : List UserRow) (d : Uuid) (actions : List Action)
    (h : Along step (fun c a c' => Sturdy d c a ∧ ¬ FailsSilently d c a ∧ ¬ Interferes d c a c')
      (initial tenants users) actions) :
    Along step (fun _ _ c' => ReplaysWhenQuiet d c') (initial tenants users) actions := by
  refine along_of_invariant (I := fun c => c.Regular ∧ Reported d (c.view d)) ?_ ?_
    ⟨initial_regular tenants users, ⟨by rintro _ _ _ ⟨⟩, .inr (by rintro _ ⟨⟩)⟩⟩ h
  · exact fun c a c' hi hc hs =>
      ⟨step_regular c a c' hi.1 hs, reported_step hi.1 hi.2 hs hc.1 hc.2.1 hc.2.2⟩
  · exact fun c a c' hi hc hs =>
      quiet_replays (step_regular c a c' hi.1 hs) (reported_step hi.1 hi.2 hs hc.1 hc.2.1 hc.2.2)

/-- Nothing fails, and nobody else is there when a process executes a command. -/
private def undisturbedStep (c : Config) : Action → Bool
  | .step i .execute =>
    (c.procs i).all (fun p => match p.point with
      | .upload _ _ .recover | .ocr _ .recover => false
      | _ => true) &&
    c.issued.all fun j => j == i || (c.procs j).isNone
  | .step _ (.throws _) | .crash _ => false
  | _ => true

private theorem undisturbedStep_sound (hr : c.Regular) (hc : undisturbedStep c a = true) (h : step c a = some c') :
    Sturdy d c a ∧ ¬ FailsSilently d c a ∧ ¬ Interferes d c a c' := by
  refine ⟨⟨?_, ?_⟩, ?_, ?_⟩
  · rintro i p rfl
    cases hc
  · rintro i e p t k rfl
    cases hc
  · rintro ⟨i, p, rfl, hp, hpt, -⟩
    simp only [undisturbedStep, Bool.and_eq_true, hp, Option.all_some] at hc
    rcases hpt with ⟨u, hpt⟩ | ⟨job, hpt, -⟩ <;> rw [hpt] at hc <;> cases hc.1
  · rintro ⟨i, p, s, hp, -, hne, hs, hs'⟩
    rcases step_record (d := d) hr.valid h with he | ⟨j, -, -, -, -, rfl, -⟩
    · rw [status_eq, he, ← status_eq] at hs'
      exact hs' hs
    · simp only [undisturbedStep, Bool.and_eq_true, List.all_eq_true] at hc
      have hj := hc.2 i (hr.drawn hp)
      rw [hp, Option.isNone_some, Bool.or_false, beq_iff_eq] at hj
      exact hne .execute (by rw [hj])

private def approved : List Action :=
  demoUpload ++ demoOcr .initial 20 "text" ++ [.finish 20] ++ demoExtraction .initial 30 (demoResult 10 (99 / 100)) ++
    [.step 30 .execute, .step 30 .execute, .step 30 .execute, .finish 30]

theorem trail_replays_approved : Along step (fun _ _ c' => ReplaysWhenQuiet 3 c') demo approved :=
  trail_replays _ _ 3 _ (along_of_invariant (I := Config.Regular) (fun c a c' hr _ => step_regular c a c' hr)
    (fun _ _ _ => undisturbedStep_sound) (initial_regular _ _)
    (by decide +kernel : Along step (fun c a _ => undisturbedStep c a = true) demo approved))

/-- Only commands other than transactions are made to throw, and nothing crashes. -/
private def sturdyStep (c : Config) : Action → Bool
  | .step i (.throws _) => (c.procs i).all fun p => match p.program with
    | .call (.tx _) _ => false
    | _ => true
  | .crash _ => false
  | _ => true

private theorem sturdyStep_sound (hc : sturdyStep c a = true) : Sturdy d c a := by
  constructor
  · rintro i p rfl
    cases hc
  · rintro i e p t k rfl hp hprog
    simp [sturdyStep, hp, hprog] at hc

private def failing : List Action := demoUpload ++ demoFailedOcr.dropLast

/-- A failed download leaves a failed document whose trail still says `uploaded`. -/
theorem trail_silent : ¬ ∀ (tenants : List TenantRow) (users : List UserRow) (d : Uuid) (actions : List Action),
    Along step (fun c a _ => Sturdy d c a) (initial tenants users) actions →
      Along step (fun _ _ c' => ReplaysWhenQuiet d c') (initial tenants users) actions := by
  intro h
  have hsturdy : Along step (fun c a _ => sturdyStep c a = true) demo (failing ++ [.finish 20]) := by
    decide +kernel
  have hend : (run step demo (failing ++ [.finish 20])).map (fun c =>
      (c.issued.all fun i => (c.procs i).isNone, (c.world.db.record 3).map Record.trail)) =
      some (true, some (.failed, some .uploaded)) := by decide +kernel
  obtain ⟨c', hrun, hend⟩ := Option.map_eq_some_iff.1 hend
  obtain ⟨hnone, htrail⟩ := Prod.mk.inj hend
  obtain ⟨r, hr, ht⟩ := Option.map_eq_some_iff.1 htrail
  have hquiet : Quiet 3 c' := fun i p hp => by
    cases ((run_regular (initial_regular _ _) hrun).deserted hnone i).symm.trans hp
  obtain ⟨c, hc, hstep⟩ := run_snoc_some hrun
  have hrep := along_last (h _ _ 3 _ (along_mono (fun _ _ _ => sturdyStep_sound) hsturdy)) hc hstep hquiet r hr
  obtain ⟨hs, hp⟩ := Prod.mk.inj ht
  rw [hs, hp] at hrep
  cases hrep

end
end Pipeline
end DocAuto
