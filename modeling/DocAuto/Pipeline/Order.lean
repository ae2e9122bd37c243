import DocAuto.Pipeline.Moves

/-! Order in the machine: what jobs and processes carry agrees with the document. -/
namespace DocAuto.Pipeline
open Process Database

/-- The document and the run of an OCR or extraction job id. -/
def JobId.subject : JobId → Option (Uuid × RunId)
  | .ocr d q | .extraction d q => some (d, q)
  | .webhook _ => none

/-- The document exists and belongs to the tenant. -/
def View.owned (v : View) (tenantId : Uuid) : Prop := ∃ r, v.record = some r ∧ r.row.tenantId = tenantId

/-- The data of a job agree with its id and with the document. -/
def View.fits (v : View) (d : Uuid) (jobId : JobId) (data : JobData) : Prop :=
  ∀ d' q, jobId.subject = some (d', q) →
    data.documentId = d' ∧ data.processingRunId = q ∧ (d' = d → v.owned data.tenantId)

/-- The row an OCR execution has read. -/
def OcrPoint.document : OcrPoint → Option DocumentRow
  | .claim r | .download r | .recognise r _ | .save r _ | .report r _ | .enqueue r => some r
  | .read | .recover => none

/-- A control point agrees with the owner of the process and with the document. -/
def View.placed (v : View) (d : Uuid) (owner : Owner) : Point → Prop
  | .aside | .lost => True
  | .upload p id u => owner = .api (.upload p id) ∧ (id = d → u ≠ .insert → v.owned p.tenantId)
  | .review t => ∃ call, owner = .api call ∧ (Owner.api call).start = .review t
  | .reset t d' actorId run => owner = .api (.reprocess t d' actorId run)
  | .reopen t d' run => (∃ actorId, owner = .api (.reprocess t d' actorId run)) ∧ (d' = d → v.owned t)
  | .ocr job o => owner = .job (.ocr job.documentId job.processingRunId) job ∧
      (job.documentId = d → ∀ r, o.document = some r → r.tenantId = job.tenantId)
  | .extraction job _ => owner = .job (.extraction job.documentId job.processingRunId) job

/-- What jobs and processes carry agrees with the document. -/
structure Orderly (d : Uuid) (v : View) : Prop where
  jobs : ∀ jobId job, v.jobs jobId = some job → v.fits d jobId job.data
  owners : ∀ i pos jobId data, v.positions i = some pos → pos.owner = .job jobId data → v.fits d jobId data
  points : ∀ i pos, v.positions i = some pos → v.placed d pos.owner pos.point

section Orderly
variable {d : Uuid} {v v' : View} {a : Action}

/-- A document keeps its tenant. -/
theorem Move.owned (h : Move d v a v') {t : Uuid} (ho : v.owned t) : v'.owned t := by
  obtain ⟨r, hr, ht⟩ := ho
  rcases h.record_change with he | ⟨id, pos, t, now, -, -, -, he, -⟩
  · exact ⟨r, he.trans hr, ht⟩
  · obtain ⟨r', hr', ht', -⟩ := Tx.after_some (d := d) t now r
    exact ⟨r', he.trans (hr ▸ hr'), ht'.trans ht⟩

theorem Move.fits (h : Move d v a v') {jobId : JobId} {data : JobData} (hf : v.fits d jobId data) :
    v'.fits d jobId data :=
  fun d' q hs => ⟨(hf d' q hs).1, (hf d' q hs).2.1, fun hd => h.owned ((hf d' q hs).2.2 hd)⟩

theorem Move.placed (h : Move d v a v') {owner : Owner} {pt : Point} (hp : v.placed d owner pt) :
    v'.placed d owner pt := by
  cases pt with
  | upload p id u => exact ⟨hp.1, fun hd hu => h.owned (hp.2 hd hu)⟩
  | reopen t d' run => exact ⟨hp.1, fun hd => h.owned (hp.2 hd)⟩
  | _ => exact hp

theorem placed_next {owner : Owner} {pt : Point} {c : Cmd} {answer : Answer} {r : Except Failure c.Resp}
    {w : View} (hp : v.placed d owner pt) (hall : pt.allows c) (heff : Effect d v c answer r w)
    (ho : ∀ t, v.owned t → w.owned t) : w.placed d owner (pt.next c r) := by
  cases pt with
  | aside | lost | review _ => trivial
  | upload p id u =>
    obtain ⟨hown, hex⟩ := hp
    cases hall
    have keep : ∀ u', u ≠ .insert → w.placed d owner (.upload p id u') := fun u' hu =>
      ⟨hown, fun hd _ => ho _ (hex hd hu)⟩
    cases u with
    | insert =>
      rcases r with e | _ | row
      · trivial
      · trivial
      · refine ⟨hown, fun hd _ => ?_⟩
        obtain ⟨-, now, rfl, had, -⟩ := heff.committed
        have hnone : v.record = none := had hd
        exact ⟨.fresh p id now, by simp [Tx.after, hnone, hd], rfl⟩
    | store | key _ | announce | enqueue | recover =>
      rcases r with e | x <;> first | trivial | exact keep _ (by rintro ⟨⟩)
  | reset t d' actorId run =>
    cases hall
    rcases r with e | x
    · trivial
    · refine ⟨⟨actorId, hp⟩, fun hd => ?_⟩
      obtain ⟨-, -, -, had, -⟩ := heff.committed
      obtain ⟨r, hr, ht, -⟩ := had (congrArg some hd)
      exact ho _ ⟨r, hr, ht.symm⟩
  | reopen t d' run =>
    cases hall
    rcases r with e | x <;> trivial
  | ocr job o =>
    obtain ⟨hown, hdoc⟩ := hp
    cases hall
    cases o with
    | read =>
      rcases r with e | _ | row
      · trivial
      · trivial
      · refine ⟨hown, fun hd r hr => ?_⟩
        obtain rfl : row = r := Option.some.inj hr
        obtain ⟨-, -, -, -, hret⟩ := heff.committed
        obtain ⟨r, hrec, rfl⟩ := Option.map_eq_some_iff.1 (hret hd).symm
        exact beq_iff_eq.1 (Option.mem_filter_iff.1 hrec).2
    | claim row | download row | recognise row _ | save row _ | report row _ | enqueue row =>
      rcases r with e | x <;> first | exact ⟨hown, hdoc⟩ | trivial | exact ⟨hown, fun _ _ h => by cases h⟩
    | recover => rcases r with e | x <;> trivial
  | extraction job e =>
    cases hall
    have keep : ∀ e', w.placed d owner (.extraction job e') := fun _ => hp
    cases e with
    | read =>
      rcases r with e | _ | ⟨row, extraction⟩
      · trivial
      · trivial
      · show w.placed d owner (ExtractionPoint.found job row extraction)
        unfold ExtractionPoint.found
        split
        · trivial
        · split <;> exact keep _
    | classify rawText tenant =>
      rcases r with e | c
      · exact keep _
      · show w.placed d owner (if c.docType = .unknown then _ else _)
        split <;> exact keep _
    | conclude tenant x =>
      rcases r with e | c
      · exact keep _
      · show w.placed d owner (if _ then _ else _)
        split
        · exact keep _
        · trivial
    | _ => rcases r with e | x <;> trivial

/-- The data an `add` carries agree with the job id. -/
theorem fits_add {owner : Owner} {pt : Point} {data : JobData} {jobId : JobId}
    (hf : ∀ j data, owner = .job j data → v.fits d j data) (hp : v.placed d owner pt)
    (hall : pt.allows (.queueAdd data jobId)) : v.fits d jobId data := by
  cases pt with
  | aside | lost => cases hall
  | review _ | reset _ _ _ _ => cases hall
  | upload p id u =>
    cases u <;> cases hall
    rintro d' q ⟨⟩
    exact ⟨rfl, rfl, fun hd => hp.2 hd nofun⟩
  | reopen t d' run =>
    cases hall
    rintro d' q ⟨⟩
    exact ⟨rfl, rfl, hp.2⟩
  | ocr job o =>
    cases o <;> cases hall
    next document =>
    rintro d' q ⟨⟩
    refine ⟨rfl, rfl, fun hd => ?_⟩
    have ht : document.tenantId = job.tenantId := hp.2 hd document rfl
    exact ht ▸ (hf _ _ hp.1 _ _ rfl).2.2 hd
  | extraction job e => cases e <;> cases hall

theorem placed_start {jobId : JobId} {data : JobData} (hf : v.fits d jobId data) :
    v.placed d (.job jobId data) (Owner.job jobId data).start := by
  cases jobId with
  | ocr d' q =>
    obtain ⟨rfl, rfl, -⟩ := hf _ _ rfl
    exact ⟨rfl, fun _ _ h => by cases h⟩
  | extraction d' q =>
    obtain ⟨rfl, rfl, -⟩ := hf _ _ rfl
    exact rfl
  | webhook _ => trivial

theorem placed_call (call : ApiCall) : v.placed d (.api call) (Owner.api call).start := by
  cases call with
  | upload p id => exact ⟨rfl, fun _ h => absurd rfl h⟩
  | approve _ _ _ | reject _ _ _ _ | edit _ _ _ _ => exact ⟨_, rfl, rfl⟩
  | reprocess _ _ _ _ => exact rfl
  | _ => trivial

theorem orderly_step (ho : Orderly d v) (h : Move d v a v') : Orderly d v' := by
  refine ⟨fun jobId job hj => ?_, fun i pos jobId data hi howner => ?_, fun i pos hi => ?_⟩
  · rcases h.job_origin hj with ⟨old, hold, he⟩ | ⟨n, rfl⟩ | ⟨id, pos, -, hpos, hall, -, -⟩
    · exact h.fits (he ▸ ho.jobs jobId old hold)
    · exact fun _ _ hs => by cases hs
    · exact h.fits (fits_add (fun j data => ho.owners id pos j data hpos) (ho.points id pos hpos) hall)
  · rcases h.position_origin hi with ⟨hold, -⟩ | ⟨call, -, -, rfl⟩ | ⟨j, draw, job, -, hj, -, rfl⟩ |
      ⟨old, answer, c, r, w, -, hold, -, -, rfl, -⟩
    · exact h.fits (ho.owners i pos jobId data hold howner)
    · cases howner
    · cases howner
      exact h.fits (ho.jobs _ _ hj)
    · exact h.fits (ho.owners i old jobId data hold howner)
  · rcases h.position_origin hi with ⟨hold, -⟩ | ⟨call, -, -, rfl⟩ | ⟨j, draw, job, -, hj, -, rfl⟩ |
      ⟨old, answer, c, r, w, -, hold, hall, heff, rfl, rfl⟩
    · exact h.placed (ho.points i pos hold)
    · exact placed_call call
    · exact placed_start (h.fits (ho.jobs _ _ hj))
    · have hn := placed_next (ho.points i old hold) hall heff fun _ => h.owned
      exact hn

end Orderly

end DocAuto.Pipeline
