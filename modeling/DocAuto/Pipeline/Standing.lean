import DocAuto.Pipeline.Order
import DocAuto.Pipeline.Known

/-! The standing invariants: a document is born before anything works on it, and every
run is opened by one call. -/
namespace DocAuto.Pipeline
open Process Database

/-- The document and the run an execution works for. -/
def Owner.runs : Owner → Option (Uuid × RunId)
  | .job jobId _ => jobId.subject
  | .api _ => none

/-- The processes with a say over document `d`: its executions, its upload, and a
reprocess of it that has committed. -/
def Position.serves (d : Uuid) (pos : Position) : Prop :=
  (∃ q, pos.owner.runs = some (d, q)) ∨ (∃ p u, pos.point = .upload p d u) ∨ ∃ t u, pos.point = .reopen t d u

/-- No job of `d` is in a queue and nobody but `i` has a say over it. -/
structure View.Untouched (d : Uuid) (v : View) (i : Option ProcId) : Prop where
  jobs : ∀ jobId q, jobId.subject = some (d, q) → v.jobs jobId = none
  others : ∀ j pos, v.positions j = some pos → some j ≠ i → ¬ pos.serves d

/-- Before its id is drawn nothing knows a document; while its upload is in flight
nobody else touches it, and it stays `uploaded`. -/
structure Born (d : Uuid) (v : View) : Prop where
  unborn : d ∉ v.issued → v.record = none ∧ v.Untouched d none
  upload : ∀ i pos p u, v.positions i = some pos → pos.point = .upload p d u →
    v.Untouched d (some i) ∧ (u = .insert → v.record = none) ∧
      (u ≠ .insert → ∃ r, v.record = some r ∧ r.row.status = .uploaded)

section Born
variable {d : Uuid} {v v' : View} {a : Action}

theorem runs_of_placed {owner : Owner} {job : JobData} {o : OcrPoint} (h : v.placed d owner (.ocr job o)) :
    owner.runs = some (job.documentId, job.processingRunId) := by rw [h.1]; rfl

theorem runs_of_placed' {owner : Owner} {job : JobData} {e : ExtractionPoint}
    (h : v.placed d owner (.extraction job e)) :
    owner.runs = some (job.documentId, job.processingRunId) := by rw [show owner = _ from h]; rfl

/-- A transaction of a process without a say over `d` does nothing to a document that
is not there yet, and at most writes a webhook row for one that is `uploaded`. -/
theorem bystander {pos : Position} {t : Tx} {now : Timestamp} {rec : Option Record} (hns : ¬ pos.serves d)
    (hp : v.placed d pos.owner pos.point) (hall : pos.point.allows (.tx t)) (had : t.admitted d rec)
    (hrec : ∀ r, rec = some r → r.row.status = .uploaded) :
    t.after now d rec = rec ∨ ∃ r row, rec = some r ∧ t.after now d rec = some (r.log now row) := by
  obtain ⟨owner, pt⟩ := pos
  cases pt with
  | aside =>
    cases t with
    | writeAuditLog tid row =>
      cases rec with
      | none => exact .inl rfl
      | some r =>
        simp only [Tx.after]
        split
        · exact .inr ⟨r, row, rfl, rfl⟩
        · exact .inl rfl
    | insertDocument _ _ => cases hall
    | _ =>
      exact .inl (Tx.after_of_ne (fun h => by rw [show Tx.documentId _ = none from hall] at h; cases h)
        (by rintro _ ⟨⟩))
  | lost => cases hall
  | upload p id u =>
    have hd : id ≠ d := fun hd => hns (.inr (.inl ⟨p, u, hd ▸ rfl⟩))
    cases u <;> cases hall
    · exact .inl (Tx.after_of_ne (by rintro ⟨⟩) fun p' h => hd (by cases h; rfl))
    all_goals exact .inl (Tx.after_of_ne (fun h => hd (Option.some.inj h)) (by rintro _ ⟨⟩))
  | review t =>
    cases hall
    obtain ⟨call, -, hc⟩ := hp
    by_cases hd : t.documentId = some d
    · cases call <;> cases hc
      all_goals
        obtain ⟨r, hr, -, hg⟩ := had hd
        have := hrec r hr
        simp_all [Tx.guard]
    · exact .inl (Tx.after_of_ne hd (by cases call <;> cases hc <;> rintro _ ⟨⟩))
  | reset tid d' actorId run =>
    cases hall
    by_cases hd : d' = d
    · obtain ⟨r, hr, -, hg⟩ := had (congrArg some hd)
      have := hrec r hr
      simp_all [Tx.guard]
    · exact .inl (Tx.after_of_ne (fun h => hd (Option.some.inj h)) (by rintro _ ⟨⟩))
  | reopen _ _ _ => cases hall
  | ocr job o =>
    have hd : job.documentId ≠ d := fun hd => hns (.inl ⟨_, hd ▸ runs_of_placed hp⟩)
    cases o <;> cases hall
    · exact .inl (Tx.after_of_ne (by rintro ⟨⟩) (by rintro _ ⟨⟩))
    all_goals exact .inl (Tx.after_of_ne (fun h => hd (Option.some.inj h)) (by rintro _ ⟨⟩))
  | extraction job e =>
    have hd : job.documentId ≠ d := fun hd => hns (.inl ⟨_, hd ▸ runs_of_placed' hp⟩)
    cases e with
    | read | findTenant _ => cases hall; exact .inl (Tx.after_of_ne (by rintro ⟨⟩) (by rintro _ ⟨⟩))
    | classify _ _ | extract _ _ | notify _ => cases hall
    | conclude tenant r =>
      cases hall
      exact .inl (Tx.after_of_ne (fun h => hd (by simpa [Tx.documentId] using h)) (by rintro _ ⟨⟩))
    | _ => cases hall; exact .inl (Tx.after_of_ne (fun h => hd (Option.some.inj h)) (by rintro _ ⟨⟩))

theorem serves_of_add {pos : Position} {data : JobData} {jobId : JobId} {q : RunId}
    (hp : v.placed d pos.owner pos.point) (hall : pos.point.allows (.queueAdd data jobId))
    (hs : jobId.subject = some (d, q)) : pos.serves d := by
  obtain ⟨owner, pt⟩ := pos
  cases pt with
  | aside | lost | review _ | reset _ _ _ _ => cases hall
  | upload p id u => cases u <;> cases hall; cases hs; exact .inr (.inl ⟨p, _, rfl⟩)
  | reopen t d' run => cases hall; cases hs; exact .inr (.inr ⟨t, run, rfl⟩)
  | ocr job o => cases o <;> cases hall; cases hs; exact .inl ⟨_, runs_of_placed hp⟩
  | extraction job e => cases e <;> cases hall

/-- An OCR execution stays one until it ends. -/
theorem ocr_next {job : JobData} {o : OcrPoint} {c : Cmd} {r : Except Failure c.Resp}
    (hall : (Point.ocr job o).allows c) : (Point.ocr job o).next c r = .aside ∨
      (Point.ocr job o).next c r = .lost ∨ ∃ o', (Point.ocr job o).next c r = .ocr job o' := by
  cases hall
  cases o <;> rcases r with e | x
  case read.ok => cases x with
    | none => exact .inl rfl
    | some row => exact .inr (.inr ⟨_, rfl⟩)
  all_goals first | exact .inl rfl | exact .inr (.inl rfl) | exact .inr (.inr ⟨_, rfl⟩)

theorem extraction_next {job : JobData} {e : ExtractionPoint} {c : Cmd} {r : Except Failure c.Resp}
    (hall : (Point.extraction job e).allows c) : (Point.extraction job e).next c r = .aside ∨
      (Point.extraction job e).next c r = .lost ∨ ∃ e', (Point.extraction job e).next c r = .extraction job e' := by
  cases hall
  cases e <;> rcases r with err | x
  case read.ok =>
    rcases x with _ | ⟨row, extraction⟩
    · exact .inl rfl
    · rcases Point.next_found job row extraction with ⟨he, -⟩ | ⟨status, he⟩ | ⟨rawText, he⟩
      · exact .inl he
      · exact .inr (.inr ⟨_, he⟩)
      · exact .inr (.inr ⟨_, he⟩)
  case classify.ok rawText tenant =>
    exact .inr (.inr ((Point.next_classified job tenant rawText x).elim (⟨_, ·⟩) (⟨_, ·⟩)))
  case conclude.ok tenant y =>
    exact (Point.next_concluded job tenant y x).imp_right fun he => .inr ⟨_, he⟩
  all_goals first | exact .inl rfl | exact .inr (.inl rfl) | exact .inr (.inr ⟨_, rfl⟩)

/-- A process gains a say over a document only by a reprocess that commits. -/
theorem serves_next {pos : Position} {c : Cmd} {answer : Answer} {r : Except Failure c.Resp} {w : View}
    (hp : v.placed d pos.owner pos.point) (hall : pos.point.allows c) (heff : Effect d v c answer r w)
    (hs : Position.serves d ⟨pos.owner, pos.point.next c r⟩) :
    pos.serves d ∨ ∃ r, v.record = some r ∧ (r.row.status = .failed ∨ r.row.status = .rejected) := by
  rcases hs with hq | hs
  · exact .inl (.inl hq)
  have hn := hs
  obtain ⟨owner, pt⟩ := pos
  cases pt with
  | aside | lost | review _ => rcases hs with ⟨p, u, hs⟩ | ⟨t, u, hs⟩ <;> cases hs
  | upload p id u =>
    refine .inl (.inr (.inl ⟨p, u, ?_⟩))
    cases hall
    rcases hs with ⟨p', u', hs⟩ | ⟨t, u', hs⟩ <;> cases u <;> rcases r with e | _ | _ <;> cases hs <;> rfl
  | reset t d' actorId run =>
    cases hall
    rcases r with e | row
    · rcases hs with ⟨p, u, hs⟩ | ⟨t, u, hs⟩ <;> cases hs
    · rcases hs with ⟨p, u, hs⟩ | ⟨t, u, hs⟩ <;> cases hs
      obtain ⟨-, -, -, had, -⟩ := heff.committed
      obtain ⟨r, hr, -, hg⟩ := had rfl
      exact .inr ⟨r, hr, hg⟩
  | reopen t d' run =>
    cases hall
    rcases hs with ⟨p, u, hs⟩ | ⟨t, u, hs⟩ <;> rcases r with e | x <;> cases hs
  | ocr job o =>
    rcases ocr_next (r := r) hall with he | he | ⟨o', he⟩ <;> rw [he] at hs <;>
      rcases hs with ⟨p, u, hs⟩ | ⟨t, u, hs⟩ <;> cases hs
  | extraction job e =>
    rcases extraction_next (r := r) hall with he | he | ⟨o', he⟩ <;> rw [he] at hs <;>
      rcases hs with ⟨p, u, hs⟩ | ⟨t, u, hs⟩ <;> cases hs

/-- Nobody but the exception gains a say over `d` in a move by somebody else. -/
theorem untouched_step {e : Option ProcId} (ho : Orderly d v) (h : Move d v a v') (hu : v.Untouched d e)
    (hrec : ∀ r, v.record = some r → r.row.status = .uploaded)
    (hcall : ∀ i p, a = .call i (.upload p d) → some i = e)
    (hadd : ∀ i pos data j, a = .step i .execute → some i = e → v.positions i = some pos →
      ¬ pos.point.allows (.queueAdd data j)) : v'.Untouched d e := by
  refine ⟨fun jobId q hs => ?_, fun i pos hi hne => ?_⟩
  · refine Option.eq_none_iff_forall_ne_some.2 fun job hj => ?_
    rcases h.job_origin hj with ⟨old, hold, -⟩ | ⟨n, rfl⟩ | ⟨id, pos, ha, hpos, hall, -, -⟩
    · simp [hu.jobs jobId q hs] at hold
    · cases hs
    · by_cases he : some id = e
      · exact hadd id pos _ _ ha he hpos hall
      · exact hu.others id pos hpos he (serves_of_add (ho.points id pos hpos) hall hs)
  · rcases h.position_origin hi with ⟨hold, -⟩ | ⟨call, ha, -, rfl⟩ | ⟨j, draw, job, -, hj, -, rfl⟩ |
      ⟨old, answer, c, r, w, -, hold, hall, heff, rfl, rfl⟩
    · exact hu.others i pos hold hne
    · rintro (⟨q, hq⟩ | ⟨p, u, hp⟩ | ⟨t, u, hp⟩)
      · cases hq
      · cases call <;> cases hp
        exact hne (hcall i p ha)
      · cases call <;> cases hp
    · rintro (⟨q, hq⟩ | ⟨p, u, hp⟩ | ⟨t, u, hp⟩)
      · simp [hu.jobs j q hq] at hj
      · cases j <;> cases hp
      · cases j <;> cases hp
    · intro hs
      rcases serves_next (ho.points i old hold) hall heff hs with hs | ⟨r, hr, hst⟩
      · exact hu.others i old hold hne hs
      · have := hrec r hr
        simp_all

/-- The document under a move of processes that have no say over it. -/
theorem record_bystander (ho : Orderly d v) (h : Move d v a v') (hrec : ∀ r, v.record = some r → r.row.status = .uploaded)
    (hns : ∀ i pos, a = .step i .execute → v.positions i = some pos → ¬ pos.serves d) :
    v'.record = v.record ∨ ∃ r row now, v.record = some r ∧ v'.record = some (r.log now row) := by
  rcases h.record_change with he | ⟨id, pos, t, now, ha, hpos, hall, he, had⟩
  · exact .inl he
  · rcases bystander (hns id pos ha hpos) (ho.points id pos hpos) hall had hrec with hb | ⟨r, row, hr, hb⟩
    · exact .inl (he.trans hb)
    · exact .inr ⟨r, row, now, hr, he.trans hb⟩

/-- What an upload in flight has come from. -/
theorem upload_prev {pt : Point} {c : Cmd} {r : Except Failure c.Resp} {p : Upload} {u : UploadPoint}
    (hall : pt.allows c) (h : pt.next c r = .upload p d u) :
    ∃ u', pt = .upload p d u' ∧ u' ≠ .recover ∧ u ≠ .insert := by
  cases pt with
  | aside | lost | review _ => cases h
  | reset t d' actorId run => cases hall; rcases r with e | x <;> cases h
  | reopen t d' run => cases hall; rcases r with e | x <;> cases h
  | ocr job o => rcases ocr_next (r := r) hall with he | he | ⟨o', he⟩ <;> rw [he] at h <;> cases h
  | extraction job e => rcases extraction_next (r := r) hall with he | he | ⟨o', he⟩ <;> rw [he] at h <;> cases h
  | upload p' id u' =>
    cases hall
    cases u' <;> rcases r with e | _ | _ <;> cases h <;> exact ⟨_, rfl, by simp, by simp⟩

/-- While the upload is in flight the record, once there, is `uploaded`. -/
theorem Born.uploading (hb : Born d v) {i : ProcId} {pos : Position} {p : Upload} {u : UploadPoint}
    (hi : v.positions i = some pos) (hpt : pos.point = .upload p d u) :
    ∀ r, v.record = some r → r.row.status = .uploaded := by
  obtain ⟨-, hins, hrow⟩ := hb.upload i pos p u hi hpt
  intro r hr
  by_cases hu : u = .insert
  · simp [hins hu] at hr
  · obtain ⟨r', hr', hst⟩ := hrow hu
    rw [hr] at hr'
    exact Option.some.inj hr' ▸ hst

/-- The record after a step of the upload. -/
theorem upload_record {p : Upload} {u u' : UploadPoint} {c : Cmd} {answer : Answer} {r : Except Failure c.Resp} {w : View}
    (hall : (Point.upload p d u').allows c) (hnext : (Point.upload p d u').next c r = .upload p d u)
    (heff : Effect d v c answer r w) (hu' : u' ≠ .recover) (hnone : u' = .insert → v.record = none)
    (hrow : u' ≠ .insert → ∃ r, v.record = some r ∧ r.row.status = .uploaded) :
    ∃ r, w.record = some r ∧ r.row.status = .uploaded := by
  cases hall
  cases u' with
  | insert =>
    rcases r with e | _ | row
    · cases hnext
    · cases hnext
    · obtain ⟨-, now, rfl, -, -⟩ := heff.committed
      exact ⟨.fresh p d now, by simp [Tx.after, hnone rfl], rfl⟩
  | recover => exact absurd rfl hu'
  | store | enqueue =>
    obtain ⟨r₀, hr₀, hst⟩ := hrow (by simp)
    rcases heff.record with he | ⟨t, now, hc, -, he, -⟩
    · exact ⟨r₀, he.trans hr₀, hst⟩
    · cases hc
  | key _ | announce =>
    obtain ⟨r₀, hr₀, hst⟩ := hrow (by simp)
    rcases heff.record with he | ⟨t, now, hc, -, he, -⟩
    · exact ⟨r₀, he.trans hr₀, hst⟩
    · cases hc
      obtain ⟨r', hr', h' | ⟨-, -, h'⟩⟩ := Tx.after_status (d := d) _ now r₀
      · exact ⟨r', (he.trans (hr₀ ▸ hr')), h'.trans hst⟩
      · cases h'

theorem unborn_step (ho : Orderly d v) (hb : Born d v) (h : Move d v a v') (hd : d ∉ v'.issued) :
    v'.record = none ∧ v'.Untouched d none := by
  obtain ⟨hnone, hu⟩ := hb.unborn fun hm => hd (h.issued hm)
  have hrec : ∀ r, v.record = some r → r.row.status = .uploaded := by simp [hnone]
  refine ⟨?_, untouched_step ho h hu hrec ?_ (by rintro _ _ _ _ _ ⟨⟩)⟩
  · rcases record_bystander ho h hrec fun i pos _ hpos => hu.others i pos hpos (by rintro ⟨⟩) with he | ⟨r, row, now, hr, -⟩
    · exact he.trans hnone
    · simp [hnone] at hr
  · rintro i p rfl
    cases h
    exact absurd (by simp [ApiCall.draws]) hd

theorem born_step (ho : Orderly d v) (hb : Born d v) (h : Move d v a v') : Born d v' := by
  refine ⟨unborn_step ho hb h, fun i pos p u hi hpt => ?_⟩
  rcases h.position_origin hi with ⟨hold, hne⟩ | ⟨call, rfl, hf, rfl⟩ | ⟨j, draw, job, -, hj, -, rfl⟩ |
    ⟨old, answer, c, r, w, rfl, hold, hall, heff, rfl, rfl⟩
  · obtain ⟨hu, hins, hrow⟩ := hb.upload i pos p u hold hpt
    have hrec := hb.uploading hold hpt
    refine ⟨untouched_step ho h hu hrec ?_ fun j _ _ _ ha he => absurd (by cases he; exact ha) (hne _), ?_⟩
    · rintro j p' rfl
      cases h with
      | call hf =>
        have hd : d ∉ v.issued := hf.1 d (by simp [ApiCall.draws])
        exact absurd (.inr (.inl ⟨p, u, hpt⟩)) ((hb.unborn hd).2.others i pos hold (by rintro ⟨⟩))
    · have hns : ∀ j pos, a = .step j .execute → v.positions j = some pos → ¬ pos.serves d := fun j pos ha hj =>
        hu.others j pos hj fun he => hne _ (by cases he; exact ha)
      rcases record_bystander ho h hrec hns with he | ⟨r, row, now, hr, he⟩ <;> rw [he]
      · exact ⟨hins, hrow⟩
      · refine ⟨fun hu => ?_, fun _ => ⟨_, rfl, hrec r hr⟩⟩
        simp [hins hu] at hr
  · cases call <;> cases hpt
    have hd : d ∉ v.issued := hf.1 d (by simp [ApiCall.draws])
    obtain ⟨hnone, hu⟩ := hb.unborn hd
    have hu' : v.Untouched d (some i) := ⟨hu.jobs, fun j pos hj _ => hu.others j pos hj (by rintro ⟨⟩)⟩
    refine ⟨untouched_step ho h hu' (by simp [hnone]) ?_ (by rintro _ _ _ _ ⟨⟩), ?_⟩
    · rintro j p' ⟨⟩; rfl
    · cases h; exact ⟨fun _ => hnone, fun hn => absurd rfl hn⟩
  · cases j <;> cases hpt
  · obtain ⟨owner, pt⟩ := old
    obtain ⟨u', rfl, hu', hins⟩ := upload_prev hall hpt
    obtain ⟨hu, hnone, hrow⟩ := hb.upload i _ p u' hold rfl
    refine ⟨untouched_step ho h hu (hb.uploading hold rfl) nofun ?_, fun h => absurd h hins, fun _ => ?_⟩
    · rintro j pos data k ⟨⟩ - hj hq
      obtain rfl := Option.some.inj (hold.symm.trans hj)
      cases u' <;> cases hq
      cases hall
      obtain ⟨-, rfl, -⟩ := heff
      cases hpt
    · exact upload_record (w := w) hall hpt heff hu' hnone hrow

end Born

/-- The call that opens run `q` of document `d`, until it has enqueued the OCR job. -/
def Position.opens (d : Uuid) (pos : Position) : RunId → Prop
  | .initial => ∃ p u, pos.point = .upload p d u
  | .reprocess run => (∃ t actorId, pos.point = .reset t d actorId run) ∨ ∃ t, pos.point = .reopen t d run

/-- No process other than `i` belongs to run `q` of document `d`. -/
def View.Nobody (d : Uuid) (q : RunId) (v : View) (i : Option ProcId) : Prop :=
  ∀ j pos, v.positions j = some pos → some j ≠ i → pos.owner.runs ≠ some (d, q) ∧ ¬ pos.opens d q

/-- The job is not there, or will not run again. -/
def idle (job : Option Job) : Prop := ∀ x, job = some x → x.state = .completed ∨ x.state = .failed

/-- The run of a job identifier opened by a call. -/
def ApiCall.opens (call : ApiCall) (d : Uuid) (q : RunId) : Prop :=
  Position.opens d ⟨.api call, (Owner.api call).start⟩ q

section Runs
variable {d : Uuid} {q : RunId} {v v' : View} {a : Action} {i : Option ProcId}

theorem opens_of_add {pos : Position} {data : JobData} {jobId : JobId} (hp : v.placed d pos.owner pos.point)
    (hall : pos.point.allows (.queueAdd data jobId)) (hs : jobId.subject = some (d, q)) :
    pos.owner.runs = some (d, q) ∨ pos.opens d q := by
  obtain ⟨owner, pt⟩ := pos
  cases pt with
  | aside | lost | review _ | reset _ _ _ _ => cases hall
  | upload p id u => cases u <;> cases hall; cases hs; exact .inr ⟨p, _, rfl⟩
  | reopen t d' run => cases hall; cases hs; exact .inr (.inr ⟨t, rfl⟩)
  | ocr job o => cases o <;> cases hall; cases hs; exact .inl (runs_of_placed hp)
  | extraction job e => cases e <;> cases hall

/-- A process that opens a run has opened it from the start. -/
theorem opens_next {pos : Position} {c : Cmd} {r : Except Failure c.Resp} (hall : pos.point.allows c)
    (h : Position.opens d ⟨pos.owner, pos.point.next c r⟩ q) : pos.opens d q := by
  cases q with
  | initial =>
    obtain ⟨p, u, hu⟩ := h
    obtain ⟨u', hp, -⟩ := upload_prev hall hu
    exact ⟨p, u', hp⟩
  | reprocess run =>
    obtain ⟨owner, pt⟩ := pos
    cases pt with
    | aside | lost | review _ => rcases h with ⟨t, b, h⟩ | ⟨t, h⟩ <;> cases h
    | upload p id u =>
      cases hall
      rcases h with ⟨t, b, h⟩ | ⟨t, h⟩ <;> cases u <;> rcases r with e | _ | _ <;> cases h
    | reset t d' b run' =>
      cases hall
      rcases r with e | x <;> rcases h with ⟨t, b, h⟩ | ⟨t, h⟩ <;> cases h
      exact .inl ⟨_, _, rfl⟩
    | reopen t d' run' =>
      cases hall
      rcases r with e | x <;> rcases h with ⟨t, b, h⟩ | ⟨t, h⟩ <;> cases h
    | ocr job o =>
      rcases ocr_next (r := r) hall with he | he | ⟨o', he⟩ <;> rw [he] at h <;>
        rcases h with ⟨t, b, h⟩ | ⟨t, h⟩ <;> cases h
    | extraction job e =>
      rcases extraction_next (r := r) hall with he | he | ⟨o', he⟩ <;> rw [he] at h <;>
        rcases h with ⟨t, b, h⟩ | ⟨t, h⟩ <;> cases h

/-- A run nobody belongs to, and none of whose jobs will run, gets no process from outside. -/
theorem nobody_step (h : Move d v a v') (hjobs : ∀ j, j.subject = some (d, q) → idle (v.jobs j))
    (hn : v.Nobody d q i) (hcall : ∀ j call, a = .call j call → call.opens d q → some j = i) :
    v'.Nobody d q i := by
  intro j pos hj hne
  rcases h.position_origin hj with ⟨hold, -⟩ | ⟨call, ha, -, rfl⟩ | ⟨k, draw, job, ha, hk, -, rfl⟩ |
    ⟨old, answer, c, r, w, -, hold, hall, heff, rfl, rfl⟩
  · exact hn j pos hold hne
  · exact ⟨nofun, fun hc => hne (hcall j call ha hc)⟩
  · subst ha
    cases h with
    | start hjob hst _ =>
      refine ⟨fun hs => ?_, fun ho => ?_⟩
      · rcases hjobs k hs _ hjob with h | h <;> rcases hst with h' | h' <;> cases h.symm.trans h'
      · cases q <;> cases k <;> simp [Position.opens, Owner.start] at ho
  · exact ⟨(hn j old hold hne).1, fun ho => (hn j old hold hne).2 (opens_next hall ho)⟩

/-- Nobody but the exception adds a job of such a run. -/
theorem nobody_adds (ho : Orderly d v) {j : JobId} (hs : j.subject = some (d, q)) (hn : v.Nobody d q i)
    (hadd : ∀ k pos data, a = .step k .execute → some k = i → v.positions k = some pos →
      ¬ pos.point.allows (.queueAdd data j)) (k : ProcId) (pos : Position) (data : JobData) (ha : a = .step k .execute)
    (hk : v.positions k = some pos) : ¬ pos.point.allows (.queueAdd data j) := by
  intro hall
  by_cases hi : some k = i
  · exact hadd k pos data ha hi hk hall
  · rcases opens_of_add (ho.points k pos hk) hall hs with hr | hr
    · exact (hn k pos hk hi).1 hr
    · exact (hn k pos hk hi).2 hr

/-- A job that will not run again, and that nobody adds, stays as it is or is evicted. -/
theorem idle_step (h : Move d v a v') {j : JobId} (hs : j.subject = some (d, q)) (hj : idle (v.jobs j))
    (hadd : ∀ k pos data, a = .step k .execute → v.positions k = some pos → ¬ pos.point.allows (.queueAdd data j)) :
    v'.jobs j = v.jobs j ∨ v'.jobs j = none := by
  have hstate : ∀ x, v.jobs j = some x → x.state ≠ .waiting ∧ x.state ≠ .delayed ∧ ∀ id, x.state ≠ .active id := by
    intro x hx
    rcases hj x hx with h | h <;> simp [h]
  cases h with
  | call _ | crash _ | tick => exact .inl rfl
  | @start id k draw job hjob hst _ =>
    rw [View.setJob_jobs]
    split
    · next he =>
      subst he
      rcases hst with hst | hst
      · exact absurd hst (hstate job hjob).1
      · exact absurd hst (hstate job hjob).2.1
    · exact .inl rfl
  | @stall k job id hjob hst =>
    rw [View.setJob_jobs]
    split
    · next he => subst he; exact absurd hst ((hstate job hjob).2.2 id)
    · exact .inl rfl
  | evict _ _ =>
    rw [View.setJob_jobs]
    split
    · exact .inr rfl
    · exact .inl rfl
  | @finish id pos failed _ _ =>
    rcases View.settle_jobs (v.place id none) id pos.owner failed j with he | ⟨old, data, -, hold, hst, -⟩
    · exact .inl he
    · exact absurd hst ((hstate old hold).2.2 id)
  | @step id answer pos c r w hpos hall heff =>
    rw [View.place_jobs]
    rcases heff.jobs with he | ⟨data, k, rfl, ha, he⟩ | ⟨n, data, he⟩ <;> rw [he]
    · exact .inl rfl
    · rw [View.add_jobs]
      split
      · next hk =>
        subst hk
        cases hold : v.jobs j with
        | some old => exact .inl rfl
        | none => exact absurd hall (hadd id pos data (by rw [ha]) hpos)
      · exact .inl rfl
    · rw [View.add_jobs]
      split
      · next hk => subst hk; cases hs
      · exact .inl rfl

/-- The UUID whose drawing opens the run. -/
def RunId.token (d : Uuid) : RunId → Uuid
  | .initial => d
  | .reprocess run => run

theorem token_drawn {call : ApiCall} (h : call.opens d q) : q.token d ∈ call.draws := by
  cases q with
  | initial =>
    obtain ⟨p, u, h⟩ := h
    cases call <;> cases h
    exact List.mem_singleton_self _
  | reprocess run =>
    rcases h with ⟨t, b, h⟩ | ⟨t, h⟩ <;> cases call <;> cases h
    exact List.mem_singleton_self _

/-- No job of the run has been added and nobody but `i` belongs to it. -/
def View.Unopened (d : Uuid) (q : RunId) (v : View) (i : Option ProcId) : Prop :=
  (∀ j, j.subject = some (d, q) → v.jobs j = none) ∧ v.Nobody d q i

/-- Every run is opened by one call only, which puts its first job into the queue. -/
structure Opened (d : Uuid) (v : View) : Prop where
  fresh : ∀ q, q.token d ∉ v.issued → v.Unopened d q none
  opening : ∀ i pos q, v.positions i = some pos → pos.opens d q → v.Unopened d q (some i)

theorem idle_none : idle none := nofun

theorem unopened_step (ho : Orderly d v) (h : Move d v a v') (hu : v.Unopened d q i)
    (hcall : ∀ j call, a = .call j call → call.opens d q → some j = i)
    (hadd : ∀ k pos data j, a = .step k .execute → some k = i → v.positions k = some pos →
      ¬ pos.point.allows (.queueAdd data j)) : v'.Unopened d q i := by
  have hidle : ∀ j, j.subject = some (d, q) → idle (v.jobs j) := fun j hs => hu.1 j hs ▸ idle_none
  refine ⟨fun j hs => ?_, nobody_step h hidle hu.2 hcall⟩
  refine (idle_step h hs (hidle j hs) ?_).elim (·.trans (hu.1 j hs)) id
  exact nobody_adds ho hs hu.2 fun k pos data ha hk hp => hadd k pos data j ha hk hp

theorem Point.add_unique {pt : Point} {data : JobData} {j : JobId} {c : Cmd} (h : pt.allows (.queueAdd data j))
    (hc : pt.allows c) : c = .queueAdd data j := by
  cases pt with
  | aside | lost => cases h
  | upload _ _ _ | review _ | reset _ _ _ _ | reopen _ _ _ | ocr _ _ | extraction _ _ => exact hc.trans h.symm

/-- An executed `add` is the last a call that opens a run does. -/
theorem closed_by_add {pos : Position} {data : JobData} {j : JobId} {r : Except Failure Unit}
    (hall : pos.point.allows (.queueAdd data j)) (hr : r = .ok ()) :
    ¬ Position.opens d ⟨pos.owner, pos.point.next (.queueAdd data j) r⟩ q := by
  subst hr
  obtain ⟨owner, pt⟩ := pos
  have hn : pt.next (.queueAdd data j) (.ok ()) = .aside := by
    cases pt with
    | aside | lost | review _ | reset _ _ _ _ => cases hall
    | upload p id u => cases u <;> cases hall; rfl
    | reopen t d' run => rfl
    | ocr job o => cases o <;> cases hall; rfl
    | extraction job e => cases e <;> cases hall
  rw [hn]
  cases q with
  | initial => rintro ⟨p, u, h⟩; cases h
  | reprocess run => rintro (⟨t, b, h⟩ | ⟨t, h⟩) <;> cases h

theorem opened_step (ho : Orderly d v) (hop : Opened d v) (h : Move d v a v') : Opened d v' := by
  refine ⟨fun q hq => ?_, fun i pos q hi hpos => ?_⟩
  · refine unopened_step ho h (hop.fresh q fun hm => hq (h.issued hm)) (fun j call ha hc => ?_) (by rintro _ _ _ _ _ ⟨⟩)
    subst ha
    cases h
    exact absurd (List.mem_append_left _ (List.mem_cons_of_mem _ (token_drawn hc))) hq
  · rcases h.position_origin hi with ⟨hold, hne⟩ | ⟨call, rfl, hf, rfl⟩ | ⟨k, draw, job, -, hk, -, rfl⟩ |
      ⟨old, answer, c, r, w, rfl, hold, hall, heff, rfl, -⟩
    · refine unopened_step ho h (hop.opening i pos q hold hpos) (fun j call ha hc => ?_)
        fun k _ _ _ ha hk => absurd (by cases hk; exact ha) (hne _)
      subst ha
      cases h with
      | call hf =>
        have hq : q.token d ∉ v.issued := hf.1 _ (List.mem_cons_of_mem _ (token_drawn hc))
        exact absurd hpos ((hop.fresh q hq).2 i pos hold (by rintro ⟨⟩)).2
    · have hq : q.token d ∉ v.issued := hf.1 _ (List.mem_cons_of_mem _ (token_drawn hpos))
      obtain ⟨hj, hn⟩ := hop.fresh q hq
      refine unopened_step ho h ⟨hj, fun k p hk _ => hn k p hk (by rintro ⟨⟩)⟩ ?_ (by rintro _ _ _ _ ⟨⟩)
      rintro j call' ⟨⟩ -
      rfl
    · cases q <;> cases k <;> simp [Position.opens, Owner.start] at hpos
    · refine unopened_step ho h (hop.opening i old q hold (opens_next hall hpos)) (by rintro _ _ ⟨⟩) ?_
      rintro k pos data j ⟨⟩ - hk hq
      obtain rfl := Option.some.inj (hold.symm.trans hk)
      cases Point.add_unique hq hall
      exact closed_by_add hq heff.2.1 hpos

end Runs

/-- The standing invariants of the machine. -/
structure Standing (d : Uuid) (v : View) : Prop where
  orderly : Orderly d v
  born : Born d v
  opened : Opened d v
  known : Known v

theorem standing_step {d : Uuid} {v v' : View} {a : Action} (hs : Standing d v) (h : Move d v a v') : Standing d v' :=
  ⟨orderly_step hs.orderly h, born_step hs.orderly hs.born h, opened_step hs.orderly hs.opened h,
    known_step hs.known h⟩

theorem standing_initial (tenants : List TenantRow) (users : List UserRow) (d : Uuid) :
    Standing d ((initial tenants users).view d) := by
  refine ⟨⟨?_, ?_, ?_⟩, ⟨fun _ => ⟨rfl, ?_, ?_⟩, ?_⟩, ⟨fun _ _ => ⟨?_, ?_⟩, ?_⟩, ⟨?_, ?_, ?_⟩⟩ <;>
    simp [initial, Config.view, View.Nobody]

/-- What every reachable configuration satisfies. -/
structure Config.Regular (c : Config) : Prop where
  valid : c.Valid
  standing : ∀ d, Standing d (c.view d)

theorem initial_regular (tenants : List TenantRow) (users : List UserRow) : (initial tenants users).Regular :=
  ⟨initial_valid tenants users, standing_initial tenants users⟩

theorem step_regular (c : Config) (a : Action) (c' : Config) (hr : c.Regular) (h : step c a = some c') : c'.Regular :=
  ⟨step_valid hr.valid h, fun d => standing_step (hr.standing d) (step_move d hr.valid h)⟩

theorem run_regular {c c' : Config} {actions : List Action} (hr : c.Regular) (h : run step c actions = some c') :
    c'.Regular :=
  run_inductive step_regular hr h

theorem Config.Regular.placed {c : Config} (hr : c.Regular) {d : Uuid} {i : ProcId} {p : Activity}
    (hp : c.procs i = some p) : (c.view d).placed d p.owner p.point :=
  (hr.standing d).orderly.points i p.position (Config.view_position hp)

theorem Config.Regular.drawn {c : Config} (hr : c.Regular) {i : ProcId} {p : Activity} (hp : c.procs i = some p) :
    i ∈ c.issued :=
  (hr.standing 0).known.positions i p.position (Config.view_position hp)

/-- Processes run under drawn ids, so these are enough to see that there is none. -/
theorem Config.Regular.deserted {c : Config} (hr : c.Regular) (h : (c.issued.all fun i => (c.procs i).isNone) = true)
    (i : ProcId) : c.procs i = none := by
  cases hp : c.procs i with
  | none => rfl
  | some p =>
    have hn := List.all_eq_true.1 h i (hr.drawn hp)
    rw [hp] at hn
    cases hn

theorem Reachable.regular {c : Config} (h : Reachable c) : c.Regular := by
  obtain ⟨tenants, users, actions, h⟩ := h
  exact run_regular (initial_regular tenants users) h

end DocAuto.Pipeline
