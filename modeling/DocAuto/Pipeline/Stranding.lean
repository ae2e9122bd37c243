import DocAuto.Pipeline.Writes

/-! Stranding: when a document in the middle of the pipeline still has somebody who
will move it on. -/
namespace DocAuto.Pipeline
open Process Database

/-- The statuses from which no call of a user can continue. -/
def isMid : DocumentStatus → Bool
  | .uploaded | .ocrProcessing | .extracted | .extracting => true
  | _ => false

/-- The execution has still to move its document on. -/
def ExtractionPoint.carries : ExtractionPoint → Bool
  | .reportRefusal _ | .reportParked _ | .report _ _ | .conclude _ _ | .notify _ | .reportFailure _ => false
  | _ => true

/-- A process at the point has still to move `d` on: to a final status or to a job. -/
def Point.carries (d : Uuid) : Point → Bool
  | .upload _ id u => id == d && u != .insert
  | .reopen _ d' _ => d' == d
  | .ocr job _ => job.documentId == d
  | .extraction job e => job.documentId == d && e.carries
  | _ => false

/-- The points of an execution whose failure its catch block does not answer. -/
def Point.outside : Point → Bool
  | .ocr _ .read | .ocr _ (.claim _) | .ocr _ .recover => true
  | .extraction _ .read | .extraction _ (.refuse _) | .extraction _ (.findTenant _) | .extraction _ (.claim _ _)
  | .extraction _ (.recover _) => true
  | _ => false

namespace View
variable (d : Uuid) (v : View)

def Mid : Prop := ∃ s, v.record.map (·.row.status) = some s ∧ isMid s

/-- The job will be run again: it waits, or its executor is gone, or is about to fail
with attempts left. -/
def Pending (job : Job) : Prop :=
  job.state = .waiting ∨ job.state = .delayed ∨ ∃ k, job.state = .active k ∧
    (v.positions k = none ∨
      job.attemptsMade + 1 < attempts ∧ ∃ pos, v.positions k = some pos ∧ pos.point = .lost)

/-- The job is pending, or run by a process other than `i` that carries `d`. -/
def Handled (i : ProcId) (job : Job) : Prop :=
  v.Pending job ∨ ∃ k pos, k ≠ i ∧ job.state = .active k ∧ v.positions k = some pos ∧ pos.point.carries d

/-- Somebody has still to move `d` on. -/
def Tended : Prop :=
  (∃ i pos, v.positions i = some pos ∧ pos.point.carries d) ∨
    ∃ jobId q job, jobId.subject = some (d, q) ∧ v.jobs jobId = some job ∧ v.Pending job

end View

section Conditions
variable (d : Uuid) (v : View) (a : Action)

/-- A reprocess cannot enqueue its first job, or the catch block of an upload cannot
write its status. -/
def FailsToHandOver : Prop :=
  ∃ i pos err, a = .step i (.throws err) ∧ v.positions i = some pos ∧ v.Mid ∧
    ((∃ t run, pos.point = .reopen t d run) ∨ ∃ p, pos.point = .upload p d .recover)

/-- An execution that carries `d` stops, or fails outside its `try` block, and its job
is not left to be run again. -/
def GivesUp : Prop :=
  ∃ i pos jobId data, v.positions i = some pos ∧ pos.owner = .job jobId data ∧ pos.point.carries d ∧ v.Mid ∧
    ((a = .crash i ∧ ¬ ∃ job, v.jobs jobId = some job ∧ (job.state = .active i ∨ v.Handled d i job)) ∨
      (∃ err, a = .step i (.throws err)) ∧ pos.point.outside ∧ ¬ ∃ job, v.jobs jobId = some job ∧
        (job.state = .active i ∧ job.attemptsMade + 1 < attempts ∨ v.Handled d i job))

/-- The extraction job of an OCR execution is not added, because one of its id exists
that nobody will run any more. -/
def AddIgnored : Prop :=
  ∃ i pos job row old, a = .step i .execute ∧ v.positions i = some pos ∧ pos.point = .ocr job (.enqueue row) ∧
    job.documentId = d ∧ v.Mid ∧ v.jobs (extractionJobId job.documentId job.processingRunId) = some old ∧
    ¬ v.Handled d i old

end Conditions

/-- Only executions of jobs stop, no calls. -/
def OnlyWorkersStop (c : Config) (a : Action) : Prop :=
  ∀ i p call, a = .crash i → c.procs i = some p → p.owner ≠ .api call

/-- A document in the middle of the pipeline has a call or an execution in progress or
a job that waits, is delayed or active. -/
def NotStranded (d : Uuid) (c : Config) : Prop :=
  ∀ r, c.world.db.record d = some r → isMid r.row.status →
    (∃ i p, c.procs i = some p ∧ p.owner.documentId = some d) ∨
    ∃ jobId q job, jobId.subject = some (d, q) ∧ c.world.jobs jobId = some job ∧
      (job.state = .waiting ∨ job.state = .delayed ∨ ∃ i, job.state = .active i)

section
variable {c c' : Config} {d : Uuid} {q : RunId} {a : Action} {v v' w : View} {i : ProcId} {pos : Position}
  {jobId : JobId} {job : Job}

/-- A job is pending as long as its executor is gone or at the end of its program. -/
theorem View.Pending.kept (hp : v.Pending job)
    (hnone : ∀ k, job.state = .active k → v.positions k = none → v'.positions k = none)
    (hlost : ∀ k pos, job.state = .active k → v.positions k = some pos → pos.point = .lost →
      v'.positions k = some pos ∨ v'.positions k = none) : v'.Pending job := by
  rcases hp with hp | hp | ⟨k, hact, hp | ⟨hleft, pos, hpos, hpt⟩⟩
  · exact .inl hp
  · exact .inr (.inl hp)
  · exact .inr (.inr ⟨k, hact, .inl (hnone k hact hp)⟩)
  · rcases hlost k pos hact hpos hpt with hpos | hpos
    · exact .inr (.inr ⟨k, hact, .inr ⟨hleft, pos, hpos, hpt⟩⟩)
    · exact .inr (.inr ⟨k, hact, .inl hpos⟩)

/-- The queue delays a pending job when its execution has failed. -/
theorem pending_finish {data : JobData} {failed : Bool} (hp : v.Pending job) (hj : v.jobs jobId = some job)
    (hself : job.state = .active i) (hpos : v.positions i = some pos) (howner : pos.owner = .job jobId data)
    (hend : pos.point = .aside ∨ pos.point = .lost ∧ failed = true) :
    ((v.place i none).settle i pos.owner failed).jobs jobId = some (job.settle failed) ∧
      (job.settle failed).state = .delayed := by
  rcases hp with hp | hp | ⟨k, hact, hp⟩
  · cases hself.symm.trans hp
  · cases hself.symm.trans hp
  · cases hself.symm.trans hact
    obtain ⟨hleft, pos', hpos', hpt⟩ := hp.resolve_left (by rw [hpos]; rintro ⟨⟩)
    obtain rfl := Option.some.inj (hpos.symm.trans hpos')
    rcases hend with hend | ⟨-, rfl⟩
    · cases hpt.symm.trans hend
    · exact ⟨by simp [howner, View.settle, hj, hself], by simp [Job.settle, hleft]⟩

/-- A pending job stays pending until a process takes it up. -/
theorem pending_step (hs : Standing d v) (h : Move d v a v') (hsub : jobId.subject = some (d, q))
    (hj : v.jobs jobId = some job) (hp : v.Pending job) : v'.Tended d := by
  have hk := hs.known
  have same : v'.jobs jobId = some job → (∀ k, job.state = .active k → v.positions k = none → v'.positions k = none) →
      (∀ k pos, job.state = .active k → v.positions k = some pos → pos.point = .lost →
        v'.positions k = some pos ∨ v'.positions k = none) → v'.Tended d := fun hj' hnone hlost =>
    .inr ⟨jobId, q, job, hsub, hj', hp.kept hnone hlost⟩
  cases h with
  | @call id call hf =>
    have hnew : id ∉ v.issued := hf.1 id List.mem_cons_self
    refine same hj (fun k hact hn => ?_) fun k pos hact hpos _ => .inl ?_ <;>
      have hne : k ≠ id := fun he => hnew (he ▸ hk.executors jobId job k hj hact)
    · simp [hne, hn]
    · simp [hne, hpos]
  | @start id jobId' draw job' hj' hst hf =>
    have hnew : id ∉ v.issued := hf.1 id List.mem_cons_self
    by_cases he : jobId = jobId'
    · subst he
      obtain rfl := Option.some.inj (hj.symm.trans hj')
      refine .inl ⟨id, ⟨.job jobId job.data, (Owner.job jobId job.data).start⟩, by simp, ?_⟩
      have hd := (hs.orderly.jobs jobId job hj d q hsub).1
      cases jobId <;> cases hsub <;> simp [Owner.start, Point.carries, ExtractionPoint.carries, hd]
    · refine same (by simp [he, hj]) (fun k hact hn => ?_) fun k pos hact hpos _ => .inl ?_ <;>
        have hne : k ≠ id := fun he => hnew (he ▸ hk.executors jobId job k hj hact)
      · simp [hne, hn]
      · simp [hne, hpos]
  | @step id answer pos cmd r w hpos hall heff =>
    refine same ?_ (fun k _ hn => ?_) fun k pos' _ hpos' hpt => .inl ?_
    · rw [View.place_jobs]
      rcases heff.jobs with he | ⟨data, k, -, -, he⟩ | ⟨n, data, he⟩ <;> rw [he]
      · exact hj
      all_goals
        rw [View.add_jobs]
        split
        · next hk => rw [← hk, hj]; rfl
        · exact hj
    · have hne : k ≠ id := by rintro rfl; cases hn.symm.trans hpos
      simp [hne, heff.positions, hn]
    · have hne : k ≠ id := by
        rintro rfl
        obtain rfl := Option.some.inj (hpos.symm.trans hpos')
        rw [hpt] at hall
        cases hall
      simp [hne, heff.positions, hpos']
  | @finish id pos failed hpos hend =>
    by_cases hself : job.state = .active id
    · obtain ⟨data, howner⟩ := hk.executing jobId job id pos hj hself hpos
      obtain ⟨hjob, hdelayed⟩ := pending_finish hp hj hself hpos howner hend
      exact .inr ⟨jobId, q, _, hsub, hjob, .inr (.inl hdelayed)⟩
    · refine same ?_ (fun k _ hn => ?_) fun k pos' hact hpos' _ => .inl ?_
      · rcases View.settle_jobs (v.place id none) id pos.owner failed jobId with he | ⟨old, data, -, hold, hact, -⟩
        · exact he.trans hj
        · obtain rfl := Option.some.inj (hj.symm.trans hold)
          exact absurd hact hself
      · simp [hn]
      · have hne : k ≠ id := by rintro rfl; exact hself hact
        simp [hne, hpos']
  | @crash id pos hpos =>
    refine same hj (fun k _ hn => ?_) fun k pos' _ hpos' _ => ?_
    · simp [hn]
    · by_cases he : k = id
      · exact .inr (by simp [he])
      · exact .inl (by simp [he, hpos'])
  | @stall jobId' job' id hj' hact =>
    by_cases he : jobId = jobId'
    · exact .inr ⟨jobId, q, { job' with state := .waiting }, hsub, by simp [he], .inl rfl⟩
    · exact same (by simp [he, hj]) (fun _ _ hn => hn) fun _ _ _ hpos _ => .inl hpos
  | @evict jobId' job' hj' hst =>
    have he : jobId ≠ jobId' := by
      rintro rfl
      obtain rfl := Option.some.inj (hj.symm.trans hj')
      rcases hp with hp | hp | ⟨k, hp, -⟩ <;> rw [hp] at hst <;> rcases hst with h | h <;> cases h
    exact same (by simp [he, hj]) (fun _ _ hn => hn) fun _ _ _ hpos _ => .inl hpos
  | tick => exact same hj (fun _ _ hn => hn) fun _ _ _ hpos _ => .inl hpos

private theorem carrier_kept (hs : Standing d v) (h : Move d v a v') (hi : v.positions i = some pos)
    (hc : pos.point.carries d) (hstep : ∀ answer, a ≠ .step i answer) (hcrash : a ≠ .crash i) : v'.Tended d := by
  rcases hs.known.kept h hi with hk | ⟨answer, ha⟩ | ⟨-, hend⟩ | ha
  · exact .inl ⟨i, pos, hk, hc⟩
  · exact absurd ha (hstep answer)
  · rcases hend with he | he <;> rw [he] at hc <;> cases hc
  · exact absurd ha hcrash

private theorem tended_kept (hs : Standing d v) (h : Move d v a v') (ht : v.Tended d)
    (hn : ∀ i pos, v.positions i = some pos → pos.point.carries d → (∀ answer, a ≠ .step i answer) ∧ a ≠ .crash i) :
    v'.Tended d := by
  rcases ht with ⟨i, pos, hi, hc⟩ | ⟨jobId, q, job, hsub, hj, hp⟩
  · exact carrier_kept hs h hi hc (hn i pos hi hc).1 (hn i pos hi hc).2
  · exact pending_step hs h hsub hj hp

private theorem handled_step (hs : Standing d v) (h : Move d v a v') (hsub : jobId.subject = some (d, q))
    (hj : v.jobs jobId = some job) (hh : v.Handled d i job)
    (ha : (∃ answer, a = .step i answer) ∨ a = .crash i) : v'.Tended d := by
  rcases hh with hp | ⟨k, pos, hne, -, hk, hc⟩
  · exact pending_step hs h hsub hj hp
  · refine carrier_kept hs h hk hc (fun answer he => ?_) fun he => ?_
    · rcases ha with ⟨answer', ha⟩ | ha <;> cases ha.symm.trans he
      exact hne rfl
    · rcases ha with ⟨answer', ha⟩ | ha <;> cases ha.symm.trans he
      exact hne rfl

section Strides
variable {cmd : Cmd} {answer : Answer} {r : Except Failure cmd.Resp} {data : JobData}

private theorem lost_tended (hs : Standing d v) (h : Move d v (.step i answer) v') (hi : v.positions i = some pos)
    (howner : pos.owner = .job jobId data) (hsub : jobId.subject = some (d, q)) (hc : pos.point.carries d)
    (hmid : v.Mid) (hgive : ¬ GivesUp d v (.step i answer)) {e : Failure} (hthrow : answer = .throws e)
    (hout : pos.point.outside) (hi' : v'.positions i = some ⟨pos.owner, .lost⟩) (hjobs : v'.jobs = v.jobs) :
    v'.Tended d := by
  have hkept : ∃ job, v.jobs jobId = some job ∧
      (job.state = .active i ∧ job.attemptsMade + 1 < attempts ∨ v.Handled d i job) := by
    by_contra hno
    exact hgive ⟨i, pos, jobId, data, hi, howner, hc, hmid, .inr ⟨⟨e, by rw [hthrow]⟩, hout, hno⟩⟩
  obtain ⟨job, hj, ⟨hact, hleft⟩ | hh⟩ := hkept
  · exact .inr ⟨jobId, q, job, hsub, hjobs ▸ hj, .inr (.inr ⟨i, hact, .inr ⟨hleft, _, hi', rfl⟩⟩)⟩
  · exact handled_step hs h hsub hj hh (.inl ⟨answer, rfl⟩)

private theorem not_mid {rec : Record} (hw : v.record = some rec) (hs : isMid rec.row.status = false) : ¬ v.Mid := by
  rintro ⟨s, he, hm⟩
  rw [hw, Option.map_some, Option.some.injEq] at he
  rw [he, hm] at hs
  cases hs

private theorem mid_congr (h : v'.record.map (·.row.status) = v.record.map (·.row.status)) (hm : v'.Mid) : v.Mid :=
  hm.imp fun _ hs => ⟨h ▸ hs.1, hs.2⟩

private theorem ocr_tended {owner : Owner} {job : JobData} {o : OcrPoint} (hs : Standing d v)
    (h : Move d v (.step i answer) v') (hi : v.positions i = some ⟨owner, .ocr job o⟩) (hd : job.documentId = d)
    (hall : (Point.ocr job o).allows cmd) (heff : Effect d v cmd answer r w)
    (hv : v' = w.place i (some ⟨owner, (Point.ocr job o).next cmd r⟩)) (hgive : ¬ GivesUp d v (.step i answer))
    (hadd : ¬ AddIgnored d v (.step i answer)) (hm : v'.Mid) : v'.Tended d := by
  have hown := ocr_owned hs.orderly hi rfl hd
  have howner : owner = .job (.ocr job.documentId job.processingRunId) job := (hs.orderly.points i _ hi).1
  subst hd
  have hcarry : ∀ o, (Point.ocr job o).carries job.documentId := fun o => beq_self_eq_true _
  have hnext : v'.positions i = some ⟨owner, (Point.ocr job o).next cmd r⟩ := by rw [hv, View.place_self]
  have hrec : v'.record = w.record := by rw [hv, View.place_record]
  have hjobs : v'.jobs = w.jobs := by rw [hv, View.place_jobs]
  have lost : ∀ e, answer = .throws e → w = v → (Point.ocr job o).outside → (Point.ocr job o).next cmd r = .lost →
      v'.Tended _ := fun e he hw hout hl => by
    rw [hl] at hnext
    exact lost_tended hs h hi howner rfl (hcarry o) (mid_congr (by rw [hrec, hw]) hm) hgive he hout hnext
      (by rw [hjobs, hw])
  cases hall
  cases o with
  | read =>
    rcases r with e | _ | row
    · obtain ⟨hw, he | ⟨-, hn⟩⟩ := heff.refused
      · exact lost e he hw rfl rfl
      · exact absurd trivial hn
    · obtain ⟨-, -, -, -, hret⟩ := heff.committed
      obtain ⟨rec, hr, ht⟩ := hown
      have := hret rfl
      simp [hr, ht, Option.filter] at this
    · exact .inl ⟨i, _, hnext, hcarry _⟩
  | claim row =>
    rcases heff.update hown with ⟨e, he, rfl, hw⟩ | ⟨rec, -, rfl, -⟩
    · exact lost e he hw rfl rfl
    · exact .inl ⟨i, _, hnext, hcarry (.download row)⟩
  | download row => rcases r with e | b <;> exact .inl ⟨i, _, hnext, hcarry _⟩
  | recognise row buffer => rcases r with e | b <;> exact .inl ⟨i, _, hnext, hcarry _⟩
  | save row x => rcases r with e | b <;> exact .inl ⟨i, _, hnext, hcarry _⟩
  | report row x => rcases r with e | b <;> exact .inl ⟨i, _, hnext, hcarry _⟩
  | enqueue row =>
    rcases r with e | u
    · exact .inl ⟨i, _, hnext, hcarry .recover⟩
    · have hex : answer = .execute ∧ w = v.add (extractionJobId job.documentId job.processingRunId)
          { job with tenantId := row.tenantId } := by
        cases answer with
        | throws e => cases heff.1
        | _ => exact ⟨heff.1, heff.2.2⟩
      obtain ⟨rfl, rfl⟩ := hex
      cases hold : v.jobs (extractionJobId job.documentId job.processingRunId) with
      | none =>
        refine .inr ⟨extractionJobId job.documentId job.processingRunId, job.processingRunId,
          ⟨{ job with tenantId := row.tenantId }, .waiting, 0⟩, rfl, ?_, .inl rfl⟩
        rw [hjobs, View.add_jobs, if_pos rfl, hold]
        rfl
      | some old =>
        refine handled_step hs h rfl hold ?_ (.inl ⟨_, rfl⟩)
        by_contra hno
        refine hadd ⟨i, _, job, row, old, rfl, hi, rfl, rfl, ?_, hold, hno⟩
        exact mid_congr (by rw [hrec, View.add_record]) hm
  | recover =>
    rcases heff.update hown with ⟨e, he, rfl, hw⟩ | ⟨rec, -, rfl, -, hw⟩
    · exact lost e he hw rfl rfl
    · exact absurd hm (not_mid (hrec.trans hw) rfl)

private theorem extraction_tended {owner : Owner} {job : JobData} {e : ExtractionPoint} (hs : Standing d v)
    (h : Move d v (.step i answer) v') (hi : v.positions i = some ⟨owner, .extraction job e⟩)
    (hd : job.documentId = d) (hcar : e.carries) (hall : (Point.extraction job e).allows cmd)
    (heff : Effect d v cmd answer r w) (hv : v' = w.place i (some ⟨owner, (Point.extraction job e).next cmd r⟩))
    (hgive : ¬ GivesUp d v (.step i answer)) (hm : v'.Mid) : v'.Tended d := by
  have hown := extraction_owned hs.orderly hi rfl hd
  have howner : owner = .job (.extraction job.documentId job.processingRunId) job := hs.orderly.points i _ hi
  subst hd
  have hcarry : ∀ e, e.carries → (Point.extraction job e).carries job.documentId := fun e he => by
    simp [Point.carries, he]
  have hnext : v'.positions i = some ⟨owner, (Point.extraction job e).next cmd r⟩ := by rw [hv, View.place_self]
  have hrec : v'.record = w.record := by rw [hv, View.place_record]
  have lost : ∀ e', answer = .throws e' → w = v → (Point.extraction job e).outside →
      (Point.extraction job e).next cmd r = .lost → v'.Tended _ := fun e' he hw hout hl => by
    rw [hl] at hnext
    exact lost_tended hs h hi howner rfl (hcarry e hcar) (mid_congr (by rw [hrec, hw]) hm) hgive he hout hnext
      (by rw [hv, View.place_jobs, hw])
  have on : ∀ e', (Point.extraction job e).next cmd r = .extraction job e' → e'.carries → v'.Tended _ :=
    fun e' he hc => .inl ⟨i, _, hnext, by rw [he]; exact hcarry e' hc⟩
  cases hall
  cases e with
  | reportRefusal _ | reportParked _ | report _ _ | conclude _ _ | notify _ | reportFailure _ => cases hcar
  | read =>
    rcases r with e | _ | ⟨row, extraction⟩
    · obtain ⟨hw, he | ⟨-, hn⟩⟩ := heff.refused
      · exact lost e he hw rfl rfl
      · exact absurd trivial hn
    · obtain ⟨-, -, -, -, hret⟩ := heff.committed
      obtain ⟨rec, hr, ht⟩ := hown
      have := hret rfl
      simp [hr, ht, Option.filter] at this
    · rcases Point.next_found job row extraction with ⟨-, -, hdone⟩ | ⟨status, he⟩ | ⟨rawText, he⟩
      · -- A skipped execution has seen a decision, which the same transaction still sees.
        have hsame : w.record = v.record := heff.quiet (by rintro _ ⟨⟩; exact ⟨nofun, nofun⟩)
        obtain ⟨-, -, -, -, hret⟩ := heff.committed
        obtain ⟨rec, hr, ht⟩ := hown
        obtain ⟨rfl, -⟩ : row = rec.row ∧ _ := by simpa [hr, ht, Option.filter] using hret rfl
        exact absurd hm (not_mid ((hrec.trans hsame).trans hr) (by rcases hdone with h | h <;> rw [h] <;> rfl))
      · exact on _ he rfl
      · exact on _ he rfl
  | findTenant rawText =>
    rcases r with e | tenant
    · obtain ⟨hw, he | ⟨-, hn⟩⟩ := heff.refused
      · exact lost e he hw rfl rfl
      · exact absurd trivial hn
    · exact on (.claim rawText tenant) rfl rfl
  | claim rawText tenant =>
    rcases heff.update hown with ⟨e, he, rfl, hw⟩ | ⟨rec, -, rfl, -⟩
    · exact lost e he hw rfl rfl
    · exact on (.classify rawText tenant) rfl rfl
  | refuse status | recover err =>
    rcases heff.update hown with ⟨e, he, rfl, hw⟩ | ⟨rec, -, rfl, -, hw⟩
    · exact lost e he hw rfl rfl
    · exact absurd hm (not_mid (hrec.trans hw) rfl)
  | classify rawText tenant =>
    rcases r with e | x
    · exact on (.recover e) rfl rfl
    · rcases Point.next_classified job tenant rawText x with he | he <;> exact on _ he rfl
  | setType rawText tenant docType =>
    rcases r with e | u
    · exact on (.recover e) rfl rfl
    · exact on (.extract rawText tenant) rfl rfl
  | extract rawText tenant =>
    rcases r with e | x
    · exact on (.recover e) rfl rfl
    · exact on (.insert tenant x) rfl rfl
  | insert tenant x =>
    rcases r with e | u
    · exact on (.recover e) rfl rfl
    · exact on (.decide tenant x) rfl rfl
  | park x =>
    rcases heff.update hown with ⟨e, -, rfl, -⟩ | ⟨rec, -, rfl, -, hw⟩
    · exact on (.recover e) rfl rfl
    · exact absurd hm (not_mid (hrec.trans hw) rfl)
  | decide tenant x =>
    rcases heff.update hown with ⟨e, -, rfl, -⟩ | ⟨rec, -, rfl, -, hw⟩
    · exact on (.recover e) rfl rfl
    · have hst : isMid (decided tenant x) = false := by unfold decided; split <;> rfl
      exact absurd hm (not_mid (hrec.trans hw) hst)

private theorem added_tended (q : RunId) (hs : Standing d v) (hi : v.positions i = some pos) (hop : pos.opens d q)
    {data : JobData} (hjobs : v'.jobs = (v.add (ocrJobId d q) data).jobs) : v'.Tended d := by
  refine .inr ⟨ocrJobId d q, q, ⟨data, .waiting, 0⟩, rfl, ?_, .inl rfl⟩
  rw [hjobs, View.add_jobs, if_pos rfl, (hs.opened.opening i pos q hi hop).1 _ rfl]
  rfl

private theorem upload_tended {owner : Owner} {p : Upload} {u : UploadPoint} (hs : Standing d v)
    (hi : v.positions i = some ⟨owner, .upload p d u⟩) (hu : u ≠ .insert) (hall : (Point.upload p d u).allows cmd)
    (heff : Effect d v cmd answer r w) (hv : v' = w.place i (some ⟨owner, (Point.upload p d u).next cmd r⟩))
    (hover : ¬ FailsToHandOver d v (.step i answer)) (hm : v'.Mid) : v'.Tended d := by
  have hown : v.owned p.tenantId := (hs.orderly.points i _ hi).2 rfl hu
  have hcarry : ∀ u, u ≠ .insert → (Point.upload p d u).carries d := fun u hu => by simp [Point.carries, hu]
  have hnext : v'.positions i = some ⟨owner, (Point.upload p d u).next cmd r⟩ := by rw [hv, View.place_self]
  have hrec : v'.record = w.record := by rw [hv, View.place_record]
  cases hall
  cases u with
  | insert => exact absurd rfl hu
  | store | key _ | announce =>
    rcases r with e | x <;> exact .inl ⟨i, _, hnext, hcarry _ nofun⟩
  | enqueue =>
    rcases r with e | x
    · exact .inl ⟨i, _, hnext, hcarry .recover nofun⟩
    · have hw : w = v.add (ocrJobId d .initial) { documentId := d, tenantId := p.tenantId } := by
        cases answer with
        | throws e => cases heff.1
        | _ => exact heff.2.2
      exact added_tended .initial hs hi ⟨p, _, rfl⟩ (by rw [hv, View.place_jobs, hw])
  | recover =>
    rcases heff.update hown with ⟨e, rfl, rfl, hw⟩ | ⟨rec, -, rfl, -, hw⟩
    · exact absurd ⟨i, _, e, rfl, hi, mid_congr (by rw [hrec, hw]) hm, .inr ⟨p, rfl⟩⟩ hover
    · exact absurd hm (not_mid (hrec.trans hw) rfl)

private theorem reopen_tended {owner : Owner} {tenantId run : Uuid} (hs : Standing d v)
    (hi : v.positions i = some ⟨owner, .reopen tenantId d run⟩) (hall : (Point.reopen tenantId d run).allows cmd)
    (heff : Effect d v cmd answer r w) (hv : v' = w.place i (some ⟨owner, (Point.reopen tenantId d run).next cmd r⟩))
    (hover : ¬ FailsToHandOver d v (.step i answer)) (hm : v'.Mid) : v'.Tended d := by
  have hrec : v'.record = w.record := by rw [hv, View.place_record]
  cases hall
  cases answer with
  | throws e =>
    obtain ⟨-, hw⟩ := heff
    exact absurd ⟨i, _, e, rfl, hi, mid_congr (by rw [hrec, hw]) hm, .inl ⟨tenantId, run, rfl⟩⟩ hover
  | _ =>
    obtain ⟨-, -, hw⟩ := heff
    exact added_tended (.reprocess run) hs hi (.inr ⟨tenantId, rfl⟩) (by rw [hv, View.place_jobs, hw])

/-- The step of a process that does not carry `d`: it leaves the status, writes a final
one, or goes on to carry `d`. -/
private theorem idle_status {owner : Owner} {pt : Point} (hp : v.placed d owner pt) (hc : pt.carries d = false)
    (hall : pt.allows cmd) (heff : Effect d v cmd answer r w) :
    w.record.map (·.row.status) = v.record.map (·.row.status) ∨ ¬ w.Mid ∨ (pt.next cmd r).carries d := by
  have foreign : pt.Foreign d → w.record.map (·.row.status) = v.record.map (·.row.status) := fun hf => by
    rw [foreign_quiet hf hall heff]
  cases pt with
  | aside =>
    refine .inl (heff.status_kept ?_)
    rintro t rfl
    cases t with
    | insertDocument _ _ => cases hall
    | updateDocument _ _ _ | approve _ _ _ | reject _ _ _ _ | reprocess _ _ _ => cases hall
    | _ => exact ⟨rfl, by rintro _ ⟨⟩⟩
  | lost => cases hall
  | upload p id u =>
    by_cases hd : id = d
    · subst hd
      obtain rfl : u = .insert := by simpa [Point.carries] using hc
      cases hall
      rcases r with e | _ | row
      · exact .inl (by rw [heff.refused.1])
      · obtain ⟨-, -, -, -, row, he, -⟩ := heff.committed
        cases he
      · exact .inr (.inr (by simp [Point.next, UploadPoint.next, UploadPoint.command, Point.carries]))
    · exact .inl (foreign hd)
  | review t =>
    obtain ⟨call, -, hstart⟩ := hp
    cases hall
    rcases heff.commit_cases (by rintro p rfl; cases call <;> cases hstart) with he | ⟨now, rec, hrec, he⟩
    · exact .inl (by rw [he])
    · cases call <;> cases hstart
      all_goals first
        | exact .inr (.inl (not_mid he rfl))
        | exact .inl (by rw [he, hrec]; rfl)
  | reset tid d' actorId run =>
    cases hall
    rcases r with e | res
    · exact .inl (by rw [heff.refused.1])
    · by_cases hd : d' = d
      · exact .inr (.inr (beq_iff_eq.2 hd))
      · exact .inl (by rw [heff.quiet (by rintro _ ⟨⟩; exact ⟨fun h => hd (Option.some.inj h), by rintro _ ⟨⟩⟩)])
  | reopen tid d' run => cases hall; exact .inl (by rw [heff.quiet (by rintro _ ⟨⟩)])
  | ocr job o =>
    exact .inl (foreign (beq_eq_false_iff_ne.1 hc))
  | extraction job e =>
    by_cases hd : job.documentId = d
    · have hc : e.carries = false := by simpa [Point.carries, hd] using hc
      cases hall
      refine .inl (heff.status_kept ?_)
      cases e <;> cases hc <;> rintro _ ⟨⟩ <;> exact ⟨rfl, by rintro _ ⟨⟩⟩
    · exact .inl (foreign hd)

private theorem process_tended {owner : Owner} {pt : Point} (hs : Standing d v) (h : Move d v (.step i answer) v')
    (hi : v.positions i = some ⟨owner, pt⟩) (hall : pt.allows cmd) (heff : Effect d v cmd answer r w)
    (hv : v' = w.place i (some ⟨owner, pt.next cmd r⟩)) (ht : v.Mid → v.Tended d)
    (hover : ¬ FailsToHandOver d v (.step i answer)) (hgive : ¬ GivesUp d v (.step i answer))
    (hadd : ¬ AddIgnored d v (.step i answer)) (hm : v'.Mid) : v'.Tended d := by
  by_cases hc : pt.carries d
  · cases pt with
    | aside | lost | review _ | reset _ _ _ _ => cases hc
    | upload p id u =>
      simp only [Point.carries, Bool.and_eq_true, beq_iff_eq, bne_iff_ne] at hc
      obtain ⟨rfl, hu⟩ := hc
      exact upload_tended hs hi hu hall heff hv hover hm
    | reopen tid d' run =>
      obtain rfl : d' = d := beq_iff_eq.1 hc
      exact reopen_tended hs hi hall heff hv hover hm
    | ocr job o => exact ocr_tended hs h hi (beq_iff_eq.1 hc) hall heff hv hgive hadd hm
    | extraction job e =>
      simp only [Point.carries, Bool.and_eq_true, beq_iff_eq] at hc
      exact extraction_tended hs h hi hc.1 hc.2 hall heff hv hgive hm
  · have hw : w.Mid := mid_congr (by rw [hv, View.place_record]) hm
    rcases idle_status (hs.orderly.points i _ hi) (Bool.eq_false_iff.2 hc) hall heff with hst | hno | hnext
    · refine tended_kept hs h (ht (mid_congr hst hw)) fun j pos hj hcj => ⟨?_, nofun⟩
      rintro _ ⟨⟩
      obtain rfl := Option.some.inj (hi.symm.trans hj)
      exact hc hcj
    · exact absurd hw hno
    · exact .inl ⟨i, _, by rw [hv, View.place_self], hnext⟩

end Strides

private theorem carries_owner {owner : Owner} {pt : Point} (hp : v.placed d owner pt) (hc : pt.carries d) :
    owner.documentId = some d ∧ ∀ jobId data, owner = .job jobId data → ∃ q, jobId.subject = some (d, q) := by
  cases pt with
  | aside | lost | review _ | reset _ _ _ _ => cases hc
  | upload p id u =>
    simp only [Point.carries, Bool.and_eq_true, beq_iff_eq] at hc
    rw [hp.1, hc.1]
    exact ⟨rfl, nofun⟩
  | reopen tid d' run =>
    obtain ⟨⟨actorId, howner⟩, -⟩ := hp
    rw [howner, beq_iff_eq.1 hc]
    exact ⟨rfl, nofun⟩
  | ocr job o =>
    rw [hp.1, beq_iff_eq.1 hc]
    refine ⟨congrArg some (beq_iff_eq.1 hc), ?_⟩
    rintro _ _ ⟨⟩
    exact ⟨_, rfl⟩
  | extraction job e =>
    simp only [Point.carries, Bool.and_eq_true, beq_iff_eq] at hc
    rw [show owner = _ from hp, hc.1]
    refine ⟨congrArg some hc.1, ?_⟩
    rintro _ _ ⟨⟩
    exact ⟨_, rfl⟩

private theorem crash_tended (hs : Standing d v) (h : Move d v (.crash i) v') (hi : v.positions i = some pos)
    (hc : pos.point.carries d) {data : JobData} (howner : pos.owner = .job jobId data) (hmid : v.Mid)
    (hgive : ¬ GivesUp d v (.crash i)) : v'.Tended d := by
  obtain ⟨q, hsub⟩ := (carries_owner (hs.orderly.points i pos hi) hc).2 jobId data howner
  have hkept : ∃ job, v.jobs jobId = some job ∧ (job.state = .active i ∨ v.Handled d i job) := by
    by_contra hno
    exact hgive ⟨i, pos, jobId, data, hi, howner, hc, hmid, .inl ⟨rfl, hno⟩⟩
  obtain ⟨job, hj, hact | hh⟩ := hkept
  · cases h
    exact .inr ⟨jobId, q, job, hsub, hj, .inr (.inr ⟨i, hact, .inl (View.place_self v i none)⟩)⟩
  · exact handled_step hs h hsub hj hh (.inr rfl)

theorem tended_step (hr : c.Regular) (ht : (c.view d).Mid → (c.view d).Tended d) (h : step c a = some c')
    (hstop : OnlyWorkersStop c a) (hover : ¬ FailsToHandOver d (c.view d) a) (hgive : ¬ GivesUp d (c.view d) a)
    (hadd : ¬ AddIgnored d (c.view d) a) (hm : (c'.view d).Mid) : (c'.view d).Tended d := by
  have hs := hr.standing d
  have hmove := step_move d hr.valid h
  by_cases hown : ∃ i answer, a = .step i answer
  · obtain ⟨i, answer, rfl⟩ := hown
    obtain ⟨p, -, -, -, -, hp, -⟩ := step_inv h
    have hi : (c.view d).positions i = some p.position := Config.view_position hp
    obtain ⟨cmd, -, r, w, -, hall, heff, hv⟩ := step_effect (d := d) hr h hp
    exact process_tended hs hmove hi hall heff hv ht hover hgive hadd hm
  · have hrec : (c'.view d).record = (c.view d).record :=
      hmove.record_change.resolve_right fun ⟨i, _, _, _, ha, _⟩ => hown ⟨i, _, ha⟩
    have hmid : (c.view d).Mid := mid_congr (by rw [hrec]) hm
    rcases ht hmid with ⟨i, pos, hi, hc⟩ | ⟨jobId, q, job, hsub, hj, hp⟩
    · by_cases hcrash : a = .crash i
      · subst hcrash
        obtain ⟨p, hp, rfl⟩ := Option.map_eq_some_iff.1 hi
        cases howner : p.owner with
        | api call => exact absurd howner (hstop i p call rfl hp)
        | job jobId data => exact crash_tended hs hmove hi hc howner hmid hgive
      · exact carrier_kept hs hmove hi hc (fun answer ha => hown ⟨i, answer, ha⟩) hcrash
    · exact pending_step hs hmove hsub hj hp

private theorem not_stranded (hr : c.Regular) (ht : (c.view d).Mid → (c.view d).Tended d) : NotStranded d c := by
  intro r hrec hmid
  rcases ht ⟨_, congrArg (Option.map (·.row.status)) hrec, hmid⟩ with ⟨i, pos, hi, hc⟩ | ⟨jobId, q, job, hsub, hj, hp⟩
  · obtain ⟨p, hp, rfl⟩ := Option.map_eq_some_iff.1 hi
    exact .inl ⟨i, p, hp, (carries_owner ((hr.standing d).orderly.points i _ hi) hc).1⟩
  · exact .inr ⟨jobId, q, job, hsub, hj, hp.imp_right fun h => h.imp_right fun ⟨k, hact, _⟩ => ⟨k, hact⟩⟩

/-- In every run in which only workers stop, every hand-over to a queue succeeds or is
made up for, and an execution that gives up in the middle of the pipeline leaves its
job to be run again, no document is stranded. -/
theorem never_stranded (tenants : List TenantRow) (users : List UserRow) (d : Uuid) (actions : List Action)
    (h : Along step (fun c a _ => OnlyWorkersStop c a ∧ ¬ FailsToHandOver d (c.view d) a ∧ ¬ GivesUp d (c.view d) a ∧
      ¬ AddIgnored d (c.view d) a) (initial tenants users) actions) :
    Along step (fun _ _ c' => NotStranded d c') (initial tenants users) actions := by
  refine along_of_invariant (I := fun c => c.Regular ∧ ((c.view d).Mid → (c.view d).Tended d)) ?_ ?_
    ⟨initial_regular tenants users, by rintro ⟨s, ⟨⟩, -⟩⟩ h
  · exact fun c a c' hi hc hs =>
      ⟨step_regular c a c' hi.1 hs, tended_step hi.1 hi.2 hs hc.1 hc.2.1 hc.2.2.1 hc.2.2.2⟩
  · exact fun c a c' hi hc hs =>
      not_stranded (step_regular c a c' hi.1 hs) (tended_step hi.1 hi.2 hs hc.1 hc.2.1 hc.2.2.1 hc.2.2.2)

/-- Nothing stops, what throws does so inside a `try` block, and every extraction job
added is new. -/
private def calmStep (c : Config) : Action → Bool
  | .crash _ => false
  | .step i (.throws _) => (c.procs i).all fun p => !p.point.outside &&
      match p.point with
      | .reopen _ _ _ | .upload _ _ .recover => false
      | _ => true
  | .step i .execute => (c.procs i).all fun p =>
      match p.point with
      | .ocr job (.enqueue _) => (c.world.jobs (extractionJobId job.documentId job.processingRunId)).isNone
      | _ => true
  | _ => true

private theorem calmStep_sound (hc : calmStep c a = true) : OnlyWorkersStop c a ∧
    ¬ FailsToHandOver d (c.view d) a ∧ ¬ GivesUp d (c.view d) a ∧ ¬ AddIgnored d (c.view d) a := by
  refine ⟨?_, ?_, ?_, ?_⟩
  · rintro i p call rfl
    cases hc
  · rintro ⟨i, pos, err, rfl, hi, -, hpt⟩
    obtain ⟨p, hp, rfl⟩ := Option.map_eq_some_iff.1 hi
    simp only [calmStep, hp, Option.all_some, Bool.and_eq_true] at hc
    rcases hpt with ⟨t, run, hpt⟩ | ⟨u, hpt⟩ <;> rw [show p.point = _ from hpt] at hc <;> cases hc.2
  · rintro ⟨i, pos, jobId, data, hi, -, -, -, ⟨rfl, -⟩ | ⟨⟨err, rfl⟩, hout, -⟩⟩
    · cases hc
    · obtain ⟨p, hp, rfl⟩ := Option.map_eq_some_iff.1 hi
      simp only [calmStep, hp, Option.all_some, Bool.and_eq_true] at hc
      rw [show p.point.outside = true from hout] at hc
      cases hc.1
  · rintro ⟨i, pos, job, row, old, rfl, hi, hpt, -, -, hold, -⟩
    obtain ⟨p, hp, rfl⟩ := Option.map_eq_some_iff.1 hi
    simp only [calmStep, hp, Option.all_some] at hc
    rw [show p.point = _ from hpt] at hc
    have hold : c.world.jobs (extractionJobId job.documentId job.processingRunId) = some old := hold
    simp [hold] at hc

private def retried : List Action :=
  demoUpload ++ demoFailedOcr ++ demoOcr .initial 22 "text" ++ [.finish 22] ++
    demoExtraction .initial 30 (demoResult 10 (1 / 2)) ++ [.step 30 .execute, .step 30 .execute, .finish 30]

theorem never_stranded_retried : Along step (fun _ _ c' => NotStranded 3 c') demo retried :=
  never_stranded _ _ 3 _ (along_mono (fun _ _ _ => calmStep_sound)
    (by decide +kernel : Along step (fun c a _ => calmStep c a = true) demo retried))

private def unread (id : ProcId) : List Action :=
  [.start id (.ocr 3 .initial) (id + 1), .step id (.throws (.other "connection refused"))]

private def exhausted : List Action :=
  demoUpload ++ unread 20 ++ [.finish 20] ++ unread 22 ++ [.finish 22] ++ unread 24

/-- Three attempts that fail before the `try` block leave an uploaded document without a job. -/
theorem uploaded_stranded : ¬ ∀ (tenants : List TenantRow) (users : List UserRow) (d : Uuid) (actions : List Action),
    Along step (fun c a _ => OnlyWorkersStop c a) (initial tenants users) actions →
      Along step (fun _ _ c' => NotStranded d c') (initial tenants users) actions := by
  intro h
  have hstop : Along step (fun _ a _ => (match a with | .crash _ => false | _ => true) = true) demo
      (exhausted ++ [.finish 24]) := by decide +kernel
  have hnone : (run step demo (exhausted ++ [.finish 24])).map (fun c =>
      (c.issued.all fun i => (c.procs i).isNone, c.issued.all fun u =>
        (c.world.jobs (.ocr 3 (.reprocess u))).isNone && (c.world.jobs (.extraction 3 (.reprocess u))).isNone)) =
      some (true, true) := by decide +kernel
  have hleft : (run step demo (exhausted ++ [.finish 24])).map (fun c =>
      ((c.world.db.record 3).map (·.row.status), decide (3 ∈ c.issued), c.world.jobs (.ocr 3 .initial),
        c.world.jobs (.extraction 3 .initial))) =
      some (some .uploaded, true, some ⟨⟨3, 1, .initial⟩, .failed, 3⟩, none) := by decide +kernel
  obtain ⟨c', hrun, hnone⟩ := Option.map_eq_some_iff.1 hnone
  rw [hrun, Option.map_some, Option.some.injEq, Prod.mk.injEq, Prod.mk.injEq, Prod.mk.injEq] at hleft
  obtain ⟨hprocs, hruns⟩ := Prod.mk.inj hnone
  obtain ⟨hstatus, -, hocr, hext⟩ := hleft
  have hr := run_regular (initial_regular _ _) hrun
  obtain ⟨rec, hrec, hst⟩ := Option.map_eq_some_iff.1 hstatus
  obtain ⟨c, hc, hstep⟩ := run_snoc_some hrun
  have hsome := along_last (h _ _ 3 _ (along_mono (fun c a c' ha => ?_) hstop)) hc hstep rec hrec (by rw [hst]; rfl)
  · rcases hsome with ⟨i, p, hp, -⟩ | ⟨jobId, q, job, hsub, hj, hopen⟩
    · cases (hr.deserted hprocs i).symm.trans hp
    · have hrun' : ∀ u, q ≠ .reprocess u := by
        rintro u rfl
        by_cases hu : u ∈ c'.issued
        · have := List.all_eq_true.1 hruns u hu
          rw [Bool.and_eq_true, Option.isNone_iff_eq_none, Option.isNone_iff_eq_none] at this
          cases jobId <;> cases hsub
          · cases this.1.symm.trans hj
          · cases this.2.symm.trans hj
        · cases (((hr.standing 3).opened.fresh (.reprocess u) hu).1 jobId hsub).symm.trans hj
      cases q with
      | reprocess u => exact hrun' u rfl
      | initial =>
        cases jobId <;> cases hsub
        · obtain rfl := Option.some.inj (hocr.symm.trans hj)
          rcases hopen with ho | ho | ⟨i, ho⟩ <;> cases ho
        · cases hext.symm.trans hj
  · rintro i p call rfl
    cases ha

end
end DocAuto.Pipeline
