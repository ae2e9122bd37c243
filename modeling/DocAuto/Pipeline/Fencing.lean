import DocAuto.Pipeline.Enabled

/-! Fencing: what the jobs of older runs can still do to a document once a reprocess of
it has opened a new run. -/
namespace DocAuto.Pipeline
open Process Database

/-- The part of a record that the stages of a run produce. -/
def Record.produced (r : Record) :
    DocumentStatus × Option String × Option DocType × Option ExtractionRow × List AuditRow :=
  (r.row.status, r.row.rawText, r.row.docType, r.extraction, r.audit.filter (·.newStatus.isSome))

/-- The step changes the status, the text, the type or the extraction of `d`, or its
status-bearing audit rows. -/
def Alters (d : Uuid) (c c' : Config) : Prop :=
  (c'.world.db.record d).map Record.produced ≠ (c.world.db.record d).map Record.produced

/-- A step of an OCR or extraction job of `d` that carries run `q`. -/
def JobStep (d : Uuid) (q : RunId) (c : Config) (a : Action) : Prop :=
  ∃ i answer p jobId job, a = .step i answer ∧ c.procs i = some p ∧ p.owner = .job jobId job ∧
    jobId.subject.isSome ∧ job.documentId = d ∧ job.processingRunId = q

/-- The step commits the transaction of a reprocess of `d` that opens run `run`. -/
def Commits (d run : Uuid) (c : Config) (a : Action) (c' : Config) : Prop :=
  ∃ i p t actorId, a = .step i .execute ∧ c.procs i = some p ∧ p.point = .reset t d actorId run ∧
    c'.status d ≠ c.status d

/-- Run `q` of `d` is older than `run`: its id has been drawn, and its own transaction,
if it has one, is not still to come. -/
def Superseded (d run : Uuid) (c : Config) (q : RunId) : Prop :=
  q ≠ .reprocess run ∧ q.token d ∈ c.issued ∧
    ∀ i p t d' actorId run', c.procs i = some p → p.point = .reset t d' actorId run' → q ≠ .reprocess run'

/-- A job of the run can still be started, an execution of it has a command left, or a
reprocess has still to enqueue its first job. -/
def Live (d : Uuid) (q : RunId) (c : Config) : Prop :=
  (∃ jobId job, jobId.subject = some (d, q) ∧ c.world.jobs jobId = some job ∧
      job.state ≠ .completed ∧ job.state ≠ .failed) ∨
    ∃ i p, c.procs i = some p ∧ (p.owner.runs = some (d, q) ∧ p.point ≠ .aside ∧ p.point ≠ .lost ∨
      ∃ t run, p.point = .reopen t d run ∧ q = .reprocess run)

/-- What one step of a worker can make of a record: it writes status, text and type, it
inserts the extraction where there is none, or it appends an audit row. It never writes
`uploaded` or `rejected`, and what it says about the status has no actor. -/
inductive Worked (r : Record) : Record → Prop where
  | same : Worked r r
  | write (set : DocumentsSet) : set.storageKey = none → set.status ≠ some .uploaded → set.status ≠ some .rejected →
    Worked r (r.set set)
  | extract (row : ExtractionRow) : r.extraction = none → Worked r { r with extraction := some row }
  | log (now : Timestamp) (row : AuditRow) :
    (∀ s, row.newStatus = some s → row.actorId = none ∧ s ≠ .uploaded ∧ s ≠ .rejected) → Worked r (r.log now row)

/-- A step of a job of run `q` does only that to `d`, and leaves the OCR and extraction
jobs of all other runs and documents alone. -/
def Confined (d : Uuid) (q : RunId) (c : Config) (a : Action) (c' : Config) : Prop :=
  JobStep d q c a →
    (∃ r r', c.world.db.record d = some r ∧ c'.world.db.record d = some r' ∧ Worked r r') ∧
      ∀ j, j.subject.isSome → j.subject ≠ some (d, q) → c'.world.jobs j = c.world.jobs j

/-- No step of a job of the runs `older` alters `d`. -/
def Fenced (d : Uuid) (older : RunId → Prop) (c : Config) (a : Action) (c' : Config) : Prop :=
  ∀ q, older q → JobStep d q c a → ¬ Alters d c c'

/-- From the commit of a reprocess on, the runs `older` are fenced off for ever. -/
def FencedOff (d : Uuid) (older : Uuid → Config → RunId → Prop) (c : Config) (a : Action) (c' : Config) : Prop :=
  ∀ run, Commits d run c a c' → ∀ later, Along step (Fenced d (older run c')) c' later

section
variable {c c' : Config} {d run : Uuid} {q : RunId} {a : Action}

private theorem altered_of_status (h : c'.status d ≠ c.status d) : Alters d c c' := by
  intro he
  have hs := congrArg (Option.map Prod.fst) he
  rw [Option.map_map, Option.map_map] at hs
  rw [status_eq, status_eq] at h
  exact h hs

private theorem commits_guard (hr : c.Regular) (h : step c a = some c') (hc : Commits d run c a c') :
    ∃ r, (c.view d).record = some r ∧ (r.row.status = .failed ∨ r.row.status = .rejected) := by
  obtain ⟨i, p, t, actorId, rfl, hp, hpt, hne⟩ := hc
  rw [status_eq, status_eq] at hne
  rcases (step_move d hr.valid h).record_change with he | ⟨j, pos, tx, now, ha, hpos, hall, -, had⟩
  · exact absurd (by rw [he]) hne
  · cases ha
    have hpos' : (c.view d).positions i = some p.position := Config.view_position hp
    obtain rfl := Option.some.inj (hpos'.symm.trans hpos)
    rw [show p.position.point = _ from hpt] at hall
    cases hall
    obtain ⟨r, hrec, -, hg⟩ := had rfl
    exact ⟨r, hrec, hg⟩

private theorem commits_no_upload (hr : c.Regular) (h : step c a = some c') (hc : Commits d run c a c')
    {i : ProcId} {pos : Position} (hi : (c'.view d).positions i = some pos) (p : Upload) (u : UploadPoint) :
    pos.point ≠ .upload p d u := by
  intro hpt
  obtain ⟨r, hrec, hst⟩ := commits_guard hr h hc
  have hnone : ∀ old u, (c.view d).positions i = some old → old.point ≠ .upload p d u := by
    intro old u hold hu
    obtain ⟨-, hins, hrow⟩ := (hr.standing d).born.upload i old p u hold hu
    by_cases hi : u = .insert
    · simp [hins hi] at hrec
    · obtain ⟨r', hr', hs⟩ := hrow hi
      obtain rfl := Option.some.inj (hrec.symm.trans hr')
      simp [hs] at hst
  obtain ⟨j, p', t, actorId, rfl, -⟩ := hc
  rcases (step_move d hr.valid h).position_origin hi with ⟨hold, -⟩ | ⟨call, ha, -⟩ | ⟨k, draw, job, ha, -⟩ |
    ⟨old, answer, cmd, res, w, -, hold, hall, -, rfl, -⟩
  · exact hnone pos u hold hpt
  · cases ha
  · cases ha
  · obtain ⟨u', hu', -⟩ := upload_prev hall hpt
    exact hnone old u' hold hu'

private theorem call_fresh {v v' : View} {i : ProcId} {call : ApiCall} (h : Move d v (.call i call) v') :
    v.fresh (i :: call.draws) := by
  cases h
  assumption

section Confined
variable {v w : View} {cmd : Cmd} {pos : Position} {answer : Answer} {r : Except Failure cmd.Resp}

private theorem decided_cases (tenant : Option TenantRow) (y : ExtractionResult) :
    decided tenant y = .approved ∨ decided tenant y = .pendingReview := by
  unfold decided
  split
  · exact .inl rfl
  · exact .inr rfl

private theorem worker_commit {jobId : JobId} {job : JobData} {t : Tx} {now : Timestamp} {rec : Record}
    (hp : v.placed d pos.owner pos.point) (howner : pos.owner = .job jobId job) (hall : pos.point.allows (.tx t))
    (hd : t.documentId = some d) : Worked rec (t.commit now rec) := by
  obtain ⟨owner, pt⟩ := pos
  cases pt with
  | aside =>
    cases t with
    | writeAuditLog tid row => exact .log now row fun s hs => by cases hall.2.symm.trans hs
    | insertDocument _ _ => cases hall
    | _ => cases (show Tx.documentId _ = none from hall).symm.trans hd
  | lost | reopen _ _ _ => cases hall
  | upload _ _ _ => cases howner.symm.trans hp.1
  | review _ => obtain ⟨call, hc, -⟩ := hp; cases howner.symm.trans hc
  | reset _ _ _ _ => cases howner.symm.trans hp
  | ocr job' o =>
    cases o <;> cases hall <;> first
      | exact .same
      | exact .write _ rfl (by rintro ⟨⟩) (by rintro ⟨⟩)
      | exact .log now _ fun s hs => by cases hs; exact ⟨rfl, by rintro ⟨⟩, by rintro ⟨⟩⟩
  | extraction job' e =>
    cases e with
    | insert tenant y =>
      cases hall
      cases hext : rec.extraction with
      | none => simpa [Tx.commit, hext] using Worked.extract (extractionRow job'.documentId y) hext
      | some x =>
        have hsame : Tx.commit now rec (.insertExtraction job'.tenantId (extractionRow job'.documentId y)) = rec := by
          cases rec
          simp_all [Tx.commit]
        rw [hsame]
        exact .same
    | decide tenant y =>
      cases hall
      refine .write _ rfl ?_ ?_ <;> rcases decided_cases tenant y with h | h <;> simp [h]
    | report tenant y =>
      cases hall
      refine .log now _ fun s hs => ⟨rfl, ?_⟩
      obtain rfl := Option.some.inj hs
      rcases decided_cases tenant y with h | h <;> simp [h]
    | conclude tenant y =>
      cases hall
      refine .log now _ fun s hs => ⟨concludeRow_actorId job' tenant y, ?_⟩
      obtain rfl := Option.some.inj ((concludeRow_newStatus job' tenant y).symm.trans hs)
      rcases decided_cases tenant y with h | h <;> simp [h]
    | _ => cases hall <;> first
      | exact .same
      | exact .write _ rfl (by rintro ⟨⟩) (by rintro ⟨⟩)
      | exact .log now _ fun s hs => by cases hs; exact ⟨rfl, by rintro ⟨⟩, by rintro ⟨⟩⟩

private theorem worker_add {jobId j : JobId} {job data : JobData} (hp : v.placed d pos.owner pos.point)
    (howner : pos.owner = .job jobId job) (hall : pos.point.allows (.queueAdd data j)) : j.subject = jobId.subject := by
  obtain ⟨owner, pt⟩ := pos
  cases pt with
  | aside | lost | review _ | reset _ _ _ _ => cases hall
  | upload _ _ _ => cases howner.symm.trans hp.1
  | reopen _ _ _ => obtain ⟨⟨actorId, ho⟩, -⟩ := hp; cases howner.symm.trans ho
  | ocr job' o => cases o <;> cases hall; cases howner.symm.trans hp.1; rfl
  | extraction job' e => cases e <;> cases hall

private theorem step_confined (hr : c.Regular) (h : step c a = some c') : Confined d q c a c' := by
  rintro ⟨i, answer, p, jobId, job, rfl, hp, howner, hsub, hd, hq⟩
  obtain ⟨⟨d', q'⟩, hsub⟩ := Option.isSome_iff_exists.1 hsub
  obtain ⟨hd', hq', hown⟩ := (hr.standing d).orderly.owners i _ jobId job (Config.view_position hp) howner d' q' hsub
  obtain rfl : d' = d := hd'.symm.trans hd
  obtain rfl : q' = q := hq'.symm.trans hq
  have hplaced : (c.view d').placed d' p.position.owner p.position.point := hr.placed hp
  obtain ⟨cmd, k, r, w, hprog, hall, heff, hv⟩ := step_effect (d := d') hr h hp
  obtain ⟨rec, hrec, ht⟩ := hown rfl
  have hw : c'.world.db.record d' = w.record := congrArg View.record hv
  constructor
  · rcases heff.record with he | ⟨t, now, rfl, -, he, -⟩
    · exact ⟨rec, rec, hrec, hw.trans (he.trans hrec), .same⟩
    · rw [hrec] at he
      rcases Tx.after_cases (d := d') t now rec with hs | ⟨hdoc, -, hs⟩
      · exact ⟨rec, rec, hrec, hw.trans (he.trans hs), .same⟩
      · exact ⟨rec, _, hrec, hw.trans (he.trans hs), worker_commit hplaced howner hall hdoc⟩
  · intro j hj hne
    have hj' : c'.world.jobs j = w.jobs j := congrArg (View.jobs · j) hv
    rcases heff.jobs with he | ⟨data, k, rfl, -, he⟩ | ⟨n, data, he⟩ <;> rw [hj', he]
    · rfl
    · rw [View.add_jobs, if_neg]
      · rfl
      · rintro rfl
        exact hne ((worker_add hplaced howner hall).trans hsub)
    · rw [View.add_jobs, if_neg]
      · rfl
      · rintro rfl
        cases hj

end Confined

section Spent
variable {v w : View}

/-- A run that is drawn, whose jobs are done, and whose executions have no command left. -/
private structure Spent (d : Uuid) (q : RunId) (v : View) : Prop where
  drawn : q.token d ∈ v.issued
  jobs : ∀ j, j.subject = some (d, q) → idle (v.jobs j)
  ended : ∀ i pos, v.positions i = some pos → pos.owner.runs = some (d, q) → pos.point = .aside ∨ pos.point = .lost
  unopened : ∀ i pos, v.positions i = some pos → ¬ pos.opens d q

private theorem Spent.adds (hs : Spent d q v) (ho : Orderly d v) {j : JobId} (hj : j.subject = some (d, q)) {i : ProcId}
    {pos : Position} {data : JobData} (hpos : v.positions i = some pos) : ¬ pos.point.allows (.queueAdd data j) := by
  intro hall
  rcases opens_of_add (ho.points i pos hpos) hall hj with hruns | hopen
  · rcases hs.ended i pos hpos hruns with he | he <;> rw [he] at hall <;> cases hall
  · exact hs.unopened i pos hpos hopen

private theorem spent_step (ho : Orderly d v) (hs : Spent d q v) (h : Move d v a w) : Spent d q w := by
  refine ⟨h.issued hs.drawn, fun j hj => ?_, fun i pos hpos hruns => ?_, fun i pos hpos hopen => ?_⟩
  · rcases idle_step h hj (hs.jobs j hj) fun k pos data _ hk => hs.adds ho hj hk with he | he
    · exact he ▸ hs.jobs j hj
    · exact he ▸ idle_none
  · rcases h.position_origin hpos with ⟨hold, -⟩ | ⟨call, -, -, rfl⟩ | ⟨k, draw, job, rfl, -, -, rfl⟩ |
      ⟨old, answer, cmd, r, w', -, hold, hall, -, rfl, -⟩
    · exact hs.ended i pos hold hruns
    · cases hruns
    · cases h with
      | start hjob hst _ => rcases hs.jobs k hruns _ hjob with h | h <;> rcases hst with h' | h' <;> cases h.symm.trans h'
    · rcases hs.ended i old hold hruns with he | he
      · exact .inl (by rw [he]; rfl)
      · rw [he] at hall
        cases hall
  · rcases h.position_origin hpos with ⟨hold, -⟩ | ⟨call, rfl, -, rfl⟩ | ⟨k, draw, job, -, -, -, rfl⟩ |
      ⟨old, answer, cmd, r, w', -, hold, hall, -, rfl, -⟩
    · exact hs.unopened i pos hold hopen
    · exact absurd hs.drawn ((call_fresh h).1 _ (List.mem_cons_of_mem _ (token_drawn hopen)))
    · cases q <;> cases k <;> simp [Position.opens, Owner.start] at hopen
    · exact hs.unopened i old hold (opens_next hall hopen)

private theorem commits_spent (hr : c.Regular) (h : step c a = some c') (hc : Commits d run c a c')
    (hs : Superseded d run c' q) (hno : ¬ Live d q c') : Spent d q (c'.view d) := by
  obtain ⟨-, hdrawn, hpending⟩ := hs
  refine ⟨hdrawn, fun j hj x hx => ?_, fun i pos hpos hruns => ?_, fun i pos hpos ho => ?_⟩
  · by_contra hcon
    exact hno (.inl ⟨j, x, hj, hx, fun h => hcon (.inl h), fun h => hcon (.inr h)⟩)
  · obtain ⟨p, hp, rfl⟩ := Option.map_eq_some_iff.1 hpos
    by_contra hcon
    exact hno (.inr ⟨i, p, hp, .inl ⟨hruns, fun h => hcon (.inl h), fun h => hcon (.inr h)⟩⟩)
  · obtain ⟨p, hp, rfl⟩ := Option.map_eq_some_iff.1 hpos
    cases q with
    | initial =>
      obtain ⟨u, at_, hu⟩ := ho
      exact commits_no_upload hr h hc hpos u at_ hu
    | reprocess run' =>
      rcases ho with ⟨t, actorId, ho⟩ | ⟨t, ho⟩
      · exact hpending i p t d actorId run' hp ho rfl
      · exact hno (.inr ⟨i, p, hp, .inr ⟨t, run', ho, rfl⟩⟩)

private theorem aside_produced {cmd : Cmd} {answer : Answer} {r : Except Failure cmd.Resp} (hn : cmd.neutral)
    (heff : Effect d v cmd answer r w) : w.record.map Record.produced = v.record.map Record.produced := by
  rcases heff.record with he | ⟨t, now, rfl, -, he, -⟩
  · rw [he]
  cases hrec : v.record with
  | none =>
    rw [he, hrec]
    cases t with
    | insertDocument _ _ => cases hn
    | _ => rfl
  | some rec =>
    rw [he, hrec]
    rcases Tx.after_cases (d := d) t now rec with hs | ⟨hdoc, -, hs⟩ <;> rw [hs]
    cases t with
    | writeAuditLog tid row => simp [Tx.commit, Record.produced, Record.log, hn.2]
    | insertDocument _ _ => cases hn
    | _ => cases (show Tx.documentId _ = none from hn).symm.trans hdoc

/-- What the executions of a spent run still do leaves the document alone. -/
private theorem spent_fenced (hr : c.Regular) (hs : Spent d q (c.view d)) (h : step c a = some c') (hj : JobStep d q c a) :
    ¬ Alters d c c' := by
  obtain ⟨i, answer, p, jobId, job, rfl, hp, howner, hsub, hd, hq⟩ := hj
  obtain ⟨⟨d', q'⟩, hsub⟩ := Option.isSome_iff_exists.1 hsub
  obtain ⟨hd', hq', -⟩ := (hr.standing d).orderly.owners i _ jobId job (Config.view_position hp) howner d' q' hsub
  obtain rfl : d' = d := hd'.symm.trans hd
  obtain rfl : q' = q := hq'.symm.trans hq
  obtain ⟨cmd, k, r, w, hprog, hall, heff, hv⟩ := step_effect (d := d') hr h hp
  have hw : c'.world.db.record d' = w.record := congrArg View.record hv
  have hruns : p.position.owner.runs = some (d', q') := by rw [show p.position.owner = _ from howner]; exact hsub
  rw [Alters, not_not, hw]
  rcases hs.ended i _ (Config.view_position hp) hruns with he | he
  · rw [show p.point = _ from he] at hall
    exact aside_produced hall heff
  · rw [show p.point = _ from he] at hall
    cases hall

end Spent

section Live
variable {i : ProcId} {p : Activity} {job : JobData} {t : Uuid}

/-- The document as a reprocess leaves it. -/
private def Blank (d : Uuid) (c : Config) : Prop :=
  ∃ r, (c.view d).record = some r ∧ r.row.status = .uploaded ∧ r.row.rawText = none ∧ r.extraction = none

/-- Some run leads to a step of a job of run `q` that alters `d`. -/
private abbrev Alterable (d : Uuid) (q : RunId) (c : Config) : Prop :=
  Leads step (fun c a c' => JobStep d q c a ∧ Alters d c c') c

private theorem commits_blank (hr : c.Regular) (h : step c a = some c') (hc : Commits d run c a c') : Blank d c' := by
  obtain ⟨i, p, t, actorId, rfl, hp, hpt, hne⟩ := hc
  rw [status_eq, status_eq] at hne
  rcases (step_move d hr.valid h).record_change with he | ⟨j, pos, tx, now, ha, hpos, hall, he, had⟩
  · exact absurd (by rw [he]) hne
  · cases ha
    obtain rfl := Option.some.inj ((Config.view_position hp).symm.trans hpos)
    rw [show p.position.point = _ from hpt] at hall
    cases hall
    obtain ⟨r, hrec, ht, hg⟩ := had rfl
    rw [hrec, Tx.after_own rfl ht] at he
    exact ⟨_, he, rfl, rfl, rfl⟩

private theorem write_leads {set : DocumentsSet} {s : DocumentStatus} {k : Except Failure Unit → Proc Unit}
    (hr : c.Regular) (hb : Blank d c) (hp : c.procs i = some p) (hc : p.program = .call (.tx (.updateDocument t d set)) k)
    (ho : (c.view d).owned t) (hset : set.status = some s) (hne : s ≠ .uploaded) (hj : JobStep d q c (.step i .execute)) :
    Alterable d q c := by
  obtain ⟨c', p', x, now, h, -, -, -, hrec', -⟩ := executes_next (d := d) hr hp hc trivial
  refine .now h ⟨hj, altered_of_status ?_⟩
  obtain ⟨r, hrec, hst, -⟩ := hb
  obtain ⟨r', hr', ht⟩ := ho
  obtain rfl := Option.some.inj (hrec.symm.trans hr')
  rw [hrec, Tx.after_own (t := .updateDocument t d set) rfl ht.symm] at hrec'
  rw [status_eq, status_eq, hrec', hrec]
  simpa [Tx.commit, Record.set, DocumentsSet.apply, hset, hst] using hne

private theorem log_leads {row : AuditRow} {s : DocumentStatus} {k : Except Failure Unit → Proc Unit} (hr : c.Regular)
    (hp : c.procs i = some p) (hc : p.program = .call (.tx (.writeAuditLog t row)) k) (ho : (c.view d).owned t)
    (hd : row.documentId = d) (ha : row.actorId = none) (hs : row.newStatus = some s)
    (hj : JobStep d q c (.step i .execute)) : Alterable d q c := by
  obtain ⟨r, hrec, ht⟩ := ho
  obtain ⟨c', p', x, now, h, -, -, -, hrec', -⟩ := executes_next (d := d) hr hp hc ⟨ha, hd, r, hrec, ht.symm⟩
  refine .now h ⟨hj, fun he => ?_⟩
  rw [hrec, Tx.after_own (t := .writeAuditLog t row) (congrArg some hd) ht.symm] at hrec'
  have hlogged : c'.world.db.record d = some (r.log now row) := hrec'
  rw [hlogged, show c.world.db.record d = some r from hrec] at he
  simp [Record.produced, Record.log, hs] at he

private theorem ocr_jobStep {o : OcrPoint} (hr : c.Regular) (hp : c.procs i = some p) (hpt : p.point = .ocr job o)
    (answer : Answer) : JobStep job.documentId job.processingRunId c (.step i answer) := by
  have hplaced := hr.placed (d := job.documentId) hp
  rw [hpt] at hplaced
  exact ⟨i, answer, p, _, job, rfl, hp, hplaced.1, rfl, rfl, rfl⟩

private theorem extraction_jobStep {e : ExtractionPoint} (hr : c.Regular) (hp : c.procs i = some p)
    (hpt : p.point = .extraction job e) (answer : Answer) :
    JobStep job.documentId job.processingRunId c (.step i answer) := by
  have hplaced := hr.placed (d := job.documentId) hp
  rw [hpt] at hplaced
  exact ⟨i, answer, p, _, job, rfl, hp, hplaced, rfl, rfl, rfl⟩

private theorem Blank.congr (hb : Blank d c) (he : (c'.view d).record = (c.view d).record) : Blank d c' := by
  obtain ⟨r, hrec, h⟩ := hb
  exact ⟨r, he.trans hrec, h⟩

private theorem ocr_write_leads {o : OcrPoint} {set : DocumentsSet} {s : DocumentStatus} (hr : c.Regular)
    (hb : Blank job.documentId c) (hp : c.procs i = some p) (hpt : p.point = .ocr job o)
    (hcmd : o.command job = .tx (.updateDocument job.tenantId job.documentId set)) (hset : set.status = some s)
    (hne : s ≠ .uploaded) : Alterable job.documentId job.processingRunId c := by
  obtain ⟨k, hc⟩ := ocr_program hr hp hpt
  revert k
  rw [hcmd]
  intro k hc
  exact write_leads hr hb hp hc (ocr_owned (hr.standing _).orderly (Config.view_position hp) hpt rfl) hset hne
    (ocr_jobStep hr hp hpt _)

private theorem extraction_write_leads {e : ExtractionPoint} {set : DocumentsSet} {s : DocumentStatus} (hr : c.Regular)
    (hb : Blank job.documentId c) (hp : c.procs i = some p) (hpt : p.point = .extraction job e)
    (hcmd : e.command job = .tx (.updateDocument job.tenantId job.documentId set)) (hset : set.status = some s)
    (hne : s ≠ .uploaded) : Alterable job.documentId job.processingRunId c := by
  obtain ⟨k, hc⟩ := extraction_program hr hp hpt
  revert k
  rw [hcmd]
  intro k hc
  exact write_leads hr hb hp hc (extraction_owned (hr.standing _).orderly (Config.view_position hp) hpt rfl) hset hne
    (extraction_jobStep hr hp hpt _)

/-- Wherever an OCR execution stands, it can still write a status: by going on, or from its catch block. -/
private theorem ocr_leads {o : OcrPoint} (hr : c.Regular) (hb : Blank job.documentId c) (hp : c.procs i = some p)
    (hpt : p.point = .ocr job o) : Alterable job.documentId job.processingRunId c := by
  cases o with
  | read =>
    obtain ⟨k, hc⟩ := ocr_program hr hp hpt
    obtain ⟨c', p', x, now, h, hp', -, hpt', hrec', hret⟩ := executes_next (d := job.documentId) hr hp hc trivial
    rw [Tx.after_of_ne (by rintro ⟨⟩) (by rintro _ ⟨⟩)] at hrec'
    have hb' := hb.congr hrec'
    obtain ⟨r, hrec, -⟩ := hb
    obtain ⟨r', hr', ht⟩ := ocr_owned (hr.standing _).orderly (Config.view_position hp) hpt rfl
    obtain rfl := Option.some.inj (hrec.symm.trans hr')
    have hx : x = some r.row := by simpa [hrec, ht, Option.filter] using hret rfl
    subst hx
    refine .later h (ocr_write_leads (step_regular _ _ _ hr h) hb' hp' (o := .claim r.row) ?_ rfl rfl (by rintro ⟨⟩))
    rw [hpt', hpt]
    rfl
  | claim row => exact ocr_write_leads hr hb hp hpt rfl rfl (by rintro ⟨⟩)
  | recover => exact ocr_write_leads hr hb hp hpt rfl rfl (by rintro ⟨⟩)
  | _ =>
    obtain ⟨k, hc⟩ := ocr_program hr hp hpt
    obtain ⟨c', p', h, hp', -, hpt', hrec'⟩ := throws_next job.documentId hp hc (.other "refused")
    refine .later h (ocr_write_leads (step_regular _ _ _ hr h) (hb.congr hrec') hp' (o := .recover) ?_ rfl rfl (by rintro ⟨⟩))
    rw [hpt', hpt]
    rfl

private theorem extraction_leads {e : ExtractionPoint} (hr : c.Regular) (hb : Blank job.documentId c)
    (hp : c.procs i = some p) (hpt : p.point = .extraction job e) : Alterable job.documentId job.processingRunId c := by
  have hown := extraction_owned (hr.standing _).orderly (Config.view_position hp) hpt rfl
  cases e with
  | read =>
    obtain ⟨k, hc⟩ := extraction_program hr hp hpt
    obtain ⟨c', p', x, now, h, hp', -, hpt', hrec', hret⟩ := executes_next (d := job.documentId) hr hp hc trivial
    rw [Tx.after_of_ne (by rintro ⟨⟩) (by rintro _ ⟨⟩)] at hrec'
    have hb' := hb.congr hrec'
    obtain ⟨r, hrec, -, htext, hext⟩ := hb
    obtain ⟨r', hr', ht⟩ := hown
    obtain rfl := Option.some.inj (hrec.symm.trans hr')
    have hx : x = some (r.row, r.extraction) := by simpa [hrec, ht, Option.filter] using hret rfl
    subst hx
    refine .later h (extraction_write_leads (step_regular _ _ _ hr h) hb' hp' (e := .refuse r.row.status) ?_ rfl rfl (by rintro ⟨⟩))
    rw [hpt', hpt]
    show ExtractionPoint.found job r.row r.extraction = _
    rw [ExtractionPoint.found, hext, if_neg (by simp), htext]
    rfl
  | findTenant rawText =>
    obtain ⟨k, hc⟩ := extraction_program hr hp hpt
    obtain ⟨c', p', x, now, h, hp', -, hpt', hrec', -⟩ := executes_next (d := job.documentId) hr hp hc trivial
    rw [Tx.after_of_ne (by rintro ⟨⟩) (by rintro _ ⟨⟩)] at hrec'
    refine .later h (extraction_write_leads (step_regular _ _ _ hr h) (hb.congr hrec') hp' (e := .claim rawText x) ?_ rfl
      rfl (by rintro ⟨⟩))
    rw [hpt', hpt]
    rfl
  | refuse _ | claim _ _ | recover _ => exact extraction_write_leads hr hb hp hpt rfl rfl (by rintro ⟨⟩)
  | reportRefusal _ | reportFailure _ =>
    obtain ⟨k, hc⟩ := extraction_program hr hp hpt
    exact log_leads hr hp hc hown rfl rfl rfl (extraction_jobStep hr hp hpt _)
  | _ =>
    -- inside the `try` block, whose catch block writes `failed`
    obtain ⟨k, hc⟩ := extraction_program hr hp hpt
    obtain ⟨c', p', h, hp', -, hpt', hrec'⟩ := throws_next job.documentId hp hc (.other "refused")
    refine .later h (extraction_write_leads (step_regular _ _ _ hr h) (hb.congr hrec') hp'
      (e := .recover (.other "refused")) ?_ rfl rfl (by rintro ⟨⟩))
    rw [hpt', hpt]
    rfl

private theorem waiting_leads {j : JobId} {x : Job} (hr : c.Regular) (hb : Blank d c) (hj : c.world.jobs j = some x)
    (hs : j.subject = some (d, q)) (hst : x.state = .waiting ∨ x.state = .delayed) : Alterable d q c := by
  obtain ⟨id, draw, hfresh⟩ := exists_fresh c
  obtain ⟨hd, hq, -⟩ := (hr.standing d).orderly.jobs j x hj d q hs
  have h : step c (.start id j draw) = some { c.spawn id [draw] (.job j x.data) (processor j x.data draw) with
      world := c.world.setJob j (some { x with state := .active id }) } := by
    simp [step, hj, hst, hfresh]
  refine .later h ?_
  have hr' := step_regular _ _ _ hr h
  have hp := Function.update_self id (some (Activity.mk (.job j x.data) (processor j x.data draw) [])) c.procs
  subst hd hq
  cases j with
  | ocr d' q' => exact ocr_leads hr' hb hp rfl
  | extraction d' q' => exact extraction_leads hr' hb hp rfl
  | webhook n => cases hs

private theorem worker_point {v : View} {d' : Uuid} {owner : Owner} {pt : Point} (hp : v.placed d owner pt)
    (hruns : owner.runs = some (d', q)) : pt = .aside ∨ pt = .lost ∨
      (∃ job o, pt = .ocr job o ∧ job.documentId = d' ∧ job.processingRunId = q) ∨
        ∃ job e, pt = .extraction job e ∧ job.documentId = d' ∧ job.processingRunId = q := by
  cases pt with
  | aside => exact .inl rfl
  | lost => exact .inr (.inl rfl)
  | ocr job o =>
    cases (runs_of_placed hp).symm.trans hruns
    exact .inr (.inr (.inl ⟨job, o, rfl, rfl, rfl⟩))
  | extraction job e =>
    cases (runs_of_placed' hp).symm.trans hruns
    exact .inr (.inr (.inr ⟨job, e, rfl, rfl, rfl⟩))
  | upload _ _ _ => cases (congrArg Owner.runs hp.1).symm.trans hruns
  | review _ => obtain ⟨call, hc, -⟩ := hp; cases (congrArg Owner.runs hc).symm.trans hruns
  | reset _ _ _ _ => cases (congrArg Owner.runs hp).symm.trans hruns
  | reopen _ _ _ => obtain ⟨⟨actorId, hc⟩, -⟩ := hp; cases (congrArg Owner.runs hc).symm.trans hruns

/-- A live run of a document that a reprocess has reset can still alter it. -/
private theorem live_leads (hr : c.Regular) (hb : Blank d c) (hl : Live d q c) : Alterable d q c := by
  rcases hl with ⟨j, x, hs, hj, hdone, hfailed⟩ | ⟨i, p, hp, ⟨hruns, ha, hlost⟩ | ⟨t, run, hpt, rfl⟩⟩
  · cases hst : x.state with
    | waiting => exact waiting_leads hr hb hj hs (.inl hst)
    | delayed => exact waiting_leads hr hb hj hs (.inr hst)
    | completed => exact absurd hst hdone
    | failed => exact absurd hst hfailed
    | active id =>
      have h : step c (.stall j) = some { c with world := c.world.setJob j (some { x with state := .waiting }) } := by
        simp [step, hj, hst]
      refine .later h (waiting_leads (step_regular _ _ _ hr h) hb (Function.update_self _ _ _) hs (.inl rfl))
  · rcases worker_point (hr.placed (d := d) hp) hruns with hpt | hpt | ⟨job, o, hpt, rfl, rfl⟩ | ⟨job, e, hpt, rfl, rfl⟩
    · exact absurd hpt ha
    · exact absurd hpt hlost
    · exact ocr_leads hr hb hp hpt
    · exact extraction_leads hr hb hp hpt
  · obtain ⟨cmd, k, hc, hall⟩ := next_command hr hp (by rw [hpt]; rintro ⟨⟩) (by rw [hpt]; rintro ⟨⟩)
    rw [hpt] at hall
    cases hall
    have hpos := Config.view_position (d := d) hp
    have hnone : c.world.jobs (ocrJobId d (.reprocess run)) = none :=
      ((hr.standing d).opened.opening i _ (.reprocess run) hpos (.inr ⟨t, hpt⟩)).1 _ rfl
    have hexec : (Cmd.queueAdd ⟨d, t, .reprocess run⟩ (ocrJobId d (.reprocess run))).exec .execute c.world =
      some (.ok (), c.world.add (ocrJobId d (.reprocess run)) ⟨d, t, .reprocess run⟩) := rfl
    have h := step_enabled hp hc hexec
    have hj : (c.world.add (ocrJobId d (.reprocess run)) ⟨d, t, .reprocess run⟩).jobs (ocrJobId d (.reprocess run)) =
        some ⟨⟨d, t, .reprocess run⟩, .waiting, 0⟩ := by
      simp [World.add, hnone]
    refine .later h (waiting_leads (step_regular _ _ _ hr h) (hb.congr ?_) hj rfl (.inl rfl))
    exact congrArg (Db.record · d) (World.add_db _ _ _)

end Live

/-- What becomes of an older run when a reprocess of `d` opens run `run`: no later step of it alters the
document unless it is live at that moment, and then every step of it is confined. -/
def RunsFenced (d : Uuid) (c : Config) (a : Action) (c' : Config) : Prop :=
  ∀ run, Commits d run c a c' → ∀ q, Superseded d run c' q →
    ((∀ later, Along step (Fenced d (· = q)) c' later) ↔ ¬ Live d q c') ∧
      ∀ later, Along step (Confined d q) c' later

/-- A reprocess fences off exactly those older runs of which nothing is live when it commits. -/
theorem superseded_runs (tenants : List TenantRow) (users : List UserRow) (d : Uuid) (actions : List Action) :
    Along step (RunsFenced d) (initial tenants users) actions := by
  refine along_of_inductive step_regular (fun c a c' hr h run hc q hs => ⟨⟨fun hfenced hl => ?_, fun hno later => ?_⟩,
    fun later => ?_⟩) (initial_regular tenants users)
  · refine along_not_iff_leads.1 (fun later => along_mono (fun e b e' hf => ?_) (hfenced later))
      (live_leads (step_regular c a c' hr h) (commits_blank hr h hc) hl)
    exact fun ⟨hj, ha⟩ => hf q rfl hj ha
  · refine along_of_inductive (I := fun e => e.Regular ∧ Spent d q (e.view d))
      (fun e b e' he hs => ⟨step_regular e b e' he.1 hs, spent_step (he.1.standing d).orderly he.2 (step_move d he.1.valid hs)⟩)
      (fun e b e' he hs q' hq hj => spent_fenced he.1 he.2 hs (hq ▸ hj)) ⟨step_regular c a c' hr h, commits_spent hr h hc hs hno⟩
  · exact along_of_inductive step_regular (fun e b e' he hs => step_confined he hs) (step_regular c a c' hr h)

end

/-- A first OCR attempt that fails, and a reprocess during the back-off of its job. -/
private def reprocessedInBackoff : List Action :=
  demoUpload ++ demoFailedOcr ++ [.call 40 (.reprocess 1 3 2 50)]

private def secondAttempt : List Action := [.start 60 (.ocr 3 .initial) 61, .step 60 .execute]

/-- The three attempts of the job fail before the reprocess. -/
private def reprocessedInTheEnd : List Action :=
  demoUpload ++ [20, 22, 24].flatMap (fun i => [.start i (.ocr 3 .initial) (i + 1), .step i .execute, .step i .execute,
    .step i (.throws (.other "timeout")), .step i .execute, .finish i]) ++ [.call 40 (.reprocess 1 3 2 50)]

private theorem demo_commit (actions : List Action)
    (hbefore : (run step demo actions).map (fun c => (c.status 3, (c.procs 40).map (·.point))) =
      some (some .failed, some (.reset 1 3 2 50)))
    (hafter : (run step demo (actions ++ [.step 40 .execute])).map (fun c => (decide (3 ∈ c.issued), c.status 3)) =
      some (true, some .uploaded)) :
    ∃ c c', run step demo actions = some c ∧ step c (.step 40 .execute) = some c' ∧
      run step demo (actions ++ [.step 40 .execute]) = some c' ∧ Commits 3 50 c (.step 40 .execute) c' ∧
      Superseded 3 50 c' .initial := by
  obtain ⟨c', hc', hafter⟩ := Option.map_eq_some_iff.1 hafter
  obtain ⟨c, hc, hstep⟩ := run_snoc_some hc'
  rw [hc] at hbefore
  simp only [Option.map_some, Option.some.injEq, Prod.mk.injEq, decide_eq_true_eq] at hbefore hafter
  obtain ⟨p, hp, hpt⟩ := Option.map_eq_some_iff.1 hbefore.2
  refine ⟨c, c', hc, hstep, hc', ⟨40, p, 1, 2, rfl, hp, hpt, ?_⟩, by rintro ⟨⟩, hafter.1, by rintro _ _ _ _ _ _ _ _ ⟨⟩⟩
  rw [hbefore.1, hafter.2]
  decide

/-- During the back-off the first run is live, and it is confined; once its attempts are used up it is fenced off. -/
theorem superseded_runs_backoff :
    (∃ c c', run step demo reprocessedInBackoff = some c ∧ step c (.step 40 .execute) = some c' ∧
      (¬ ∀ later, Along step (Fenced 3 (· = .initial)) c' later) ∧
        Along step (Confined 3 .initial) c' (secondAttempt ++ [.step 60 .execute])) ∧
    ∃ c c', run step demo reprocessedInTheEnd = some c ∧ step c (.step 40 .execute) = some c' ∧
      ∀ later, Along step (Fenced 3 (· = .initial)) c' later := by
  constructor
  · obtain ⟨c, c', hc, hstep, hc', hcommit, hsup⟩ := demo_commit reprocessedInBackoff (by decide +kernel)
      (by decide +kernel)
    obtain ⟨hiff, hconfined⟩ := along_last (superseded_runs _ _ 3 _) hc hstep 50 hcommit .initial hsup
    refine ⟨c, c', hc, hstep, fun h => hiff.1 h ?_, hconfined _⟩
    have hjob : (run step demo (reprocessedInBackoff ++ [.step 40 .execute])).map
        (fun c => (c.world.jobs (.ocr 3 .initial)).map (·.state)) = some (some .delayed) := by decide +kernel
    rw [hc', Option.map_some, Option.some.injEq] at hjob
    obtain ⟨job, hj, hst⟩ := Option.map_eq_some_iff.1 hjob
    exact .inl ⟨_, job, rfl, hj, by simp [hst], by simp [hst]⟩
  · obtain ⟨c, c', hc, hstep, hc', hcommit, hsup⟩ := demo_commit reprocessedInTheEnd (by decide +kernel)
      (by decide +kernel)
    obtain ⟨hiff, -⟩ := along_last (superseded_runs _ _ 3 _) hc hstep 50 hcommit .initial hsup
    refine ⟨c, c', hc, hstep, hiff.2 ?_⟩
    have hjobs : (run step demo (reprocessedInTheEnd ++ [.step 40 .execute])).map (fun c =>
        ((c.world.jobs (.ocr 3 .initial)).map (·.state), (c.world.jobs (.extraction 3 .initial)).isNone,
          c.issued.all fun i => (c.procs i).all (·.owner.runs.isNone))) = some (some .failed, true, true) := by decide +kernel
    rw [hc', Option.map_some, Option.some.injEq, Prod.mk.injEq, Prod.mk.injEq, Option.isNone_iff_eq_none] at hjobs
    obtain ⟨hocr, hext, hprocs⟩ := hjobs
    have hr : c'.Regular := run_regular (initial_regular _ _) hc'
    rintro (⟨j, job, hs, hj, -, hne⟩ | ⟨i, p, hp, ⟨hruns, -⟩ | ⟨t, run, -, hq⟩⟩)
    · cases j with
      | ocr d q =>
        cases hs
        rw [hj, Option.map_some, Option.some.injEq] at hocr
        exact hne hocr
      | extraction d q =>
        cases hs
        cases hext.symm.trans hj
      | webhook n => cases hs
    · have hnone := List.all_eq_true.1 hprocs i (hr.drawn hp)
      rw [hp, Option.all_some, hruns] at hnone
      cases hnone
    · cases hq

/-- Nothing holds the jobs of an older run back: after the reprocess the second attempt
of the first run still writes `ocr_processing`. -/
theorem older_run_alters : ¬ ∀ (tenants : List TenantRow) (users : List UserRow) (d : Uuid)
    (actions : List Action), Along step (FencedOff d (Superseded d)) (initial tenants users) actions := by
  intro h
  obtain ⟨c, c', hc, hstep, hc', hcommit, hsup⟩ := demo_commit reprocessedInBackoff (by decide +kernel)
    (by decide +kernel)
  have hretry : (run step demo (reprocessedInBackoff ++ [.step 40 .execute] ++ secondAttempt)).map
      (fun c => (c.status 3, (c.procs 60).map (·.owner))) =
      some (some .uploaded, some (.job (.ocr 3 .initial) ⟨3, 1, .initial⟩)) := by decide +kernel
  have hwrite : (run step demo (reprocessedInBackoff ++ [.step 40 .execute] ++ secondAttempt ++ [.step 60 .execute])).map
      (·.status 3) = some (some .ocrProcessing) := by decide +kernel
  obtain ⟨e', he', hs'⟩ := Option.map_eq_some_iff.1 hwrite
  obtain ⟨e, he, hlast⟩ := run_snoc_some he'
  rw [he, Option.map_some, Option.some.injEq, Prod.mk.injEq] at hretry
  obtain ⟨q, hq, howner⟩ := Option.map_eq_some_iff.1 hretry.2
  rw [run_append, hc', Option.bind_some] at he
  have hfenced := along_last (along_last (h _ _ 3 _) hc hstep 50 hcommit _) he hlast
  refine hfenced .initial hsup ⟨60, .execute, q, _, _, rfl, hq, howner, rfl, rfl, rfl⟩ (altered_of_status ?_)
  rw [hs', hretry.1]
  decide

end DocAuto.Pipeline
