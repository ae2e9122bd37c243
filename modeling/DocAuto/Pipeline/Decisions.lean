import DocAuto.Pipeline.Writes

/-! Decisions: in which runs a document that is `approved` or `rejected` stays so. -/
namespace DocAuto.Pipeline
open Process Database

/-- The step is the transaction of a reprocess of `d`. -/
def Reprocesses (d : Uuid) (c : Config) (a : Action) : Prop :=
  ∃ i p t actorId k, a = .step i .execute ∧ c.procs i = some p ∧ p.program = .call (.tx (.reprocess t d actorId)) k

/-- A decision on `d` survives a step: approval for good, rejection until a reprocess. -/
def DecisionKept (d : Uuid) (c : Config) (a : Action) (c' : Config) : Prop :=
  (c.status d = some .approved → c'.status d = some .approved) ∧
    (c.status d = some .rejected →
      c'.status d = some .rejected ∨ c'.status d = some .uploaded ∧ Reprocesses d c a)

/-- The execution has passed its guard, and a status write of it is still to come. -/
def OcrPoint.pastGuard : OcrPoint → Bool
  | .read | .report _ _ | .enqueue _ => false
  | _ => true

def ExtractionPoint.pastGuard : ExtractionPoint → Bool
  | .read | .reportRefusal _ | .reportParked _ | .report _ _ | .conclude _ _ | .notify _ | .reportFailure _ => false
  | _ => true

def Point.pastGuard (d : Uuid) : Point → Bool
  | .ocr job o => job.documentId == d && o.pastGuard
  | .extraction job e => job.documentId == d && e.pastGuard
  | _ => false

/-- The execution has written its last status, inside the `try` block whose catch block writes `failed`. -/
def OcrPoint.exposed : OcrPoint → Bool
  | .report _ _ | .enqueue _ => true
  | _ => false

def ExtractionPoint.exposed : ExtractionPoint → Bool
  | .reportParked _ | .report _ _ | .conclude _ _ | .notify _ => true
  | _ => false

def Point.exposed (d : Uuid) : Point → Bool
  | .ocr job o => job.documentId == d && o.exposed
  | .extraction job e => job.documentId == d && e.exposed
  | _ => false

def Decided (d : Uuid) (c : Config) : Prop := c.status d = some .approved ∨ c.status d = some .rejected

instance (d : Uuid) (c : Config) : Decidable (Decided d c) := inferInstanceAs (Decidable (_ ∨ _))

/-- What the guard of the extraction processor stops at. -/
def Guarded (d : Uuid) (c : Config) : Prop :=
  ∃ r, c.world.db.record d = some r ∧ r.row.status = .approved ∧ r.extraction.isSome

/-- The document is decided while another execution of it is past its guard. -/
def DecidedAmid (d : Uuid) (c : Config) (a : Action) (c' : Config) : Prop :=
  ¬ Decided d c ∧ Decided d c' ∧
    ∃ i p, c.procs i = some p ∧ p.point.pastGuard d ∧ ∀ answer, a ≠ .step i answer

/-- An execution of a decided document passes its guard: the OCR processor has none. -/
def PassesDecided (d : Uuid) (c : Config) (a : Action) : Prop :=
  Decided d c ∧ ∃ i p job, a = .step i .execute ∧ c.procs i = some p ∧ job.documentId = d ∧
    (p.point = .ocr job .read ∨ p.point = .extraction job .read ∧ ¬ Guarded d c)

/-- An execution of a decided document throws after its last status write. -/
def ThrowsDecided (d : Uuid) (c : Config) (a : Action) : Prop :=
  Decided d c ∧ ∃ i p e, a = .step i (.throws e) ∧ c.procs i = some p ∧ p.point.exposed d

section
variable {c c' : Config} {d : Uuid} {a : Action} {v w : View}

private theorem decided_writer (hs : Standing d v) {i : ProcId} {pos : Position} (hpos : v.positions i = some pos)
    {t : Tx} (hall : pos.point.allows (.tx t)) {r : Record} (hr : v.record = some r)
    (hdec : r.row.status = .approved ∨ r.row.status = .rejected) (hd : t.documentId = some d)
    {s : DocumentStatus} (hset : t.statusSet = some s) (had : t.admitted d v.record) :
    (∃ tid actorId, t = .reprocess tid d actorId ∧ r.row.status = .rejected) ∨ pos.point.pastGuard d = true := by
  have hp := hs.orderly.points i pos hpos
  obtain ⟨owner, pt⟩ := pos
  cases pt with
  | aside =>
    cases t with
    | writeAuditLog _ _ => cases hset
    | insertDocument _ _ => cases hall
    | _ => cases (show Tx.documentId _ = none from hall).symm.trans hd
  | lost | reopen _ _ _ => cases hall
  | upload p id u =>
    have hid : id = d := by cases u <;> cases hall <;> cases hd <;> rfl
    subst hid
    obtain ⟨-, hins, hrow⟩ := hs.born.upload i _ p u hpos rfl
    by_cases hu : u = .insert
    · simp [hins hu] at hr
    · obtain ⟨r', hr', hst⟩ := hrow hu
      obtain rfl := Option.some.inj (hr.symm.trans hr')
      simp [hst] at hdec
  | review t' =>
    cases hall
    obtain ⟨call, -, hc⟩ := hp
    obtain ⟨r', hr', -, hg⟩ : ∃ r, v.record = some r ∧ t.tenantId = r.row.tenantId ∧ t.guard r := by
      cases call <;> cases hc <;> exact had hd
    obtain rfl := Option.some.inj (hr.symm.trans hr')
    cases call <;> cases hc <;> simp_all [Tx.guard]
  | reset tid d' actorId run =>
    cases hall
    cases hd
    obtain ⟨r', hr', -, hg⟩ := had rfl
    obtain rfl := Option.some.inj (hr.symm.trans hr')
    exact .inl ⟨tid, actorId, rfl, by rcases hdec with h | h <;> simp_all [Tx.guard]⟩
  | ocr job o =>
    refine .inr ?_
    cases o <;> cases hall <;> first
      | cases hset; done
      | cases hd; simp [Point.pastGuard, OcrPoint.pastGuard]
  | extraction job e =>
    refine .inr ?_
    cases e <;> cases hall <;> first
      | cases hset; done
      | cases hd; simp [Point.pastGuard, ExtractionPoint.pastGuard]

section Guard
variable {i : ProcId} {pos : Position} {pt : Point} {cmd : Cmd} {answer : Answer} {r : Except Failure cmd.Resp} {job : JobData}

private theorem pastGuard_start (owner : Owner) : owner.start.pastGuard d = false := by
  cases owner with
  | api call => cases call <;> rfl
  | job jobId data => cases jobId <;> first | rfl | exact Bool.and_false _

private theorem next_pastGuard (hall : pt.allows cmd) (h : (pt.next cmd r).pastGuard d = true) :
    pt.pastGuard d = true ∨ (pt.exposed d = true ∧ ∃ e, r = .error e) ∨
      ∃ job, job.documentId = d ∧ (pt = .ocr job .read ∨ pt = .extraction job .read) ∧ ∃ x, r = .ok x := by
  cases pt with
  | aside | lost | review _ => cases h
  | upload p id u => cases hall; cases u <;> rcases r with e | _ | _ <;> cases h
  | reset _ _ _ _ | reopen _ _ _ => rcases r with e | u <;> cases h
  | ocr job o =>
    have hd : job.documentId = d := by
      rcases ocr_next (r := r) hall with he | he | ⟨o', he⟩ <;> rw [he] at h
      · cases h
      · cases h
      · exact beq_iff_eq.1 (Bool.and_eq_true_iff.1 h).1
    cases hall
    cases o with
    | read =>
      rcases r with e | x
      · cases h
      · exact .inr (.inr ⟨job, hd, .inl rfl, x, rfl⟩)
    | report document ocr | enqueue document =>
      rcases r with e | x
      · exact .inr (.inl ⟨by simp [Point.exposed, hd, OcrPoint.exposed], e, rfl⟩)
      · simp [Point.next, OcrPoint.next, Point.pastGuard, OcrPoint.pastGuard] at h
    | _ => exact .inl (by simp [Point.pastGuard, hd, OcrPoint.pastGuard])
  | extraction job e =>
    have hd : job.documentId = d := by
      rcases extraction_next (r := r) hall with he | he | ⟨e', he⟩ <;> rw [he] at h
      · cases h
      · cases h
      · exact beq_iff_eq.1 (Bool.and_eq_true_iff.1 h).1
    cases hall
    cases e with
    | read =>
      rcases r with e | x
      · cases h
      · exact .inr (.inr ⟨job, hd, .inr rfl, x, rfl⟩)
    | reportRefusal status | reportFailure err => rcases r with e | x <;> cases h
    | conclude tenant y =>
      rcases r with e | x
      · exact .inr (.inl ⟨by simp [Point.exposed, hd, ExtractionPoint.exposed], e, rfl⟩)
      · rcases Point.next_concluded job tenant y x with he | he <;> rw [he] at h
        · cases h
        · simp [Point.pastGuard, ExtractionPoint.pastGuard] at h
    | reportParked y | report tenant y | notify y =>
      rcases r with e | x
      · exact .inr (.inl ⟨by simp [Point.exposed, hd, ExtractionPoint.exposed], e, rfl⟩)
      · simp [Point.next, ExtractionPoint.next, Point.pastGuard, ExtractionPoint.pastGuard] at h
    | _ => exact .inl (by simp [Point.pastGuard, hd, ExtractionPoint.pastGuard])

/-- After its last status write nothing but a thrown error makes an execution fail. -/
private theorem exposed_throws {e : Failure} (ho : Orderly d v) (hpos : v.positions i = some pos)
    (hx : pos.point.exposed d = true) (hall : pos.point.allows cmd) (heff : Effect d v cmd answer r w)
    (he : r = .error e) : answer = .throws e := by
  subst he
  obtain ⟨owner, pt⟩ := pos
  cases pt with
  | ocr job o =>
    have hd : job.documentId = d := beq_iff_eq.1 (Bool.and_eq_true_iff.1 hx).1
    have hown := ocr_owned ho hpos rfl hd
    cases o with
    | report document ocr =>
      cases hall
      rcases heff.log hd rfl hown with ⟨e', ha, he, -⟩ | ⟨-, -, -, he, -⟩
      · cases he
        exact ha
      · cases he
    | enqueue document =>
      cases hall
      cases answer with
      | throws e' => cases heff.1; rfl
      | _ => cases heff.2.1
    | _ => simp [Point.exposed, OcrPoint.exposed] at hx
  | extraction job x =>
    have hd : job.documentId = d := beq_iff_eq.1 (Bool.and_eq_true_iff.1 hx).1
    have hown := extraction_owned ho hpos rfl hd
    cases x with
    | reportParked y | report tenant y =>
      cases hall
      rcases heff.log hd rfl hown with ⟨e', ha, he, -⟩ | ⟨-, -, -, he, -⟩
      · cases he
        exact ha
      · cases he
    | conclude tenant y =>
      cases hall
      rcases heff.log ((concludeRow_documentId job tenant y).trans hd) (concludeRow_actorId job tenant y) hown with
        ⟨e', ha, he, -⟩ | ⟨-, -, -, he, -⟩
      · cases he
        exact ha
      · cases he
    | notify y =>
      cases hall
      cases answer with
      | throws e' => cases heff.1; rfl
      | _ => cases heff.2.1
    | _ => simp [Point.exposed, ExtractionPoint.exposed] at hx
  | _ => cases hx

private theorem guarded_next (ho : Orderly d v) (hpos : v.positions i = some pos) (hd : job.documentId = d)
    (hpt : pos.point = .extraction job .read) (hall : pos.point.allows cmd) (heff : Effect d v cmd answer r w)
    {rec : Record} (hrec : v.record = some rec) (hs : rec.row.status = .approved) (he : rec.extraction.isSome) :
    (pos.point.next cmd r).pastGuard d = false := by
  obtain ⟨owner, pt⟩ := pos
  obtain rfl : pt = _ := hpt
  obtain ⟨rec', hrec', ht⟩ := extraction_owned ho hpos rfl hd
  obtain rfl := Option.some.inj (hrec.symm.trans hrec')
  cases hall
  rcases r with e | found
  · rfl
  · obtain ⟨-, -, -, -, hret⟩ := heff.committed
    have hfound := hret hd
    simp only [hrec, ht, Option.filter_some, beq_self_eq_true, if_true, Option.map_some] at hfound
    subst hfound
    show (ExtractionPoint.found job rec.row rec.extraction).pastGuard d = false
    rw [ExtractionPoint.found, if_pos ⟨he, .inl hs⟩]
    rfl

private theorem deciding_next {t : Tx} {x : t.Result} {s : DocumentStatus} (hall : pt.allows (.tx t))
    (hset : t.statusSet = some s) (hs : s = .approved ∨ s = .rejected) :
    (pt.next (.tx t) (.ok x)).pastGuard d = false := by
  cases pt with
  | aside | lost | review _ => rfl
  | upload p id u => cases u <;> cases hall <;> cases hset; rcases hs with h | h <;> cases h
  | reset _ _ _ _ => rfl
  | reopen _ _ _ => cases hall
  | ocr job o => cases o <;> cases hall <;> cases hset <;> rcases hs with h | h <;> cases h
  | extraction job e =>
    cases e with
    | decide tenant y =>
      cases hall
      exact Bool.and_false _
    | _ => cases hall <;> cases hset <;> rcases hs with h | h <;> cases h

end Guard

/-- While the document is decided, no execution of it is past its guard. -/
private structure Heeded (d : Uuid) (c : Config) : Prop where
  regular : c.Regular
  guards : Decided d c → ∀ i p, c.procs i = some p → p.point.pastGuard d = false

private theorem deciding_step {pt : Point} {cmd : Cmd} {answer : Answer} {r : Except Failure cmd.Resp}
    (hall : pt.allows cmd) (heff : Effect d v cmd answer r w)
    (hv : ¬ ∃ rec, v.record = some rec ∧ (rec.row.status = .approved ∨ rec.row.status = .rejected))
    (hw : ∃ rec, w.record = some rec ∧ (rec.row.status = .approved ∨ rec.row.status = .rejected)) :
    (pt.next cmd r).pastGuard d = false := by
  rcases heff.record with he | ⟨t, now, rfl, rfl, he, -⟩
  · exact absurd (he ▸ hw) hv
  rcases r with e | x
  · exact absurd (heff.refused.1 ▸ hw) hv
  obtain ⟨rec', hrec', hdec⟩ := hw
  rw [he] at hrec'
  cases hrec : v.record with
  | none =>
    rw [hrec] at hrec'
    cases t with
    | insertDocument p id =>
      simp only [Tx.after] at hrec'
      split at hrec' <;> cases hrec'
      rcases hdec with h | h <;> cases h
    | _ => cases hrec'
  | some rec =>
    obtain ⟨rec'', ha, hsame | ⟨-, -, hset⟩⟩ := Tx.after_status (d := d) t now rec
    all_goals
      rw [hrec, ha] at hrec'
      obtain rfl := Option.some.inj hrec'
    · exact absurd ⟨rec, hrec, hsame ▸ hdec⟩ hv
    · exact deciding_next hall hset hdec

private theorem decided_iff : Decided d c ↔
    ∃ rec, (c.view d).record = some rec ∧ (rec.row.status = .approved ∨ rec.row.status = .rejected) := by
  rw [Decided, status_eq]
  cases (c.view d).record <;> simp

private theorem heeded_step (hc : Heeded d c) (hamid : ¬ DecidedAmid d c a c') (hpass : ¬ PassesDecided d c a)
    (hthrow : ¬ ThrowsDecided d c a) (h : step c a = some c') : Heeded d c' := by
  refine ⟨step_regular c a c' hc.regular h, fun hdec i p' hp' => ?_⟩
  by_contra hcon
  have hg : p'.point.pastGuard d = true := by simpa using hcon
  have ho := (hc.regular.standing d).orderly
  rcases (step_move d hc.regular.valid h).position_origin (Config.view_position hp') with
    ⟨hold, hne⟩ | ⟨call, -, -, he⟩ | ⟨j, draw, job, -, -, -, he⟩ | ⟨pos, answer, cmd, r, w, rfl, hpos, hall, heff, he, hv⟩
  · obtain ⟨p, hp, hpp⟩ := Option.map_eq_some_iff.1 hold
    rw [← show p.point = p'.point from congrArg Position.point hpp] at hg
    by_cases hd : Decided d c
    · cases (hc.guards hd i p hp).symm.trans hg
    · exact hamid ⟨hd, hdec, i, p, hp, hg, hne⟩
  · rw [show p'.point = _ from congrArg Position.point he, pastGuard_start] at hg
    cases hg
  · rw [show p'.point = _ from congrArg Position.point he, pastGuard_start] at hg
    cases hg
  · rw [show p'.point = _ from congrArg Position.point he] at hg
    obtain ⟨p, hp, rfl⟩ := Option.map_eq_some_iff.1 hpos
    by_cases hd : Decided d c
    · rcases next_pastGuard hall hg with hnow | ⟨hx, e, her⟩ | ⟨job, hj, hpt, x, hx⟩
      · cases (hc.guards hd i p hp).symm.trans hnow
      · obtain rfl := exposed_throws ho hpos hx hall heff her
        exact hthrow ⟨hd, i, p, e, rfl, hp, hx⟩
      · have hex : answer = .execute := by
          subst hx
          rcases hpt with hpt | hpt <;> rw [hpt] at hall <;> cases hall <;> exact heff.committed.1
        subst hex
        refine hpass ⟨hd, i, p, job, rfl, hp, hj, hpt.imp_right fun hpt => ⟨hpt, fun ⟨rec, hrec, hs, hext⟩ => ?_⟩⟩
        cases (guarded_next ho hpos hj hpt hall heff hrec hs hext).symm.trans hg
    · have hw : w.record = (c'.view d).record := by rw [hv]; rfl
      rw [deciding_step hall heff (fun hv => hd (decided_iff.2 hv)) (hw ▸ decided_iff.1 hdec)] at hg
      cases hg

/-- Under the invariant a decision is given up only by a reprocess. -/
private theorem heeded_kept (hc : Heeded d c) (h : step c a = some c') : DecisionKept d c a c' := by
  have hkeep : ∀ s, c.status d = some s → (s = .approved ∨ s = .rejected) →
      c'.status d = some s ∨ s = .rejected ∧ c'.status d = some .uploaded ∧ Reprocesses d c a := by
    intro s hs hdec
    have hdecided : Decided d c := hdec.imp (hs.trans <| congrArg some ·) (hs.trans <| congrArg some ·)
    rw [status_eq] at hs
    obtain ⟨rec, hrec, rfl⟩ := Option.map_eq_some_iff.1 hs
    rw [status_eq]
    rcases step_record (d := d) hc.regular.valid h with he | ⟨i, p, t, k, now, rfl, hp, hprog, hall, he, had⟩
    · exact .inl (by simp [he, hrec])
    obtain ⟨rec', ha, hsame | ⟨hd, ht, hset⟩⟩ := Tx.after_status (d := d) t now rec
    · exact .inl (by simp [he, hrec, ha, hsame])
    rcases decided_writer (hc.regular.standing d) (Config.view_position hp) hall hrec hdec hd hset had with
      ⟨tid, actorId, rfl, hrej⟩ | hg
    · rw [he, hrec, ha]
      exact .inr ⟨hrej, hset.symm, i, p, tid, actorId, k, rfl, hp, hprog⟩
    · cases (hc.guards hdecided i p hp).symm.trans hg
  exact ⟨fun hs => (hkeep _ hs (.inl rfl)).resolve_right (by simp), fun hs => (hkeep _ hs (.inr rfl)).imp_right And.right⟩

/-- A decision stands while three things keep off a decided document: other executions that were past their guard
when it was decided, executions that pass their guard after it, and errors after the last status write. -/
theorem decisions_kept (tenants : List TenantRow) (users : List UserRow) (d : Uuid) (actions : List Action)
    (h : Along step (fun c a c' => ¬ DecidedAmid d c a c' ∧ ¬ PassesDecided d c a ∧ ¬ ThrowsDecided d c a)
      (initial tenants users) actions) :
    Along step (DecisionKept d) (initial tenants users) actions := by
  refine along_of_invariant (I := Heeded d) (fun c a c' hc hcond hs => ?_) (fun c a c' hc _ hs => heeded_kept hc hs) ?_ h
  · exact heeded_step hc hcond.1 hcond.2.1 hcond.2.2 hs
  · exact ⟨initial_regular tenants users, fun _ i p hp => by cases hp⟩

/-- Nothing throws, nobody reads a decided document, and a decision finds no other execution past its guard. -/
private def heedfulStep (d : Uuid) (c : Config) (a : Action) (c' : Config) : Bool :=
  match a with
  | .step i .execute =>
    (c.procs i).all (fun p => match p.point with
      | .ocr _ .read | .extraction _ .read => !decide (Decided d c)
      | _ => true) &&
    (decide (Decided d c) || !decide (Decided d c') ||
      c.issued.all fun j => j == i || (c.procs j).all fun p => !p.point.pastGuard d)
  | .step _ (.throws _) => false
  | _ => true

private theorem heedfulStep_sound (hr : c.Regular) (hc : heedfulStep d c a c' = true) (h : step c a = some c') :
    ¬ DecidedAmid d c a c' ∧ ¬ PassesDecided d c a ∧ ¬ ThrowsDecided d c a := by
  refine ⟨?_, ?_, ?_⟩
  · rintro ⟨hno, hdec, j, p, hp, hg, hne⟩
    rcases step_record (d := d) hr.valid h with he | ⟨i, -, -, -, -, rfl, -⟩
    · exact hno (decided_iff.2 (he ▸ decided_iff.1 hdec))
    · simp only [heedfulStep, Bool.and_eq_true, hno, hdec, decide_false, decide_true, Bool.not_true, Bool.false_or,
        List.all_eq_true] at hc
      have hj := hc.2 j (hr.drawn hp)
      rw [hp, Option.all_some, hg, Bool.not_true, Bool.or_false, beq_iff_eq] at hj
      exact hne .execute (by rw [hj])
  · rintro ⟨hdec, i, p, job, rfl, hp, -, hpt⟩
    simp only [heedfulStep, Bool.and_eq_true, hp, Option.all_some] at hc
    rcases hpt with hpt | ⟨hpt, -⟩ <;> simp [hpt, hdec] at hc
  · rintro ⟨-, i, p, e, rfl, -⟩
    cases hc

/-- A rejection, a reprocess, and an approval by the new run. -/
private def rejectedThenApproved : List Action :=
  demoUpload ++ demoOcr .initial 20 "text" ++ [.finish 20] ++ demoExtraction .initial 30 (demoResult 10 (1 / 2)) ++
    [.step 30 .execute, .step 30 .execute, .finish 30, .call 40 (.reject 1 3 2 "wrong total"), .step 40 .execute,
      .step 40 .execute, .step 40 .execute, .finish 40, .call 50 (.reprocess 1 3 2 51), .step 50 .execute,
      .step 50 .execute, .finish 50] ++
    demoOcr (.reprocess 51) 60 "text" ++ [.finish 60] ++
    demoExtraction (.reprocess 51) 70 (demoResult 10 (99 / 100)) ++
    [.step 70 .execute, .step 70 .execute, .step 70 .execute, .finish 70]

theorem decisions_kept_reprocessed : Along step (DecisionKept 3) demo rejectedThenApproved ∧
    (run step demo rejectedThenApproved).map (·.status 3) = some (some .approved) := by
  refine ⟨decisions_kept _ _ 3 _ ?_, by decide +kernel⟩
  exact along_of_invariant (I := Config.Regular) (fun c a c' hr _ => step_regular c a c' hr)
    (fun _ _ _ => heedfulStep_sound) (initial_regular _ _)
    (by decide +kernel : Along step (fun c a c' => heedfulStep 3 c a c' = true) demo rejectedThenApproved)

private def failedNotification : List Action :=
  demoUpload ++ demoOcr .initial 20 "text" ++ [.finish 20] ++ demoExtraction .initial 30 (demoResult 10 (99 / 100)) ++
    [.step 30 .execute, .step 30 .execute, .step 30 (.throws (.other "connection lost"))]

/-- The approval is lost when the webhook job of an approved document cannot be enqueued:
the catch block writes `failed`. -/
theorem approval_overwritten : ¬ ∀ (tenants : List TenantRow) (users : List UserRow) (d : Uuid)
    (actions : List Action), Along step (DecisionKept d) (initial tenants users) actions := by
  intro h
  have hbefore : (run step demo failedNotification).map (·.status 3) = some (some .approved) := by decide +kernel
  have hafter : (run step demo (failedNotification ++ [.step 30 .execute])).map (·.status 3) =
      some (some .failed) := by decide +kernel
  obtain ⟨c', hrun, hafter⟩ := Option.map_eq_some_iff.1 hafter
  obtain ⟨c, hc, hstep⟩ := run_snoc_some hrun
  have hbefore : c.status 3 = some .approved := by simpa [hc] using hbefore
  have hk := (along_last (h _ _ 3 _) hc hstep).1 hbefore
  simp [hafter] at hk

end
end DocAuto.Pipeline
