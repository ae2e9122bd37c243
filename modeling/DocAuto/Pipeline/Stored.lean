import DocAuto.Pipeline.Writes

/-! The stored extraction and the decision: on which answer of the model a decision was
taken, and which answer is in the database when it is written. -/
namespace DocAuto.Pipeline
open Process Database

/-- The columns of the row that hold the invoice. -/
def ExtractionRow.invoice (row : ExtractionRow) : ExtractionRow :=
  { row with llmModel := none, inputTokens := none, outputTokens := none }

/-- The row encodes the invoice `x` for document `d`. -/
def Encodes (d : Uuid) (x : InvoiceExtraction) (row : ExtractionRow) : Prop :=
  ExtractionRow.invoice row = ExtractionRow.invoice (extractionRow d ⟨x, "", 0, 0⟩)

instance (d : Uuid) (x : InvoiceExtraction) (row : ExtractionRow) : Decidable (Encodes d x row) :=
  inferInstanceAs (Decidable (_ = _))

theorem encodes_row (d : Uuid) (r : ExtractionResult) : Encodes d r.extraction (extractionRow d r) := rfl

/-- The status write of a decision on `d` finds the row of the decided value. -/
def DecidedOnStored (d : Uuid) (c : Config) (a : Action) (c' : Config) : Prop :=
  ∀ i p job tenant r, a = .step i .execute → c.procs i = some p → p.point = .extraction job (.decide tenant r) →
    job.documentId = d →
    c'.status d = some (decided tenant r) ∧ ∃ row, c'.world.db.extraction d = some row ∧ Encodes d r.extraction row

/-- The insert of an execution is ignored for a row that encodes something else. -/
def KeepsOther (d : Uuid) (c : Config) (a : Action) : Prop :=
  ∃ i p job tenant r row, a = .step i .execute ∧ c.procs i = some p ∧ p.point = .extraction job (.insert tenant r) ∧
    job.documentId = d ∧ c.world.db.extraction d = some row ∧ ¬ Encodes d r.extraction row

/-- A reprocess or an edit changes the stored extraction between the insert and the
status write of an execution. -/
def Displaces (d : Uuid) (c : Config) (a : Action) (c' : Config) : Prop :=
  ∃ i p call, a = .step i .execute ∧ c.procs i = some p ∧ p.owner = .api call ∧
    c'.world.db.extraction d ≠ c.world.db.extraction d ∧
    ∃ j q job tenant r, c.procs j = some q ∧ q.point = .extraction job (.decide tenant r) ∧ job.documentId = d

/-- Every execution that has still to write its decision on `d` finds its value stored. -/
structure Backed (d : Uuid) (v : View) : Prop where
  stored : ∀ i pos job tenant r, v.positions i = some pos → pos.point = .extraction job (.decide tenant r) →
    job.documentId = d → ∃ rec row, v.record = some rec ∧ rec.extraction = some row ∧ Encodes d r.extraction row

section
variable {c c' : Config} {d : Uuid} {a : Action} {v v' : View}

theorem extraction_eq (hs : c.world.db.Sound) : c.world.db.extraction d = (c.view d).record.bind (·.extraction) := by
  have hof := hs.extractionOf
  simp only [Config.view, Db.record]
  cases hd : c.world.db.document d with
  | some row => rfl
  | none =>
    cases he : c.world.db.extraction d with
    | none => rfl
    | some r =>
      have hk : r.documentId = d := Table.key_of_lookup he
      have := hof r (Table.mem_of_lookup he)
      simp [hk, hd] at this

/-- An execution comes to its decision only by its insert. -/
theorem decide_prev {pt : Point} {cmd : Cmd} {r : Except Failure cmd.Resp} {job : JobData}
    {tenant : Option TenantRow} {x : ExtractionResult} (hall : pt.allows cmd)
    (h : pt.next cmd r = .extraction job (.decide tenant x)) :
    pt = .extraction job (.insert tenant x) ∧ ∃ u, r = .ok u := by
  cases pt with
  | aside | lost | review _ => cases h
  | reset t d' actorId run => cases hall; rcases r with e | y <;> cases h
  | reopen t d' run => cases hall; rcases r with e | y <;> cases h
  | upload p id u => cases hall; cases u <;> rcases r with e | _ | _ <;> cases h
  | ocr job' o => rcases ocr_next (r := r) hall with he | he | ⟨o', he⟩ <;> rw [he] at h <;> cases h
  | extraction job' e =>
    cases hall
    cases e <;> rcases r with err | y
    case read.ok =>
      rcases y with _ | ⟨row, extraction⟩
      · cases h
      · rcases Point.next_found job' row extraction with ⟨he, -⟩ | ⟨status, he⟩ | ⟨rawText, he⟩ <;>
          cases he.symm.trans h
    case classify.ok rawText tenant => rcases Point.next_classified job' tenant rawText y with he | he <;> cases he.symm.trans h
    case conclude.ok tenant x => rcases Point.next_concluded job' tenant x y with he | he <;> cases he.symm.trans h
    case insert.ok => cases h; exact ⟨rfl, _, rfl⟩
    all_goals cases h

private theorem displacer_api {pos : Position} {t : Tx} (hp : v.placed d pos.owner pos.point)
    (hall : pos.point.allows (.tx t))
    (ht : (∃ tid d actorId changes, t = .edit tid d actorId changes) ∨ ∃ tid d actorId, t = .reprocess tid d actorId) :
    ∃ call, pos.owner = .api call := by
  obtain ⟨owner, pt⟩ := pos
  cases pt with
  | aside => rcases ht with ⟨_, _, _, _, rfl⟩ | ⟨_, _, _, rfl⟩ <;> cases hall
  | lost | reopen _ _ _ => cases hall
  | upload p id u => exact ⟨_, hp.1⟩
  | review t' => exact ⟨_, hp.choose_spec.1⟩
  | reset _ _ _ _ => exact ⟨_, hp⟩
  | ocr job o => rcases ht with ⟨_, _, _, _, rfl⟩ | ⟨_, _, _, rfl⟩ <;> cases o <;> cases hall
  | extraction job e => rcases ht with ⟨_, _, _, _, rfl⟩ | ⟨_, _, _, rfl⟩ <;> cases e <;> cases hall

theorem backed_step (hr : c.Regular) (hb : Backed d (c.view d)) (h : step c a = some c') (hk : ¬ KeepsOther d c a)
    (hd : ¬ Displaces d c a c') : Backed d (c'.view d) := by
  have hm := step_move d hr.valid h
  refine ⟨fun i pos job tenant r hi hpt hjob => ?_⟩
  rcases hm.position_origin hi with ⟨hold, -⟩ | ⟨call, -, -, rfl⟩ | ⟨j, draw, job', -, -, -, rfl⟩ |
    ⟨old, answer, cmd, res, w, rfl, hold, hall, heff, rfl, hw⟩
  · obtain ⟨rec, row, hrec, hrow, henc⟩ := hb.stored i pos job tenant r hold hpt hjob
    rcases hm.record_change with he | ⟨j, posj, t, now, rfl, hposj, hallj, he, -⟩
    · exact ⟨rec, row, he.trans hrec, hrow, henc⟩
    · rw [hrec] at he
      rcases Tx.after_cases (d := d) t now rec with hs | ⟨-, -, hc⟩
      · exact ⟨rec, row, he.trans hs, hrow, henc⟩
      · refine ⟨_, row, he.trans hc, ?_, henc⟩
        rcases Tx.commit_extraction t now rec with hx | ⟨tid, row', -, hx⟩ | hx
        · exact hx.trans hrow
        · rw [hx, hrow]; rfl
        · by_contra hne
          obtain ⟨q, hq, rfl⟩ := Option.map_eq_some_iff.1 hposj
          obtain ⟨p, hp, rfl⟩ := Option.map_eq_some_iff.1 hold
          obtain ⟨call, howner⟩ := displacer_api ((hr.standing d).orderly.points j _ hposj) hallj hx
          refine hd ⟨j, q, call, rfl, hq, howner, ?_, i, p, job, tenant, r, hp, hpt, hjob⟩
          rw [extraction_eq (step_valid hr.valid h).sound, extraction_eq hr.valid.sound, he, hc, hrec]
          exact fun heq => hne (heq.trans hrow)
  · cases call <;> cases hpt
  · cases j <;> cases hpt
  · obtain ⟨howner, u, rfl⟩ := decide_prev hall hpt
    obtain ⟨owner, pt⟩ := old
    obtain rfl : pt = _ := howner
    cases hall
    have hown := extraction_owned (hr.standing d).orderly hold rfl hjob
    rcases heff.insertExtraction hjob hown with ⟨e, -, he, -⟩ | ⟨rec, rfl, -, hrec, hwrec⟩
    · cases he
    have hrecord : (c'.view d).record = _ := (congrArg View.record hw).trans hwrec
    cases hx : rec.extraction with
    | none => exact ⟨_, extractionRow job.documentId r, hrecord, by simp [hx], hjob ▸ encodes_row _ r⟩
    | some row =>
      refine ⟨_, row, hrecord, by simp [hx], ?_⟩
      by_contra hne
      obtain ⟨p, hp, hpos⟩ := Option.map_eq_some_iff.1 hold
      refine hk ⟨i, p, job, tenant, r, row, rfl, hp, congrArg Position.point hpos, hjob, ?_, hne⟩
      rw [extraction_eq hr.valid.sound, hrec]
      exact hx

private theorem decided_of_backed (hr : c.Regular) (hb : Backed d (c.view d)) (h : step c a = some c') :
    DecidedOnStored d c a c' := by
  rintro i p job tenant r rfl hp hpt hjob
  have hpos : (c.view d).positions i = some p.position := Config.view_position hp
  obtain ⟨cmd, -, res, w, -, hall, heff, hw⟩ := step_effect (d := d) hr h hp
  rw [hpt] at hall hw
  cases hall
  have hown := extraction_owned (hr.standing d).orderly hpos hpt hjob
  obtain ⟨rec, row, hrec, hrow, henc⟩ := hb.stored i _ job tenant r hpos hpt hjob
  subst hjob
  rcases heff.update hown with ⟨e, he, -⟩ | ⟨rec', -, -, hrec', hset⟩
  · cases he
  obtain rfl := Option.some.inj (hrec.symm.trans hrec')
  have hrecord : (c'.view job.documentId).record = some (rec.set { status := some (decided tenant r) }) :=
    (congrArg View.record hw).trans hset
  refine ⟨?_, row, ?_, henc⟩
  · rw [status_eq, hrecord]; rfl
  · rw [extraction_eq (step_valid hr.valid h).sound, hrecord]; exact hrow

/-- In every run in which no insert keeps another answer and no call changes the stored
row before the status write, every decision is taken on the extraction that is stored. -/
theorem decided_on_stored (tenants : List TenantRow) (users : List UserRow) (d : Uuid) (actions : List Action)
    (h : Along step (fun c a c' => ¬ KeepsOther d c a ∧ ¬ Displaces d c a c') (initial tenants users) actions) :
    Along step (DecidedOnStored d) (initial tenants users) actions := by
  refine along_of_invariant (I := fun c => c.Regular ∧ Backed d (c.view d)) ?_ ?_
    ⟨initial_regular tenants users, ⟨by rintro _ _ _ _ _ ⟨⟩⟩⟩ h
  · exact fun c a c' hi hc hs => ⟨step_regular c a c' hi.1 hs, backed_step hi.1 hi.2 hs hc.1 hc.2⟩
  · exact fun c a c' hi _ hs => decided_of_backed hi.1 hi.2 hs

/-- Executions insert where nothing is stored, and calls leave the stored extraction of
document 3 alone. -/
private def undisturbed (c : Config) (a : Action) (c' : Config) : Bool :=
  match a with
  | .step i .execute =>
    (c.procs i).all fun p =>
      (match p.owner with
        | .api _ => c'.world.db.extraction 3 == c.world.db.extraction 3
        | .job _ _ => true) &&
      match p.point with
      | .extraction _ (.insert _ _) => (c.world.db.extraction 3).isNone
      | _ => true
  | _ => true

private theorem undisturbed_sound (h : undisturbed c a c' = true) : ¬ KeepsOther 3 c a ∧ ¬ Displaces 3 c a c' := by
  constructor
  · rintro ⟨i, p, job, tenant, r, row, rfl, hp, hpt, -, hrow, -⟩
    simp [undisturbed, hp, hpt, hrow] at h
  · rintro ⟨i, p, call, rfl, hp, howner, hne, -⟩
    simp [undisturbed, hp, howner, hne] at h

private def approval : List Action :=
  demoUpload ++ demoOcr .initial 20 "text" ++ [.finish 20] ++ demoExtraction .initial 30 (demoResult 10 (99 / 100))

theorem decided_on_stored_approval : Along step (DecidedOnStored 3) demo approval :=
  decided_on_stored _ _ 3 _ (along_mono (fun _ _ _ => undisturbed_sound)
    (by decide +kernel : Along step (fun c a c' => undisturbed c a c' = true) demo approval))

/-- A first attempt that stores a weak answer and fails, and a second one with a strong answer. -/
private def secondAnswer : List Action :=
  demoUpload ++ demoOcr .initial 20 "text" ++ [.finish 20] ++
    (demoExtraction .initial 30 (demoResult 10 (1 / 2))).dropLast ++
    [.step 30 (.throws (.other "connection lost")), .step 30 .execute, .step 30 .execute, .finish 30] ++
    (demoExtraction .initial 32 (demoResult 20 (99 / 100))).dropLast

/-- The insert of a second attempt is ignored: the answer that approves the document is
not the one that is stored. -/
theorem stored_not_decided : ¬ ∀ (tenants : List TenantRow) (users : List UserRow) (d : Uuid)
    (actions : List Action), Along step (DecidedOnStored d) (initial tenants users) actions := by
  intro h
  have hpoint : (run step demo secondAnswer).map (fun c => (c.procs 32).map (·.point)) = some (some
      (.extraction ⟨3, 1, .initial⟩ (.decide demo.world.db.tenants.head? (demoResult 20 (99 / 100))))) := by
    decide +kernel
  have hstored : (run step demo (secondAnswer ++ [.step 32 .execute])).map (fun c =>
      (c.world.db.extraction 3).map fun row => decide (Encodes 3 (demoResult 20 (99 / 100)).extraction row)) =
      some (some false) := by decide +kernel
  obtain ⟨c', hrun, hstored⟩ := Option.map_eq_some_iff.1 hstored
  obtain ⟨c, hc, hstep⟩ := run_snoc_some hrun
  rw [hc, Option.map_some, Option.some.injEq] at hpoint
  obtain ⟨p, hp, hpt⟩ := Option.map_eq_some_iff.1 hpoint
  obtain ⟨-, row, hrow, henc⟩ := along_last (h _ _ 3 _) hc hstep 32 p _ _ _ rfl hp hpt rfl
  simp [hrow, henc] at hstored

end
end DocAuto.Pipeline
