import DocAuto.ReadCommitted.Reviews

/-! Edits under READ COMMITTED: the status is checked by a plain read, and the update goes by
the document id alone. -/
namespace DocAuto.ReadCommitted
open Process Database Pipeline Table

/-- The status a write sets for document `d`. -/
def sets (d : Uuid) : Write → Option DocumentStatus
  | .updateDocument set id => if id = d then set.status else none
  | _ => none

/-- The status a transaction sets for document `d`: the last one among its writes. -/
def statusSet (d : Uuid) : List Write → Option DocumentStatus
  | [] => none
  | w :: ws => (statusSet d ws).or (sets d w)

/-- A transaction that commits has set no other status than `pending_review`. -/
def KeepsReview (d : Uuid) (c : State) (a : Action) (_ : State) : Prop :=
  ∀ id o s, a = .commit id → c.opened id = some o → statusSet d o.writes = some s → s = .pendingReview

/-- The document is under review from the first step on. -/
def InReview (d : Uuid) (start : State) (actions : List Action) : Prop :=
  Along step (fun _ _ c => c.config.status d = some .pendingReview) start actions

/-- `id` has begun an edit of `d`, and is about to read the document. -/
def State.Reading (c : State) (id : ProcId) (d : Uuid) : Prop :=
  ∃ t actorId changes now k,
    c.opened id = some ⟨.edit t d actorId changes, (Tx.edit t d actorId changes).body, [], now, k⟩

section Status
variable {d : Uuid} {c c' : State} {a : Action}

theorem apply_status (db : Db) (w : Write) {row : DocumentRow} (h : db.document d = some row) :
    ∃ row', (w.apply db).document d = some row' ∧ row'.status = (sets d w).getD row.status := by
  cases w with
  | insertDocument new => exact ⟨row, by simpa [Write.apply, Db.document, lookup, List.find?_append] using .inl h, rfl⟩
  | updateDocument set id =>
    by_cases hid : id = d
    · subst hid
      exact ⟨set.apply row, by rw [document_updated, h]; rfl, by simp [sets, DocumentsSet.apply]⟩
    · have hsame : ((Write.updateDocument set id).apply db).document d = db.document d :=
        @applyAll_document d [.updateDocument set id] (by simp [Write.keys, Ne.symm hid]) db
      exact ⟨row, hsame.trans h, by simp [sets, hid]⟩
  | _ => exact ⟨row, h, rfl⟩

theorem applyAll_status (ws : List Write) {db : Db} {row : DocumentRow} (h : db.document d = some row) :
    ∃ row', (applyAll db ws).document d = some row' ∧ row'.status = (statusSet d ws).getD row.status := by
  induction ws generalizing db row with
  | nil => exact ⟨row, h, rfl⟩
  | cons w ws ih =>
    obtain ⟨mid, hmid, hst⟩ := apply_status db w h
    obtain ⟨row', hrow, hlast⟩ := ih hmid
    refine ⟨row', hrow, ?_⟩
    rw [hlast, hst, statusSet]
    cases statusSet d ws <;> rfl

/-- A document under review stays under review exactly in the steps that commit no other status. -/
theorem review_step (hr : c.config.status d = some .pendingReview) (h : step c a = some c') :
    c'.config.status d = some .pendingReview ↔ KeepsReview d c a c' := by
  cases hc : a.committing c with
  | none =>
    have ht : c'.db.documents = c.db.documents :=
      show c'.db.tables.documents = c.db.tables.documents from congrArg Db.documents (uncommitted_tables h hc)
    have hsame : c'.config.status d = c.config.status d := by
      rw [Config.status, show c'.config.world.db.documents = _ from ht]
      rfl
    refine iff_of_true (hsame.trans hr) ?_
    rintro id o s rfl ho -
    simp [Action.committing, ho] at hc
  | some t =>
    cases step_move h with
    | @commit id o x ho hx =>
      obtain ⟨row, hrow, hst⟩ := Option.map_eq_some_iff.1 hr
      obtain ⟨row', hrow', hst'⟩ := applyAll_status o.writes hrow
      have hnew : (c.answer id o (.ok x) (applyAll c.db o.writes)).config.status d = some row'.status :=
        congrArg (Option.map _) hrow'
      rw [hnew, hst', hst, Option.some.injEq]
      constructor
      · rintro hpending _ o' s ⟨⟩ ho' hs
        obtain rfl := Option.some.inj (ho.symm.trans ho')
        rwa [hs] at hpending
      · intro hkeeps
        cases hs : statusSet d o.writes with
        | none => rfl
        | some s => exact hkeeps id o s rfl ho hs
    | _ => cases hc

end Status

section Edit
variable {d : Uuid} {c c' m e : State} {a : Action} {id : ProcId}

/-- An edit that does not read `pending_review` ends with an exception. -/
theorem edit_reads (t actorId : Uuid) (changes : ExtractionEdit) :
    ∃ next, (Tx.edit t d actorId changes).body = .call (.selectDocuments { id := some d, tenantId := some t }) next ∧
      ∀ rows : List DocumentRow, (∀ row ∈ rows.head?, row.status ≠ .pendingReview) → ∃ e, next (.ok rows) = .throw e := by
  refine ⟨_, rfl, fun rows h => ?_⟩
  cases rows with
  | nil => exact ⟨_, rfl⟩
  | cons row rows => exact ⟨_, if_pos (h row rfl)⟩

/-- So does one whose document has left the review before. -/
theorem read_refused (hk : Keyed DocumentRow.id c.db.documents) (hr : c.Reading id d) (h : step c (.statement id) = some c')
    (hst : c'.config.status d ≠ some .pendingReview) : ∃ o e, c'.opened id = some o ∧ o.rest = .throw e := by
  obtain ⟨t, actorId, changes, now, k, ho⟩ := hr
  obtain ⟨next, hbody, hthrow⟩ := edit_reads (d := d) t actorId changes
  cases step_move h with
  | @statement _ o q next' ho' hrest hfree =>
    obtain rfl := Option.some.inj (ho.symm.trans ho')
    cases hbody.symm.trans hrest
    have hread : ∀ row ∈ (Statement.matching ⟨true, t⟩ { id := some d, tenantId := some t } c.db).head?,
        row.status ≠ .pendingReview := by
      rw [matching_id hk]
      intro row hrow hpending
      rw [Option.head?_toList] at hrow
      exact hst ((congrArg (Option.map _) (Option.mem_filter_iff.1 hrow).1).trans (congrArg some hpending))
    obtain ⟨e, he⟩ := hthrow _ hread
    exact ⟨_, e, Function.update_self .., he⟩

/-- A transaction that only has its exception left keeps it until it ends. -/
theorem refusal_kept {o : Open} {x : Failure} (ho : c.opened id = some o) (hx : o.rest = .throw x) (h : step c a = some c')
    (hs : (c'.opened id).isSome) : c'.opened id = some o := by
  cases step_move h with
  | outside _ _ => exact ho
  | @begin j p t k hj _ _ =>
    have hne : id ≠ j := by
      rintro rfl
      rw [ho] at hj
      cases hj
    exact (Function.update_of_ne hne ..).trans ho
  | @statement j o' q k hj hrest _ =>
    have hne : id ≠ j := by
      rintro rfl
      obtain rfl := Option.some.inj (ho.symm.trans hj)
      rw [hx] at hrest
      cases hrest
    exact (Function.update_of_ne hne ..).trans ho
  | @commit j _ _ hj _ | @rollback j _ _ hj _ | @abort j _ _ hj =>
    have hne : id ≠ j := by
      rintro rfl
      simp [State.answer, State.close] at hs
    exact (Function.update_of_ne hne ..).trans ho
  | @crash j =>
    have hne : id ≠ j := by
      rintro rfl
      simp [State.close] at hs
    exact (Function.update_of_ne hne ..).trans ho

theorem begin_reading {t actorId : Uuid} {changes : ExtractionEdit} (h : step c (.begin id) = some c')
    (ht : (c'.opened id).map (·.tx) = some (.edit t d actorId changes)) : c'.Reading id d := by
  cases step_move h with
  | @begin _ p tx k _ _ _ =>
    simp only [Function.update_self, Option.map_some, Option.some.injEq] at ht
    subst ht
    exact ⟨t, actorId, changes, _, k, Function.update_self ..⟩

end Edit

/-- An edit that commits does so in the review in which it has read the document, exactly when no
other transaction has committed another status for the document in between. -/
theorem edits_in_review_iff {tenants : List TenantRow} {users : List UserRow} {before between : List Action}
    {c m e : State} {id : ProcId} {d : Uuid} (hc : run step (initial tenants users) before = some c) (hr : c.Reading id d)
    (hm : run step c (.statement id :: between) = some m)
    (ho : Along step (fun _ _ c' => (c'.opened id).isSome) c (.statement id :: between))
    (he : step m (.commit id) = some e) :
    InReview d c (.statement id :: between) ↔ Along step (KeepsReview d) c (.statement id :: between) := by
  obtain ⟨c', hc', hm'⟩ := run_cons_some hm
  obtain ⟨hopen, hstay⟩ := (along_cons hc').1 ho
  have hs : c.Sane := run_inductive (fun _ _ _ => step_sane) (initial_sane tenants users) hc
  have hpending : c'.config.status d = some .pendingReview := by
    by_contra hst
    obtain ⟨o, x, ho', hx⟩ := read_refused hs.keyed hr hc' hst
    have hend : m.opened id = some o :=
      run_invariant (I := fun c => c.opened id = some o) (fun _ _ _ hi hp h => refusal_kept hi hx h hp) ho' hstay hm'
    cases step_move he with
    | commit ho'' hret =>
      obtain rfl := Option.some.inj (hend.symm.trans ho'')
      rw [hx] at hret
      cases hret
  rw [InReview, along_cons hc', along_cons hc']
  refine and_congr (iff_of_true hpending ?_) ?_
  · rintro _ _ _ ⟨⟩
  · exact along_iff (I := fun c => c.config.status d = some .pendingReview) (fun _ _ _ _ h _ => h)
      (fun _ _ _ hr h => review_step hr h) hpending

section Demo

/-- Document 3 is sent to review with an extraction. -/
private def demoExtracted : List Action :=
  [.outside (.call 10 (.upload ⟨1, 2, "invoice.pdf", "application/pdf", []⟩ 3))] ++ demoTx 10 ++
    [.outside (.step 10 (.text "1/3"))] ++ demoTx 10 ++ demoTx 10 ++
    [.outside (.step 10 .execute), .outside (.finish 10), .outside (.start 20 (.ocr 3 .initial) 21)] ++
    demoTx 20 ++ demoTx 20 ++ [.outside (.step 20 (.bytes [])), .outside (.step 20 (.ocr ⟨"text", 1⟩))] ++
    demoTx 20 ++ demoTx 20 ++
    [.outside (.step 20 .execute), .outside (.finish 20), .outside (.start 30 (.extraction 3 .initial) 31)] ++
    demoTx 30 ++ demoTx 30 ++ demoTx 30 ++ [.outside (.step 30 (.classification ⟨.invoice, 1⟩))] ++ demoTx 30 ++
    [.outside (.step 30 (.extraction (Pipeline.demoResult 10 (1 / 2))))] ++
    demoTx 30 ++ demoTx 30 ++ demoTx 30 ++ demoTx 30 ++
    [.outside (.finish 30)]

private def demoEditing : List Action :=
  demoExtracted ++ [.outside (.call 40 (.edit 1 3 2 { total := some (some 20) }))] ++ [.begin 40]

/-- After the edit has read the document, an approval commits. -/
private def overtaken : List Action :=
  [.outside (.call 41 (.approve 1 3 2)), .begin 41, .statement 41, .statement 41, .statement 41, .commit 41,
    .statement 40, .statement 40, .statement 40]

private theorem editing_reads : ∃ c, run step demo demoEditing = some c ∧ c.Reading 40 3 := by
  have hrun : (run step demo demoEditing).map (fun c => (c.opened 40).map (·.tx)) =
      some (some (.edit 1 3 2 { total := some (some 20) })) := by decide +kernel
  obtain ⟨c, hc, ht⟩ := Option.map_eq_some_iff.1 hrun
  obtain ⟨b, -, hb⟩ := run_snoc_some hc
  exact ⟨c, hc, begin_reading hb ht⟩

/-- The edit commits a change to the extraction of an approved document. -/
theorem approved_edited : ∃ c m e, run step demo demoEditing = some c ∧ c.Reading 40 3 ∧
    run step c (.statement 40 :: overtaken) = some m ∧ step m (.commit 40) = some e ∧
    m.config.status 3 = some .approved ∧ (m.db.extraction 3).map (·.total) = some (some 10) ∧
    (e.db.extraction 3).map (·.total) = some (some 20) := by
  obtain ⟨c, hc, hr⟩ := editing_reads
  have hrun : (run step demo (demoEditing ++ .statement 40 :: overtaken)).map (fun m => (m.config.status 3,
      (m.db.extraction 3).map (·.total), (step m (.commit 40)).map fun e => (e.db.extraction 3).map (·.total))) =
      some (some .approved, some (some 10), some (some (some 20))) := by decide +kernel
  obtain ⟨m, hm, hstate⟩ := Option.map_eq_some_iff.1 hrun
  obtain ⟨hst, hstate⟩ := Prod.mk.inj hstate
  obtain ⟨hold, hnew⟩ := Prod.mk.inj hstate
  obtain ⟨e, he, hnew⟩ := Option.map_eq_some_iff.1 hnew
  rw [run_append, hc, Option.bind_some] at hm
  exact ⟨c, m, e, hc, hr, hm, he, hst, hold, hnew⟩

private def keeps (d : Uuid) (c : State) : Action → Bool
  | .commit id => (c.opened id).all fun o => (statusSet d o.writes).all (· == .pendingReview)
  | _ => true

private theorem keepsReview_of_keeps {d : Uuid} {c c' : State} {a : Action} (h : keeps d c a = true) :
    KeepsReview d c a c' := by
  rintro id o s rfl ho hs
  simpa [keeps, ho, hs] using h

/-- After the edit has read the document, another edit commits. -/
private def shared : List Action :=
  [.outside (.call 42 (.edit 1 3 2 { vendorName := some none })), .begin 42, .statement 42, .statement 42, .statement 42,
    .statement 42, .commit 42, .statement 40, .statement 40, .statement 40]

/-- Both edits commit in the review that the first has read. -/
theorem edits_in_review_shared : ∃ c, run step demo demoEditing = some c ∧ InReview 3 c (.statement 40 :: shared) := by
  obtain ⟨c, hc, hr⟩ := editing_reads
  have hrun : (run step demo demoEditing).map (fun c =>
      ((run step c (.statement 40 :: shared)).map fun m => (step m (.commit 40)).isSome,
        decide (Along step (fun _ _ c' => (c'.opened 40).isSome) c (.statement 40 :: shared)),
        decide (Along step (fun c a _ => keeps 3 c a = true) c (.statement 40 :: shared)))) =
      some (some true, true, true) := by decide +kernel
  rw [hc, Option.map_some, Option.some.injEq] at hrun
  obtain ⟨hend, hchecks⟩ := Prod.mk.inj hrun
  obtain ⟨hopen, hkeeps⟩ := Prod.mk.inj hchecks
  obtain ⟨m, hm, hcommit⟩ := Option.map_eq_some_iff.1 hend
  obtain ⟨e, he⟩ := Option.isSome_iff_exists.1 hcommit
  refine ⟨c, hc, (edits_in_review_iff hc hr hm (of_decide_eq_true hopen) he).2 ?_⟩
  exact along_mono (fun _ _ _ h => keepsReview_of_keeps h) (of_decide_eq_true hkeeps)

end Demo
end DocAuto.ReadCommitted
