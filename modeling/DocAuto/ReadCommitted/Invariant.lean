import DocAuto.ReadCommitted.Bodies

/-! What holds in every state of the interleaved system: rows written and not yet committed
are locked, and a transaction in progress is where its body says. -/
namespace DocAuto.ReadCommitted
open Process Database Pipeline Table

/-- Writes to documents and to the audit log. -/
def notable : Write → Bool
  | .insertDocument _ | .updateDocument _ _ | .insertAuditLog _ => true
  | _ => false

/-- What a review transaction has written at a stage. -/
def Review.wrote (r : Review) (ws : List Write) : Stage → Prop
  | .checking => ws.filter notable = []
  | .updated => ws.filter notable = [.updateDocument r.set r.documentId]
  | .logged => ∃ row, row.documentId = r.documentId ∧ row.event = r.event ∧
      ws.filter notable = [.updateDocument r.set r.documentId, .insertAuditLog row]

/-- The committed status of the document is one the review transaction may start from. -/
def Review.ready (r : Review) (db : Db) : Prop :=
  ∃ row, db.document r.documentId = some row ∧ row.status ∈ r.allowed

/-- A transaction in progress, against the committed rows. -/
def Open.Staged (o : Open) (db : Db) : Prop :=
  match review o.tx with
  | some r => ∃ st, (stages r).wp (fun st x => ∀ a, x = .ok a → st = .logged) o.rest st ∧
      r.wrote o.writes st ∧ (st ≠ .checking → r.ready db)
  | none => plain.wp (fun _ x => answered (.tx o.tx) x) o.rest () ∧
      ∀ row, .insertAuditLog row ∈ o.writes → row.event ∉ reviewEvents

structure State.Sane (c : State) : Prop where
  follows : ∀ id p, c.config.procs id = some p → control.wp Point.ends p.program p.point
  serving : ∀ id o, c.opened id = some o → ∃ p, c.config.procs id = some p ∧ p.program = .call (.tx o.tx) o.resume
  keyed : Keyed DocumentRow.id c.db.documents
  views : ∀ id o, c.opened id = some o → Keyed DocumentRow.id (applyAll c.db o.writes).documents
  held : ∀ id o w k, c.opened id = some o → w ∈ o.writes → k ∈ w.keys → c.locks k = some id
  staged : ∀ id o, c.opened id = some o → o.Staged c.db

theorem initial_sane (tenants : List TenantRow) (users : List UserRow) : (initial tenants users).Sane where
  follows := by rintro _ _ ⟨⟩
  serving := by rintro _ _ ⟨⟩
  keyed := List.nodup_nil
  views := by rintro _ _ ⟨⟩
  held := by rintro _ _ _ _ ⟨⟩
  staged := by rintro _ _ ⟨⟩

section Points
variable {pt : Point} {p : Activity} {t : Tx}

private theorem next_review (c : Cmd) (r : Except Failure c.Resp) : pt.next c r ≠ .review t := by
  cases pt with
  | aside | lost | review _ => rintro ⟨⟩
  | upload q id u =>
    change u.next q id c r ≠ _
    unfold UploadPoint.next
    split <;> rintro ⟨⟩
  | reset tid d actorId run => cases r <;> rintro ⟨⟩
  | reopen tid d run => cases r <;> rintro ⟨⟩
  | ocr job o =>
    change o.next job c r ≠ _
    unfold OcrPoint.next
    split <;> rintro ⟨⟩
  | extraction job e =>
    change e.next job c r ≠ _
    unfold ExtractionPoint.next
    split
    all_goals first | rintro ⟨⟩ | skip
    · unfold ExtractionPoint.found
      split
      · rintro ⟨⟩
      · split <;> rintro ⟨⟩
    · split <;> rintro ⟨⟩
    · split <;> rintro ⟨⟩

private theorem point_review (h : p.point = .review t) : p.owner.start = .review t := by
  obtain ⟨owner, program, _ | ⟨e, es⟩⟩ := p
  · exact h
  · exact absurd h (next_review _ _)

private theorem start_review {owner : Owner} {tid : Uuid} {row : AuditRow} :
    owner.start ≠ .review (.writeAuditLog tid row) := by
  cases owner with
  | api call => cases call <;> rintro ⟨⟩
  | job jobId data => cases jobId <;> rintro ⟨⟩

private theorem logs_plain {tid : Uuid} {row : AuditRow} (h : p.point.allows (.tx (.writeAuditLog tid row))) :
    row.event ∉ reviewEvents := by
  have hr : p.point ≠ .review (.writeAuditLog tid row) := fun hp => start_review (point_review hp)
  generalize p.point = pt at h hr
  cases pt with
  | aside => rcases h.1 with he | he <;> simp [he, reviewEvents]
  | lost | reset _ _ _ _ | reopen _ _ _ => cases h
  | review t => cases h; exact absurd rfl hr
  | upload q id u => cases u <;> cases h; simp [uploadRow, reviewEvents]
  | ocr job o => cases o <;> cases h; simp [workerRow, reviewEvents]
  | extraction job e =>
    cases e with
    | conclude tenant r => cases h; rcases concludeRow_event job tenant r with he | he <;> simp [he.2, reviewEvents]
    | _ => cases h <;> simp [workerRow, reviewEvents]

end Points

section Stages
variable {db : Db} {o : Open} {ws : List Write} {r : Review} {st : Stage} {s : Session} {q : Statement}

/-- Only notable writes matter to documents and to the audit log. -/
theorem applyAll_documents (db : Db) (ws : List Write) :
    (applyAll db ws).documents = (applyAll db (ws.filter notable)).documents := by
  have h : ∀ db' : Db, db'.documents = db.documents →
      (applyAll db' ws).documents = (applyAll db (ws.filter notable)).documents := by
    induction ws generalizing db with
    | nil => exact fun db' h => h
    | cons w ws ih =>
      intro db' h
      cases w with
      | insertDocument row => exact ih _ _ (congrArg (· ++ [row]) h)
      | updateDocument set d => exact ih _ _ (congrArg (List.map _) h)
      | _ => exact ih _ _ h
  exact h db rfl

theorem logged_notable (ws : List Write) : (ws.filter notable).filterMap Write.logged = ws.filterMap Write.logged := by
  induction ws with
  | nil => rfl
  | cons w ws ih => cases w <;> simp [notable, Write.logged, List.filterMap_cons, List.filter_cons, ih]

private theorem stages_step (hk : Keyed DocumentRow.id db.documents) (hw : r.wrote o.writes st)
    (ha : (stages r).allowed st q) (hr : st ≠ .checking → r.ready db) :
    r.wrote (o.writes ++ q.writes s (o.view db)) ((stages r).next st q (q.exec s (o.view db)).1) ∧
      ((stages r).next st q (q.exec s (o.view db)).1 ≠ Stage.checking → r.ready db) := by
  cases st with
  | checking =>
    cases q with
    | selectDocuments w => exact ⟨(List.append_nil o.writes).symm ▸ hw, fun h => absurd rfl h⟩
    | deleteExtraction d =>
      refine ⟨?_, fun h => absurd rfl h⟩
      have : ∀ l : List Uuid, (l.map Write.deleteExtraction).filter notable = [] := by simp [notable]
      exact (List.filter_append ..).trans (by rw [show o.writes.filter notable = [] from hw]; exact this _)
    | updateDocuments set w =>
      obtain ⟨rfl, status, hst, rfl⟩ := ha
      have hdoc : (o.view db).documents = db.documents :=
        (applyAll_documents db o.writes).trans (by rw [show o.writes.filter notable = [] from hw]; rfl)
      have hm := @matching_id (o.view db) r.documentId s (hdoc.symm ▸ hk) none (some status)
      rw [show (Statement.updateDocuments r.set _).exec s (o.view db) = (.ok ((Statement.matching s _ _).map _), _)
          from rfl,
        show (Statement.updateDocuments r.set _).writes s (o.view db) = ((Statement.matching s _ _).map _).map _ from rfl, hm]
      cases hf : Option.filter _ ((o.view db).document r.documentId) with
      | none => exact ⟨(List.append_nil o.writes).symm ▸ hw, fun h => absurd rfl h⟩
      | some row =>
        obtain ⟨hrow, hc⟩ := Option.mem_filter_iff.1 hf
        have hid : row.id = r.documentId := key_of_lookup hrow
        have hdb : db.document r.documentId = some row := by rwa [Db.document, hdoc] at hrow
        refine ⟨?_, fun _ => ⟨row, hdb, ?_⟩⟩
        · refine (List.filter_append ..).trans ?_
          rw [show o.writes.filter notable = [] from hw]
          simp [notable, hid]
        · simp only [Bool.and_eq_true, Option.all_some, beq_iff_eq] at hc
          exact hc.2 ▸ hst
    | _ => cases ha
  | updated =>
    cases q with
    | insertAuditLog row =>
      refine ⟨?_, fun _ => hr (by rintro ⟨⟩)⟩
      cases he : ((Statement.insertAuditLog row).exec s (o.view db)).1 with
      | error e =>
        rw [show (Statement.insertAuditLog row).writes s (o.view db) = Statement.ifAdded _ _ from rfl, he]
        exact (List.append_nil o.writes).symm ▸ hw
      | ok u =>
        rw [show (Statement.insertAuditLog row).writes s (o.view db) = Statement.ifAdded _ _ from rfl, he]
        refine ⟨{ row with createdAt := (o.view db).now }, ha.1, ha.2, (List.filter_append ..).trans ?_⟩
        rw [show o.writes.filter notable = _ from hw]
        rfl
    | _ => cases ha
  | logged => cases ha

private theorem logs_of_writes {row : AuditRow} (h : .insertAuditLog row ∈ q.writes s db) :
    ∃ row', q = .insertAuditLog row' ∧ row.event = row'.event := by
  have hadd : ∀ {α : Type} {x : Except Failure α} {w : Write}, .insertAuditLog row ∈ Statement.ifAdded x w →
      w = .insertAuditLog row := by
    intro α x w hw
    cases x with
    | error e => cases hw
    | ok a => exact (List.mem_singleton.1 hw).symm
  cases q with
  | insertAuditLog row' => cases hadd h; exact ⟨row', rfl, rfl⟩
  | insertExtraction row' =>
    simp only [Statement.writes] at h
    split at h
    · cases h
    · cases hadd h
  | insertTenant _ | insertUser _ | insertDocument _ | insertDelivery _ => cases hadd h
  | _ => simp [Statement.writes] at h

private theorem begin_staged {t : Tx} {k : Except Failure t.Result → Proc Unit} {now : Timestamp}
    (ht : ∀ tid row, t = .writeAuditLog tid row → row.event ∉ reviewEvents) :
    Open.Staged ⟨t, t.body, [], now, k⟩ db := by
  unfold Open.Staged
  cases hr : review t with
  | some r => exact ⟨.checking, body_stages hr, rfl, fun h => absurd rfl h⟩
  | none => exact ⟨body_plain hr ht, by rintro _ ⟨⟩⟩

private theorem statement_staged {k : Except Failure q.Resp → Body o.tx.Result}
    (hk : Keyed DocumentRow.id db.documents) (ho : o.Staged db) (hc : o.rest = .call q k) :
    Open.Staged { o with
      rest := k (q.exec s (o.view db)).1, writes := o.writes ++ q.writes s (o.view db) } db := by
  unfold Open.Staged at ho ⊢
  cases hr : review o.tx with
  | some r =>
    simp only [hr] at ho ⊢
    obtain ⟨st, hwp, hw, hready⟩ := ho
    rw [hc] at hwp
    exact ⟨_, hwp.2 _ trivial, stages_step hk hw hwp.1 hready⟩
  | none =>
    simp only [hr] at ho ⊢
    obtain ⟨hwp, hlog⟩ := ho
    rw [hc] at hwp
    refine ⟨hwp.2 _ ?_, fun row hrow => ?_⟩
    · cases q with
      | insertDocument row =>
        simp only [Statement.exec]
        split_ifs
        any_goals trivial
        rintro x hx
        rw [List.mem_singleton.1 hx]
      | _ => cases (Statement.exec s _ (o.view db)).1 <;> trivial
    · rcases List.mem_append.1 hrow with h | h
      · exact hlog row h
      · obtain ⟨row', rfl, he⟩ := logs_of_writes h
        exact he ▸ hwp.1 row' rfl

/-- The stage of a transaction outlives commits that keep the document it has written to. -/
private theorem Open.Staged.congr {db' : Db} (ho : o.Staged db)
    (h : ∀ d, (∃ set, .updateDocument set d ∈ o.writes) → db'.document d = db.document d) : o.Staged db' := by
  unfold Open.Staged at ho ⊢
  cases hr : review o.tx with
  | none => simpa only [hr] using ho
  | some r =>
    simp only [hr] at ho ⊢
    obtain ⟨st, hwp, hw, hready⟩ := ho
    refine ⟨st, hwp, hw, fun hst => ?_⟩
    obtain ⟨row, hrow, hal⟩ := hready hst
    have hmem : .updateDocument r.set r.documentId ∈ o.writes.filter notable := by
      cases st with
      | checking => exact absurd rfl hst
      | updated => exact (show o.writes.filter notable = _ from hw) ▸ List.mem_cons_self
      | logged =>
        obtain ⟨row, -, -, hf⟩ := hw
        exact hf ▸ List.mem_cons_self
    exact ⟨row, (h _ ⟨_, (List.mem_filter.1 hmem).1⟩).trans hrow, hal⟩

private theorem Open.Staged.answered {x : o.tx.Result} (ho : o.Staged db) (hx : o.rest = .ret x) :
    answered (.tx o.tx) (.ok x) := by
  unfold Open.Staged at ho
  cases hr : review o.tx with
  | none =>
    simp only [hr, hx] at ho
    exact ho.1
  | some r =>
    obtain ⟨tx, rest, writes, now, resume⟩ := o
    cases tx with
    | approve _ _ _ | reject _ _ _ _ | reprocess _ _ _ => trivial
    | _ => cases hr

end Stages

section Outside
variable {c : State} {a : Pipeline.Action} {config : Config}

private theorem exec_outside {cmd : Cmd} {answer : Answer} {w w' : World} {r : Except Failure cmd.Resp}
    (h : cmd.exec answer w = some (r, w')) (hc : answer = .execute → ∀ t, cmd ≠ .tx t) :
    answered cmd r ∧ w'.db.tables = w.db.tables := by
  cases cmd with
  | tx t =>
    cases answer with
    | execute => exact absurd rfl (hc rfl t)
    | throws e => cases h; exact ⟨by cases t <;> trivial, rfl⟩
    | _ => cases h
  | queueAdd data jobId =>
    cases answer <;> cases h
    · exact ⟨trivial, congrArg Db.tables (World.add_db w jobId data)⟩
    · exact ⟨trivial, rfl⟩
  | webhookQueueAdd d tid =>
    cases answer <;> cases h
    · exact ⟨trivial, congrArg Db.tables (World.add_db w (.webhook w.serial) _)⟩
    · exact ⟨trivial, rfl⟩
  | _ => cases answer <;> cases h <;> exact ⟨trivial, rfl⟩

private theorem outside_command {id : ProcId} {answer : Answer} {p : Activity} {cmd : Cmd}
    {k : Except Failure cmd.Resp → Proc Unit} (ho : c.outside (.step id answer)) (hp : c.config.procs id = some p)
    (hk : p.program = .call cmd k) : answer = .execute → ∀ t, cmd ≠ .tx t := by
  rintro rfl t rfl
  simp [State.outside, hp, transacting, hk] at ho

theorem outside_tables (ho : c.outside a) (h : Pipeline.step c.config a = some config) :
    config.world.db.tables = c.db.tables := by
  rcases step_tables h with ⟨id, answer, rfl⟩ | ht
  · obtain ⟨p, cmd, k, r, w, hp, hk, he, rfl⟩ := step_inv h
    exact (exec_outside he (outside_command ho hp hk)).2
  · exact ht

/-- A process in the middle of a transaction is left alone. -/
private theorem outside_procs (ho : c.outside a) (h : Pipeline.step c.config a = some config) {id : ProcId}
    (hid : c.opened id ≠ none) : config.procs id = c.config.procs id := by
  refine step_procs h fun ha => hid ?_
  cases a with
  | call i _ | start i _ _ | finish i =>
    cases ha
    simpa [State.outside] using ho
  | step i answer =>
    cases ha
    simp only [State.outside, Bool.and_eq_true, Option.isNone_iff_eq_none] at ho
    exact ho.1
  | crash i => cases ho
  | stall _ | evict _ | tick => cases ha

end Outside

section Step
variable {c c' : State} {a : Action} {id : ProcId} {o : Open}

private theorem documents_of_tables {db db' : Db} (h : db'.tables = db.tables) : db'.documents = db.documents := by
  simp only [Db.tables, Db.mk.injEq] at h
  exact h.2.2.1

private theorem views_congr {db db' : Db} {ws : List Write} (h : db'.documents = db.documents)
    (hk : Keyed DocumentRow.id (applyAll db ws).documents) : Keyed DocumentRow.id (applyAll db' ws).documents := by
  rw [Keyed, applyAll_ids] at hk ⊢
  rwa [h]

private theorem outside_sane {a : Pipeline.Action} {config : Config} (hs : c.Sane) (ho : c.outside a)
    (h : Pipeline.step c.config a = some config) : ({ c with config := config } : State).Sane := by
  have hdoc := documents_of_tables (outside_tables ho h)
  refine ⟨step_follows hs.follows ?_ h, fun id o hid => ?_, ?_, fun id o hid => ?_, hs.held, fun id o hid => ?_⟩
  · rintro id answer p cmd k r w rfl hp hk he
    exact (exec_outside he (outside_command ho hp hk)).1
  · obtain ⟨p, hp, hk⟩ := hs.serving id o hid
    exact ⟨p, (outside_procs ho h (by rw [hid]; nofun)).trans hp, hk⟩
  · exact hdoc ▸ hs.keyed
  · exact views_congr hdoc (hs.views id o hid)
  · exact (hs.staged id o hid).congr fun d _ => by rw [Db.document, Db.document]; exact congrArg _ hdoc

private theorem begin_sane {p : Activity} {t : Tx} {k : Except Failure t.Result → Proc Unit} (hs : c.Sane)
    (hp : c.config.procs id = some p) (hk : p.program = .call (.tx t) k) :
    ({ c with opened := Function.update c.opened id (some ⟨t, t.body, [], c.db.now, k⟩) } : State).Sane := by
  refine ⟨hs.follows, fun j o hj => ?_, hs.keyed, fun j o hj => ?_, fun j o w key hj hw hkey => ?_, fun j o hj => ?_⟩ <;>
    rcases eq_or_ne j id with rfl | hne
  · cases (Function.update_self ..).symm.trans hj
    exact ⟨p, hp, hk⟩
  · exact hs.serving j o ((Function.update_of_ne hne ..).symm.trans hj)
  · cases (Function.update_self ..).symm.trans hj
    exact hs.keyed
  · exact hs.views j o ((Function.update_of_ne hne ..).symm.trans hj)
  · cases (Function.update_self ..).symm.trans hj
    cases hw
  · exact hs.held j o w key ((Function.update_of_ne hne ..).symm.trans hj) hw hkey
  · cases (Function.update_self ..).symm.trans hj
    refine begin_staged ?_
    rintro tid row rfl
    have hf := hs.follows j p hp
    rw [hk] at hf
    exact logs_plain hf.1
  · exact hs.staged j o ((Function.update_of_ne hne ..).symm.trans hj)

private theorem statement_sane {q : Statement} {k : Except Failure q.Resp → Body o.tx.Result} (hs : c.Sane)
    (ho : c.opened id = some o) (hc : o.rest = .call q k)
    (hf : c.free id (q.touches ⟨true, o.tx.tenantId⟩ (o.view c.db))) : (c.execute id o q k).Sane := by
  have hfree : ∀ key ∈ (q.writes ⟨true, o.tx.tenantId⟩ (o.view c.db)).flatMap Write.keys,
      ∀ j, c.locks key = some j → j = id := by
    intro key hkey j hj
    have := List.all_eq_true.1 hf key (List.mem_append_left _ hkey)
    simpa [hj] using this
  refine ⟨hs.follows, fun j o' hj => ?_, hs.keyed, fun j o' hj => ?_, fun j o' w key hj hw hkey => ?_,
    fun j o' hj => ?_⟩ <;> rcases eq_or_ne j id with rfl | hne
  · cases (Function.update_self ..).symm.trans hj
    exact hs.serving j o ho
  · exact hs.serving j o' ((Function.update_of_ne hne ..).symm.trans hj)
  · cases (Function.update_self ..).symm.trans hj
    rw [applyAll_append]
    exact @views_congr (o.view c.db) (applyAll c.db o.writes) _ rfl (@writes_keyed _ (o.view c.db) (hs.views j o ho) q)
  · exact hs.views j o' ((Function.update_of_ne hne ..).symm.trans hj)
  · cases (Function.update_self ..).symm.trans hj
    simp only [State.execute]
    split
    · rfl
    · next hn =>
      rcases List.mem_append.1 hw with hw | hw
      · exact hs.held j o w key ho hw hkey
      · exact absurd (List.mem_flatMap.2 ⟨w, hw, hkey⟩) hn
  · have hj' := (Function.update_of_ne hne ..).symm.trans hj
    have hl := hs.held j o' w key hj' hw hkey
    simp only [State.execute]
    split
    · next hn => exact absurd (hfree key hn j hl) hne
    · exact hl
  · cases (Function.update_self ..).symm.trans hj
    exact statement_staged hs.keyed (hs.staged j o ho) hc
  · exact hs.staged j o' ((Function.update_of_ne hne ..).symm.trans hj)

private theorem answer_sane {r : Except Failure o.tx.Result} {db : Db} (hs : c.Sane) (ho : c.opened id = some o)
    (hr : answered (.tx o.tx) r) (hdb : db = c.db ∨ db = applyAll c.db o.writes) : (c.answer id o r db).Sane := by
  have other : ∀ {j o'}, (c.answer id o r db).opened j = some o' → j ≠ id ∧ c.opened j = some o' := by
    intro j o' hj
    rcases eq_or_ne j id with rfl | hne
    · cases (Function.update_self ..).symm.trans hj
    · exact ⟨hne, (Function.update_of_ne hne ..).symm.trans hj⟩
  refine ⟨fun j p hp => ?_, fun j o' hj => ?_, ?_, fun j o' hj => ?_, fun j o' w key hj hw hkey => ?_,
    fun j o' hj => ?_⟩
  · rcases eq_or_ne j id with rfl | hne
    · obtain ⟨p', hp', hk⟩ := hs.serving j o ho
      have hf := hs.follows j p' hp'
      rw [hk] at hf
      simp only [State.answer, State.close, Function.update_self, hp', Option.map_some, Option.some.injEq] at hp
      exact hp ▸ hf.2 r hr
    · exact hs.follows j p ((Function.update_of_ne hne ..).symm.trans hp)
  · obtain ⟨hne, hj'⟩ := other hj
    obtain ⟨p, hp, hk⟩ := hs.serving j o' hj'
    exact ⟨p, (Function.update_of_ne hne ..).trans hp, hk⟩
  · rcases hdb with rfl | rfl
    · exact hs.keyed
    · exact hs.views id o ho
  · obtain ⟨hne, hj'⟩ := other hj
    rcases hdb with rfl | rfl
    · exact hs.views j o' hj'
    · -- Both transactions have locked the ids they insert.
      have hi := hs.views id o ho
      have hv := hs.views j o' hj'
      change Keyed DocumentRow.id (applyAll (applyAll c.db o.writes) o'.writes).documents
      rw [Keyed, applyAll_ids] at hi hv
      rw [Keyed, applyAll_ids, applyAll_ids]
      obtain ⟨-, hnew, hdis⟩ := List.nodup_append.1 hv
      refine List.nodup_append.2 ⟨hi, hnew, fun d hd d' hd' he => ?_⟩
      subst he
      rcases List.mem_append.1 hd with hd | hd
      · exact hdis d hd d hd' rfl
      · obtain ⟨w, hw, hwd⟩ := List.mem_filterMap.1 hd
        obtain ⟨w', hw', hwd'⟩ := List.mem_filterMap.1 hd'
        have lockedBy : ∀ {w : Write}, w.inserted = some d → RowKey.document d ∈ w.keys := by
          intro w h
          cases w <;> cases h
          exact List.mem_cons_self
        exact hne (Option.some.inj ((hs.held j o' w' _ hj' hw' (lockedBy hwd')).symm.trans
          (hs.held id o w _ ho hw (lockedBy hwd))))
  · obtain ⟨hne, hj'⟩ := other hj
    have hl := hs.held j o' w key hj' hw hkey
    exact (if_neg (by rw [hl]; exact fun h => hne (Option.some.inj h))).trans hl
  · obtain ⟨hne, hj'⟩ := other hj
    refine (hs.staged j o' hj').congr ?_
    rintro d ⟨set, hset⟩
    rcases hdb with rfl | rfl
    · rfl
    · refine applyAll_document (fun w hw hwd => hne ?_) c.db
      exact Option.some.inj ((hs.held j o' _ _ hj' hset List.mem_cons_self).symm.trans (hs.held id o w _ ho hw hwd))

private theorem crash_sane (hs : c.Sane) : ({ c.close id with config := c.config.kill id } : State).Sane := by
  have other : ∀ {j o'}, (c.close id).opened j = some o' → j ≠ id ∧ c.opened j = some o' := by
    intro j o' hj
    rcases eq_or_ne j id with rfl | hne
    · cases (Function.update_self ..).symm.trans hj
    · exact ⟨hne, (Function.update_of_ne hne ..).symm.trans hj⟩
  refine ⟨fun j p hp => ?_, fun j o' hj => ?_, hs.keyed, fun j o' hj => hs.views j o' (other hj).2,
    fun j o' w key hj hw hkey => ?_, fun j o' hj => hs.staged j o' (other hj).2⟩
  · rcases eq_or_ne j id with rfl | hne
    · cases (Function.update_self ..).symm.trans hp
    · exact hs.follows j p ((Function.update_of_ne hne ..).symm.trans hp)
  · obtain ⟨hne, hj⟩ := other hj
    obtain ⟨p, hp, hk⟩ := hs.serving j o' hj
    exact ⟨p, (Function.update_of_ne hne ..).trans hp, hk⟩
  · obtain ⟨hne, hj⟩ := other hj
    have hl := hs.held j o' w key hj hw hkey
    exact (if_neg (by rw [hl]; exact fun h => hne (Option.some.inj h))).trans hl

theorem step_sane (hs : c.Sane) (h : step c a = some c') : c'.Sane := by
  cases step_move h with
  | outside ho hc => exact outside_sane hs ho hc
  | begin _ hp hk => exact begin_sane hs hp hk
  | statement ho hc hf => exact statement_sane hs ho hc hf
  | commit ho hx => exact answer_sane hs ho ((hs.staged _ _ ho).answered hx) (.inr rfl)
  | @rollback _ o _ ho _ | @abort _ o _ ho =>
    exact answer_sane hs ho (by rcases o with ⟨t, _, _, _, _⟩; cases t <;> trivial) (.inl rfl)
  | crash => exact crash_sane hs

end Step

end DocAuto.ReadCommitted
