import DocAuto.Database.Commit
import DocAuto.Pipeline.Standing

/-! The writes of the workers: on their own document they cannot fail by themselves. -/
namespace DocAuto.Pipeline
open Process Database

variable {d : Uuid} {v w : View} {i : ProcId} {pos : Position} {job : JobData}

/-- A worker's document exists and belongs to the tenant of its job. -/
theorem ocr_owned (ho : Orderly d v) (hi : v.positions i = some pos) {o : OcrPoint} (hpt : pos.point = .ocr job o)
    (hd : job.documentId = d) : v.owned job.tenantId := by
  have hp := ho.points i pos hi
  rw [hpt] at hp
  exact (ho.owners i pos _ _ hi hp.1 _ _ rfl).2.2 hd

theorem extraction_owned (ho : Orderly d v) (hi : v.positions i = some pos) {e : ExtractionPoint}
    (hpt : pos.point = .extraction job e) (hd : job.documentId = d) : v.owned job.tenantId := by
  have hp := ho.points i pos hi
  rw [hpt] at hp
  exact (ho.owners i pos _ _ hi hp _ _ rfl).2.2 hd

/-- A write that no constraint stops takes effect unless the database is made to throw. -/
theorem Effect.write {t : Tx} {answer : Answer} {r : Except Failure t.Result}
    (heff : Effect d v (.tx t) answer r w) (hd : t.documentId = some d) (ho : v.owned t.tenantId)
    (hs : v.owned t.tenantId → t.sure d v.record) :
    (∃ e, answer = .throws e ∧ r = .error e ∧ w = v) ∨
      ∃ u now rec, answer = .execute ∧ r = .ok u ∧ v.record = some rec ∧ rec.row.tenantId = t.tenantId ∧
        w.record = some (t.commit now rec) := by
  rcases r with e | u
  · obtain ⟨rfl, he | ⟨-, hn⟩⟩ := heff.refused
    · exact .inl ⟨e, he, rfl, rfl⟩
    · exact absurd (hs ho) hn
  · obtain ⟨rfl, now, rfl, -, -⟩ := heff.committed
    obtain ⟨rec, hrec, ht⟩ := ho
    exact .inr ⟨u, now, rec, rfl, rfl, hrec, ht, by rw [hrec]; exact Tx.after_own hd ht.symm⟩

theorem Effect.update {tenantId : Uuid} {set : DocumentsSet} {answer : Answer} {r : Except Failure Unit}
    (heff : Effect d v (.tx (.updateDocument tenantId d set)) answer r w) (ho : v.owned tenantId) :
    (∃ e, answer = .throws e ∧ r = .error e ∧ w = v) ∨
      ∃ rec, answer = .execute ∧ r = .ok () ∧ v.record = some rec ∧ w.record = some (rec.set set) := by
  rcases heff.write rfl ho fun _ => trivial with he | ⟨u, now, rec, ha, hr, hrec, -, hw⟩
  · exact .inl he
  · exact .inr ⟨rec, ha, hr, hrec, hw⟩

theorem Effect.log {tenantId : Uuid} {row : AuditRow} {answer : Answer} {r : Except Failure Unit}
    (heff : Effect d v (.tx (.writeAuditLog tenantId row)) answer r w) (hd : row.documentId = d)
    (ha : row.actorId = none) (ho : v.owned tenantId) :
    (∃ e, answer = .throws e ∧ r = .error e ∧ w = v) ∨
      ∃ now rec, answer = .execute ∧ r = .ok () ∧ v.record = some rec ∧ w.record = some (rec.log now row) := by
  rcases heff.write (congrArg some hd) ho fun ⟨rec, hrec, ht⟩ => ⟨ha, hd, rec, hrec, ht.symm⟩ with
    he | ⟨u, now, rec, ha, hr, hrec, -, hw⟩
  · exact .inl he
  · exact .inr ⟨now, rec, ha, hr, hrec, hw⟩

theorem Effect.insertExtraction {tenantId : Uuid} {row : ExtractionRow} {answer : Answer} {r : Except Failure Unit}
    (heff : Effect d v (.tx (.insertExtraction tenantId row)) answer r w) (hd : row.documentId = d)
    (ho : v.owned tenantId) :
    (∃ e, answer = .throws e ∧ r = .error e ∧ w = v) ∨
      ∃ rec, answer = .execute ∧ r = .ok () ∧ v.record = some rec ∧
        w.record = some { rec with extraction := rec.extraction.or (some row) } := by
  rcases heff.write (congrArg some hd) ho fun ⟨rec, hrec, ht⟩ => ⟨hd, rec, hrec, ht.symm⟩ with
    he | ⟨u, now, rec, ha, hr, hrec, -, hw⟩
  · exact .inl he
  · exact .inr ⟨rec, ha, hr, hrec, hw⟩

/-- A transaction other than the insertion of `d` leaves its record, or commits a change to it. -/
theorem Effect.commit_cases {t : Tx} {answer : Answer} {r : Except Failure t.Result} (heff : Effect d v (.tx t) answer r w)
    (hi : ∀ p, t ≠ .insertDocument p d) : w.record = v.record ∨
      ∃ now rec, v.record = some rec ∧ w.record = some (t.commit now rec) := by
  rcases heff.record with he | ⟨t', now, ht, -, he, -⟩
  · exact .inl he
  · obtain rfl : t = t' := Cmd.tx.inj ht
    cases hrec : v.record with
    | none =>
      refine .inl (he.trans ?_)
      rw [hrec]
      cases t with
      | insertDocument p id => exact if_neg fun hd : id = d => hi p (hd ▸ rfl)
      | _ => rfl
    | some rec =>
      rw [hrec] at he
      rcases Tx.after_cases (d := d) t now rec with hs | ⟨-, -, hs⟩
      · exact .inl (he.trans hs)
      · exact .inr ⟨now, rec, rfl, he.trans hs⟩

/-- A command that is no write to `d` leaves its record. -/
theorem Effect.quiet {c : Cmd} {answer : Answer} {r : Except Failure c.Resp} (heff : Effect d v c answer r w)
    (h : ∀ t, c = .tx t → t.documentId ≠ some d ∧ ∀ p, t ≠ .insertDocument p d) : w.record = v.record := by
  rcases heff.record with he | ⟨t, now, hc, -, he, -⟩
  · exact he
  · exact he.trans (Tx.after_of_ne (h t hc).1 (h t hc).2)

/-- A command that sets no status leaves the status. -/
theorem Effect.status_kept {c : Cmd} {answer : Answer} {r : Except Failure c.Resp} (heff : Effect d v c answer r w)
    (h : ∀ t, c = .tx t → t.statusSet = none ∧ ∀ p, t ≠ .insertDocument p d) :
    w.record.map (·.row.status) = v.record.map (·.row.status) := by
  rcases heff.record with he | ⟨t, now, hc, -, he, -⟩
  · rw [he]
  · obtain ⟨hs, hi⟩ := h t hc
    cases hrec : v.record with
    | none =>
      rw [he, hrec]
      cases t with
      | insertDocument p id => exact congrArg _ (if_neg fun hd : id = d => hi p (hd ▸ rfl))
      | _ => rfl
    | some rec =>
      obtain ⟨r', hr', hst | ⟨-, -, hset⟩⟩ := Tx.after_status (d := d) t now rec
      · rw [he, hrec, hr']
        exact congrArg some hst
      · cases hs.symm.trans hset

/-- Executions and uploads for other documents. -/
def Point.Foreign (d : Uuid) : Point → Prop
  | .upload _ id _ => id ≠ d
  | .ocr job _ | .extraction job _ => job.documentId ≠ d
  | _ => False

theorem foreign_quiet {pt : Point} {c : Cmd} {answer : Answer} {r : Except Failure c.Resp} (hf : pt.Foreign d)
    (hall : pt.allows c) (heff : Effect d v c answer r w) : w.record = v.record := by
  refine heff.quiet ?_
  rintro t rfl
  cases pt with
  | aside | lost | review _ | reset _ _ _ _ | reopen _ _ _ => cases hf
  | upload p id u =>
    have hd : some id ≠ some d := fun h => hf (Option.some.inj h)
    cases u <;> cases hall <;> first
      | exact ⟨hd, by rintro _ ⟨⟩⟩
      | exact ⟨by rintro ⟨⟩, fun _ h => hf (by cases h; rfl)⟩
  | ocr job o =>
    have hd : some job.documentId ≠ some d := fun h => hf (Option.some.inj h)
    cases o <;> cases hall <;> first
      | exact ⟨hd, by rintro _ ⟨⟩⟩
      | exact ⟨by rintro ⟨⟩, by rintro _ ⟨⟩⟩
  | extraction job e =>
    have hd : some job.documentId ≠ some d := fun h => hf (Option.some.inj h)
    cases e with
    | conclude tenant x =>
      cases hall
      exact ⟨by rw [Tx.documentId, concludeRow_documentId]; exact hd, nofun⟩
    | _ =>
      cases hall <;> first
        | exact ⟨hd, by rintro _ ⟨⟩⟩
        | exact ⟨by rintro ⟨⟩, by rintro _ ⟨⟩⟩

theorem foreign_next {pt : Point} {c : Cmd} {r : Except Failure c.Resp} (hf : pt.Foreign d) (hall : pt.allows c) :
    pt.next c r = .aside ∨ pt.next c r = .lost ∨ (pt.next c r).Foreign d := by
  cases pt with
  | aside | lost | review _ | reset _ _ _ _ | reopen _ _ _ => cases hf
  | upload p id u =>
    cases hall
    cases u <;> rcases r with e | _ | _ <;> first
      | exact .inl rfl
      | exact .inr (.inl rfl)
      | exact .inr (.inr hf)
  | ocr job o => exact (ocr_next hall).imp_right fun h => h.imp_right fun ⟨o', he⟩ => he ▸ hf
  | extraction job e => exact (extraction_next hall).imp_right fun h => h.imp_right fun ⟨e', he⟩ => he ▸ hf

/-- A step of a process as a move: its command, the answer and the effect. -/
theorem step_effect {c c' : Config} {answer : Answer} {p : Activity} (hr : c.Regular)
    (h : step c (.step i answer) = some c') (hp : c.procs i = some p) :
    ∃ cmd k r w, p.program = .call cmd k ∧ p.point.allows cmd ∧ Effect d (c.view d) cmd answer r w ∧
      c'.view d = w.place i (some ⟨p.owner, p.point.next cmd r⟩) := by
  obtain ⟨p', cmd, k, r, w, hp', hc, he, rfl⟩ := step_advance h
  obtain rfl := Option.some.inj (hp.symm.trans hp')
  refine ⟨cmd, k, r, _, hc, hr.valid.allows hp hc, Cmd.exec_effect d c.procs c.issued hr.valid.sound he, ?_⟩
  simp only [View.place, Config.view, positions_update]
  rfl

end DocAuto.Pipeline
