import DocAuto.Config.Answers
import DocAuto.Decision.Rounding
import DocAuto.Decision.Routing
import DocAuto.Pipeline.Completion
import DocAuto.Pipeline.Storable
import DocAuto.Pipeline.Trail

/-! What the records show of the answers of the model: they have come through its schemas. -/
namespace DocAuto.Pipeline
open Process Database Validators

/-- A call of the model is answered as its client, behind the schemas, may answer it. -/
def Answered (c : Config) (a : Action) (_ : Config) : Prop :=
  (∀ i r rawText d, a = .step i (.classification r) → c.command i = some (.classifyDocument rawText d) →
    ∃ env report client, Config.classifyDocument env (Config.classifier report client) rawText = .ok r) ∧
  ∀ i r rawText d, a = .step i (.extraction r) → c.command i = some (.extractInvoice rawText d) →
    ∃ env report client documentId now,
      Config.extractInvoice env (Config.extractor report client) rawText documentId now = .ok r

/-- A result that the schema accepts, of the model or of the mock. -/
structure Parsed (r : ExtractionResult) : Prop where
  extraction : invoiceExtractionSchema r.extraction
  llmModel : r.llmModel ∈ ["mock", Config.model]

/-- A row has its ten scores, whole cents, its items and its model, also after edits. -/
structure Legible (row : ExtractionRow) : Prop where
  scores : ∃ scores, row.confidenceScores = some scores ∧ confidenceScoresSchema scores
  amounts : ∀ amount ∈ [row.subtotal, row.tax, row.total], ∀ x, amount = some x → IsCents x
  lineItems : row.lineItems.isSome
  llmModel : ∃ m ∈ ["mock", Config.model], row.llmModel = some m

/-- What the entries about an extraction say. -/
structure Telling (entry : AuditRow) : Prop where
  extracted : entry.event = .extracted → (∃ text, entry.payload = some (.error text)) ∨
    ∃ llmModel i o m, entry.payload = some (.extraction llmModel i o (some m)) ∧ llmModel ∈ ["mock", Config.model] ∧ isScore m
  approved : entry.event = .autoApproved → ∃ threshold m sum, entry.payload = some (.approval threshold (some m) sum) ∧
    0 ≤ threshold ∧ threshold ≤ m ∧ m ≤ 1
  reviewed : entry.event = .sentToReview → (∃ reasons, entry.payload = some (.reasons reasons) ∧ reasons ≠ []) ∨
    ∃ x, entry.payload = some (.unknownType .unknown x) ∧ isScore x

/-- The threshold a job decides with. -/
def Bounded (tenant : Option TenantRow) : Prop := 0 ≤ threshold tenant ∧ threshold tenant ≤ 1

namespace ExtractionPoint

/-- What the processor has read so far has come through the schemas. -/
def Sound : ExtractionPoint → Prop
  | .claim _ tenant | .classify _ tenant | .setType _ tenant _ | .extract _ tenant => Bounded tenant
  | .park c | .reportParked c => c.docType = .unknown ∧ isScore c.confidence
  | .insert tenant r | .decide tenant r | .report tenant r | .conclude tenant r => Bounded tenant ∧ Parsed r
  | .read | .refuse _ | .reportRefusal _ | .findTenant _ | .notify _ | .recover _ | .reportFailure _ => True

end ExtractionPoint

def Point.Sound : Point → Prop
  | .extraction _ e => e.Sound
  | _ => True

/-- The answers that come back from the model and from the table of tenants. -/
def Cmd.Returns : (c : Cmd) → Except Failure c.Resp → Prop
  | .classifyDocument _ _, .ok r => isScore r.confidence
  | .extractInvoice _ _, .ok r => Parsed r
  | .tx (.findTenant _), .ok tenant => Bounded tenant
  | _, _ => True

section Points
variable {job : JobData} {e : ExtractionPoint}

/-- The processor goes on with what it has read, and with what comes back. -/
theorem ExtractionPoint.next_sound (he : e.Sound) {r : Except Failure (e.command job).Resp} (hr : (e.command job).Returns r) :
    ((Point.extraction job e).next (e.command job) r).Sound := by
  cases e with
  | read =>
    rcases r with err | _ | ⟨row, extraction⟩
    · trivial
    · trivial
    · rcases Point.next_found job row extraction with ⟨hn, -⟩ | ⟨status, hn⟩ | ⟨rawText, hn⟩ <;>
        rw [hn] <;> trivial
  | findTenant rawText =>
    cases r with
    | error err => trivial
    | ok tenant => exact hr
  | classify rawText tenant =>
    cases r with
    | error err => trivial
    | ok x =>
      rw [show (Point.extraction job (.classify rawText tenant)).next _ _ = if x.docType = .unknown then
        .extraction job (.park x) else .extraction job (.setType rawText tenant x.docType) from rfl]
      split
      · next hunknown => exact ⟨hunknown, hr⟩
      · exact he
  | extract rawText tenant =>
    cases r with
    | error err => trivial
    | ok x => exact ⟨he, hr⟩
  | conclude tenant x =>
    cases r with
    | error err => trivial
    | ok u => rcases Point.next_concluded job tenant x u with hn | hn <;> rw [hn] <;> trivial
  | claim rawText tenant | setType rawText tenant docType | insert tenant x | decide tenant x | report tenant x =>
    cases r with
    | error err => trivial
    | ok u => exact he
  | park x =>
    cases r with
    | error err => trivial
    | ok u => exact he
  | refuse status | reportRefusal status | reportParked x | notify x | recover err | reportFailure err => cases r <;> trivial

/-- What comes back from a command in a step that is answered properly. -/
theorem Cmd.exec_returns {c c' : Config} {i : ProcId} {answer : Answer} {cmd : Cmd} {r : Except Failure cmd.Resp} {w : World}
    (ha : Answered c (.step i answer) c') (hcmd : c.command i = some cmd)
    (ht : ∀ t ∈ c.world.db.tenants, 0 ≤ t.extractionThreshold ∧ t.extractionThreshold ≤ 1)
    (h : cmd.exec answer c.world = some (r, w)) : cmd.Returns r := by
  cases r with
  | error err => cases cmd <;> first | trivial | (next t => cases t <;> trivial)
  | ok x =>
    cases cmd with
    | tx t =>
      cases t with
      | findTenant tenantId =>
        cases answer <;> simp only [Cmd.exec, Option.some.injEq, Prod.mk.injEq, reduceCtorEq, false_and] at h
        rw [findTenant_run] at h
        obtain rfl := Except.ok.inj h.1
        cases hl : Table.lookup TenantRow.id tenantId c.world.db.tenants with
        | none => exact ⟨by norm_num [threshold], by norm_num [threshold]⟩
        | some tenant => exact ht tenant (Table.mem_of_lookup hl)
      | _ => trivial
    | classifyDocument rawText d =>
      cases answer <;> simp only [Cmd.exec, Option.some.injEq, Prod.mk.injEq, reduceCtorEq, false_and] at h
      obtain rfl := Except.ok.inj h.1
      obtain ⟨env, report, client, hx⟩ := ha.1 i _ rawText d rfl hcmd
      exact Config.classifyDocument_score hx
    | extractInvoice rawText d =>
      cases answer <;> simp only [Cmd.exec, Option.some.injEq, Prod.mk.injEq, reduceCtorEq, false_and] at h
      obtain rfl := Except.ok.inj h.1
      obtain ⟨env, report, client, documentId, now, hx⟩ := ha.2 i _ rawText d rfl hcmd
      rcases (Config.extractInvoice_iff report env rawText documentId now _).1 ⟨client, hx⟩ with ⟨-, hvalid, hm⟩ | ⟨-, -, rfl⟩
      · exact ⟨hvalid, by simp [hm]⟩
      · exact ⟨Config.extractMock_valid documentId now, by simp⟩
    | _ => trivial

end Points

section Rows
variable {tenant : Option TenantRow} {r : ExtractionResult}

theorem Parsed.legible (h : Parsed r) (d : Uuid) : Legible (extractionRow d r) where
  scores := ⟨_, rfl, h.extraction⟩
  amounts := by
    simp only [extractionRow, List.forall_mem_cons, List.not_mem_nil, false_imp_iff, implies_true, and_true, Option.some.injEq,
      forall_eq']
    exact ⟨toFixed2_isCents _, toFixed2_isCents _, toFixed2_isCents _⟩
  lineItems := rfl
  llmModel := ⟨_, h.llmModel, rfl⟩

/-- An accepted edit leaves a row legible. -/
theorem Legible.edited {row : ExtractionRow} (h : Legible row) {changes : ExtractionEdit}
    (hc : editExtractionSchema changes = some changes) : Legible (applyEdit changes row) where
  scores := by
    have haccepted := (editExtractionSchema_some hc).confidenceScores
    cases hs : changes.confidenceScores with
    | none => simpa [applyEdit, hs] using h.scores
    | some scores => exact ⟨scores, by simp [applyEdit, hs], by simpa [hs] using haccepted⟩
  amounts := by
    have hset : ∀ (set : Option (Option ℚ)) (old : Option ℚ), (∀ x, old = some x → IsCents x) →
        ∀ x, (set.map (Option.map toFixed2)).getD old = some x → IsCents x := by
      intro set old hold x hx
      rcases set with _ | _ | y
      · exact hold x hx
      · cases hx
      · obtain rfl := Option.some.inj hx
        exact toFixed2_isCents y
    have hamounts := h.amounts
    simp only [List.forall_mem_cons, List.not_mem_nil, false_imp_iff, implies_true, and_true] at hamounts ⊢
    exact ⟨hset _ _ hamounts.1, hset _ _ hamounts.2.1, hset _ _ hamounts.2.2⟩
  lineItems := by
    cases hi : changes.lineItems with
    | none => simpa [applyEdit, hi] using h.lineItems
    | some items => simp [applyEdit, hi]
  llmModel := h.llmModel

/-- The least of the scores is one of them. -/
theorem Parsed.least (h : Parsed r) (t : ℚ) : ∃ m, (evaluateExtraction r.extraction t).minConfidence = some m ∧ isScore m := by
  obtain ⟨hkeys, hrange⟩ : r.extraction.confidence.map Prod.fst = confidenceFields ∧ ∀ m ∈ r.extraction.confidence, isScore m.2 := by
    simpa [invoiceExtractionSchema, confidenceScoresSchema] using h.extraction
  have hne : r.extraction.confidence.map Prod.snd ≠ [] := by
    intro hnil
    rw [List.map_eq_nil_iff.1 hnil] at hkeys
    cases hkeys
  obtain ⟨m, hm⟩ := Option.isSome_iff_exists.1 (List.isSome_min?_of_ne_nil hne)
  obtain ⟨entry, hentry, rfl⟩ := List.mem_map.1 (List.min?_mem hm)
  exact ⟨_, hm, hrange entry hentry⟩

/-- A decision for review has its reasons. -/
theorem reasons_of_review {e : InvoiceExtraction} {t : ℚ} (h : (evaluateExtraction e t).decision ≠ .autoApprove) :
    (evaluateExtraction e t).reasons ≠ [] := by
  intro hnil
  rw [reasons_eq, List.append_eq_nil_iff, List.map_eq_nil_iff, below_nil_iff] at hnil
  refine h ((decision_iff e t).2 ⟨hnil.2, (mathValid_iff e t).1 ?_⟩)
  by_contra hm
  rw [if_neg hm] at hnil
  cases hnil.1

/-- The entry that concludes a decision tells what it should. -/
theorem Parsed.concluded (h : Parsed r) (ht : Bounded tenant) (job : JobData) : Telling (concludeRow job tenant r) := by
  unfold concludeRow
  split
  · next happ =>
    constructor <;> intro hevent <;> cases hevent
    obtain ⟨m, hm, hscore⟩ := h.least (threshold tenant)
    have hne : r.extraction.confidence ≠ [] := by
      rintro hnil
      simp [evaluateExtraction, hnil] at hm
    obtain ⟨m', hm', hle⟩ := (least_iff r.extraction (threshold tenant) hne).2 ((decision_iff _ _).1 happ).1
    obtain rfl := Option.some.inj (hm.symm.trans hm')
    have hone : m ≤ 1 := by
      simp only [isScore, Bool.and_eq_true, decide_eq_true_eq] at hscore
      exact hscore.2
    exact ⟨threshold tenant, m, _, congrArg some (congrArg (AuditPayload.approval _ · _) hm), ht.1, hle, hone⟩
  · next happ =>
    constructor <;> intro hevent <;> cases hevent
    exact .inl ⟨_, rfl, reasons_of_review happ⟩

end Rows

/-- Any point goes on as it should. -/
theorem Point.next_sound {pt : Point} (hpt : pt.Sound) {cmd : Cmd} (hall : pt.allows cmd) {r : Except Failure cmd.Resp}
    (hr : cmd.Returns r) : (pt.next cmd r).Sound := by
  cases pt with
  | extraction job e =>
    obtain rfl := hall
    exact ExtractionPoint.next_sound hpt hr
  | upload p id u =>
    simp only [Point.next]
    unfold UploadPoint.next
    split <;> trivial
  | ocr job o =>
    simp only [Point.next]
    unfold OcrPoint.next
    split <;> trivial
  | reset tenantId d actorId run | reopen tenantId d run => cases r <;> trivial
  | aside | lost | review t => trivial

/-- The processes go on with sound answers, and what they have stored of them is legible. -/
structure Config.Accountable (c : Config) : Prop where
  points : ∀ i p, c.procs i = some p → p.point.Sound
  extractions : ∀ row ∈ c.world.db.documentsExtraction, Legible row
  trail : ∀ entry ∈ c.world.db.documentAuditLog, Telling entry

section Step
variable {c c' : Config} {a : Action} {d : Uuid} {i : ProcId} {p : Activity} {t : Tx} {k : Except Failure t.Result → Proc Unit}
  {now : Timestamp} {r : Record} {entry : AuditRow}

theorem start_sound (o : Owner) : o.start.Sound := by
  unfold Owner.start
  split <;> trivial

theorem step_points (hc : Reachable c) (ha : Answered c a c') (hs : c.Accountable)
    (ht : ∀ t ∈ c.world.db.tenants, 0 ≤ t.extractionThreshold ∧ t.extractionThreshold ≤ 1) (h : step c a = some c') :
    ∀ i p, c'.procs i = some p → p.point.Sound := by
  intro i p hp
  cases step_turn h with
  | @call id call hfresh =>
    simp only [Config.spawn, Function.update_apply] at hp
    split at hp
    · exact Option.some.inj hp ▸ start_sound _
    · exact hs.points i p hp
  | @start id jobId draw job hj hst hfresh =>
    simp only [Config.spawn, Function.update_apply] at hp
    split at hp
    · exact Option.some.inj hp ▸ start_sound _
    · exact hs.points i p hp
  | @step id answer q cmd kk x w hq hprog he =>
    simp only [Function.update_apply] at hp
    split at hp
    · have hret := Cmd.exec_returns ha (Config.command_of hq hprog) ht he
      exact Option.some.inj hp ▸ Point.next_sound (hs.points id q hq) (hc.regular.valid.allows hq hprog) hret
    · exact hs.points i p hp
  | finish _ _ | crash _ =>
    simp only [Config.kill, Function.update_apply] at hp
    split at hp
    · cases hp
    · exact hs.points i p hp
  | stall _ _ | evict _ _ | tick => exact hs.points i p hp

theorem telling_other (h : entry.event ≠ .extracted ∧ entry.event ≠ .autoApproved ∧ entry.event ≠ .sentToReview) : Telling entry :=
  ⟨fun he => absurd he h.1, fun he => absurd he h.2.1, fun he => absurd he h.2.2⟩

/-- What a sound process logs tells what it should. -/
theorem logged_telling (hc : Reachable c) (hp : c.procs i = some p) (hq : p.program = .call (.tx t) k)
    (hd : t.documentId = some d) (hpt : p.point.Sound) (he : entry ∈ t.logged now r) : Telling entry := by
  have hall := hc.regular.valid.allows hp hq
  have hplaced := (hc.regular.standing d).orderly.points i p.position (Config.view_position hp)
  change View.placed _ d p.owner p.point at hplaced
  have hsigns := (logged_signed hc hp hq hd he).1
  cases ho : p.owner with
  | api call =>
    rw [ho] at hsigns
    have hevent := hsigns.2.1
    refine telling_other ⟨?_, ?_, ?_⟩ <;> intro hx <;> rw [hx] at hevent <;> cases call <;> cases hevent
  | job j data =>
    rw [ho] at hplaced
    cases hpoint : p.point with
    | extraction job e =>
      rw [hpoint] at hpt hall
      cases e with
      | reportRefusal status | reportFailure err =>
        cases hall
        obtain rfl := List.mem_singleton.1 he
        exact ⟨fun _ => .inl ⟨_, rfl⟩, nofun, nofun⟩
      | reportParked x =>
        cases hall
        obtain rfl := List.mem_singleton.1 he
        exact ⟨nofun, nofun, fun _ => .inr ⟨_, by rw [← hpt.1]; rfl, hpt.2⟩⟩
      | report tenant x =>
        cases hall
        obtain rfl := List.mem_singleton.1 he
        obtain ⟨m, hm, hscore⟩ := hpt.2.least (threshold tenant)
        refine ⟨fun _ => .inr ⟨x.llmModel, x.inputTokens, x.outputTokens, m, ?_, hpt.2.llmModel, hscore⟩, nofun, nofun⟩
        exact congrArg some (congrArg (AuditPayload.extraction _ _ _) hm)
      | conclude tenant x =>
        cases hall
        obtain rfl := List.mem_singleton.1 he
        have hconclude := hpt.2.concluded hpt.1 job
        exact ⟨hconclude.extracted, hconclude.approved, hconclude.reviewed⟩
      | _ => cases hall <;> cases he
    | aside =>
      rw [hpoint] at hall
      cases t with
      | writeAuditLog tid row =>
        obtain rfl := List.mem_singleton.1 he
        obtain ⟨hevent, -⟩ : (row.event = .webhookSent ∨ row.event = .webhookFailed) ∧ row.newStatus = none := hall
        refine telling_other ?_
        rcases hevent with hevent | hevent <;> simp [hevent]
      | insertDocument _ _ => cases hd
      | _ => cases (show Tx.documentId _ = none from hall).symm.trans hd
    | ocr job o =>
      rw [hpoint] at hall
      cases o <;> cases hall <;> first | cases he; done | obtain rfl := List.mem_singleton.1 he
      exact telling_other (by simp [workerRow])
    | lost | reopen _ _ _ =>
      rw [hpoint] at hall
      cases hall
    | upload p' id u =>
      rw [hpoint] at hplaced
      cases hplaced.1
    | review t' =>
      rw [hpoint] at hplaced
      obtain ⟨call, ho', -⟩ := hplaced
      cases ho'
    | reset tid d' actorId run =>
      rw [hpoint] at hplaced
      cases hplaced

/-- The row that a transaction leaves for a document was there, or has been edited, or is a job's. -/
theorem committed_legible (hc : Reachable c) (hs : c.Accountable) (hp : c.procs i = some p) (hq : p.program = .call (.tx t) k)
    (hd : t.documentId = some d) (hold : c.world.db.record d = some r)
    (hedit : ∀ tenantId e actorId changes, p.owner = .api (.edit tenantId e actorId changes) →
      editExtractionSchema changes = some changes)
    {row : ExtractionRow} (hrow : (t.commit now r).extraction = some row) : Legible row := by
  have hall := hc.regular.valid.allows hp hq
  have hplaced := (hc.regular.standing d).orderly.points i p.position (Config.view_position hp)
  change View.placed _ d p.owner p.point at hplaced
  have hlegible : ∀ row, r.extraction = some row → Legible row := fun row he =>
    hs.extractions row ((mem_of_record hold).2.1 row he)
  rcases t.commit_extraction now r with hsame | ⟨tid, new, rfl, hor⟩ | ⟨tid, e, actorId, changes, rfl⟩ | ⟨tid, e, actorId, rfl⟩
  · exact hlegible row (hsame.symm.trans hrow)
  · cases hx : r.extraction with
    | some old =>
      rw [hrow, hx] at hor
      exact hlegible row (hx.trans hor.symm)
    | none =>
      rw [hrow, hx] at hor
      obtain rfl := Option.some.inj hor
      cases hpoint : p.point with
      | extraction job e =>
        have hpt := hs.points i p hp
        rw [hpoint] at hall hpt
        cases e <;> cases hall
        exact hpt.2.legible job.documentId
      | review t' =>
        rw [hpoint] at hall hplaced
        obtain ⟨call, -, hstart⟩ := hplaced
        cases hall
        cases call <;> cases hstart
      | upload p' id u =>
        rw [hpoint] at hall
        cases u <;> cases hall
      | ocr job o =>
        rw [hpoint] at hall
        cases o <;> cases hall
      | aside | lost | reset _ _ _ _ | reopen _ _ _ =>
        rw [hpoint] at hall
        cases hall
  · obtain ⟨old, hx, rfl⟩ := Option.map_eq_some_iff.1 (show r.extraction.map (applyEdit changes) = some row from hrow)
    refine (hlegible old hx).edited ?_
    cases hpoint : p.point with
    | review t' =>
      rw [hpoint] at hall hplaced
      obtain ⟨call, ho, hstart⟩ := hplaced
      cases hall
      cases call <;> cases hstart
      exact hedit _ _ _ _ ho
    | extraction job e =>
      rw [hpoint] at hall
      cases e <;> cases hall
    | upload p' id u =>
      rw [hpoint] at hall
      cases u <;> cases hall
    | ocr job o =>
      rw [hpoint] at hall
      cases o <;> cases hall
    | aside | lost | reset _ _ _ _ | reopen _ _ _ =>
      rw [hpoint] at hall
      cases hall
  · cases hrow

theorem step_accountable (hc : Reachable c) (ha : Answered c a c') (hs : c.Accountable)
    (ht : ∀ t ∈ c.world.db.tenants, 0 ≤ t.extractionThreshold ∧ t.extractionThreshold ≤ 1)
    (hedit : ∀ i p tenantId e actorId changes, c.procs i = some p → p.owner = .api (.edit tenantId e actorId changes) →
      editExtractionSchema changes = some changes) (h : step c a = some c') : c'.Accountable := by
  have hsound : c'.world.db.Sound := (step_regular c a c' hc.regular h).valid.sound
  refine ⟨step_points hc ha hs ht h, fun row hrow => ?_, fun entry he => ?_⟩
  · obtain ⟨doc, hdoc⟩ := Option.isSome_iff_exists.1 (hsound.extractionOf row hrow)
    have hr' : c'.world.db.record row.documentId = some ⟨doc, some row, c'.world.db.audit row.documentId⟩ :=
      (congrArg (Option.map _) hdoc).trans (by rw [Option.map_some, Db.extraction, Table.lookup_of_mem hsound.extractions hrow])
    rcases step_committed hc h hr' with hold | ⟨i, p, up, k, now, -, -, hfresh⟩ | ⟨i, p, t, k, now, r, hp, hq, hold, hd, -, hcommit⟩
    · exact hs.extractions row ((mem_of_record hold).2.1 row rfl)
    · cases congrArg Record.extraction hfresh
    · exact committed_legible hc hs hp hq hd hold (fun tenantId e actorId changes => hedit i p tenantId e actorId changes hp)
        (congrArg Record.extraction hcommit).symm
  · obtain ⟨r', hr', -, -, haudit⟩ := record_of_entry hsound he
    rcases step_committed hc h hr' with hold | ⟨i, p, up, k, now, -, -, rfl⟩ | ⟨i, p, t, k, now, r, hp, hq, hold, hd, -, rfl⟩
    · exact hs.trail entry ((mem_of_record hold).2.2 entry haudit)
    · cases haudit
    · rw [t.commit_audit] at haudit
      rcases List.mem_append.1 haudit with hmem | hmem
      · exact hs.trail entry ((mem_of_record hold).2.2 entry hmem)
      · exact logged_telling hc hp hq hd (hs.points i p hp) hmem

end Step

end DocAuto.Pipeline
