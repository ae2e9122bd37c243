import DocAuto.Http.Stored
import DocAuto.Pipeline.Answered

/-! The records of the server about the answers of the model, whatever the model answers. -/
namespace DocAuto.Http
open Process Json Auth Validators Pipeline Database

/-- The model answers as its client, behind the schemas, may answer. -/
def Answers (s : State) (a : Action) (s' : State) : Prop := ∀ b, a = .pipeline b → Answered s.pipeline b s'.pipeline

theorem step_accountable {A : App} {s s' : State} {a : Action} (hc : Clean A s) (hs : s.pipeline.Accountable)
    (ha : Answers s a s') (h : step A s a = some s') : s'.pipeline.Accountable := by
  have hthreshold : ∀ t ∈ s.pipeline.world.db.tenants, 0 ≤ t.extractionThreshold ∧ t.extractionThreshold ≤ 1 :=
    fun t ht => (hc.stored.tenants t ht).2.1
  have hedit : ∀ i p tenantId e actorId changes, s.pipeline.procs i = some p → p.owner = .api (.edit tenantId e actorId changes) →
      editExtractionSchema changes = some changes :=
    fun i p tenantId e actorId changes hp ho => hc.calls i p _ hp ho
  cases step_turn h with
  | request hcall hstep =>
    exact Pipeline.step_accountable hc.reachable ⟨by rintro _ _ _ _ ⟨⟩, by rintro _ _ _ _ ⟨⟩⟩ hs hthreshold hedit hstep
  | pipeline hb hstep => exact Pipeline.step_accountable hc.reachable (ha _ rfl) hs hthreshold hedit hstep
  | login _ _ | sessions _ _ | refused => exact hs

/-- In every run, whatever JSON the model answers and whatever bodies the requests have: every extraction on record
has its ten scores, whole cents, its items and its model, and every entry about an extraction says what it should.
An automatic approval shows a threshold and a least score that is no smaller. -/
theorem records_accountable {A : App} {tenants : List TenantRow} {users : List UserRow} {actions : List Action} {s : State}
    (ht : ∀ t ∈ tenants, WithinBounds A.formats t) (ha : Along (step A) Answers (initial tenants users) actions)
    (h : run (step A) (initial tenants users) actions = some s) :
    (∀ row ∈ s.db.documentsExtraction, Legible row) ∧ ∀ entry ∈ s.db.documentAuditLog, Telling entry := by
  have hfirst : Clean A (initial tenants users) ∧ (initial tenants users).pipeline.Accountable :=
    ⟨initial_clean ht, ⟨by rintro _ _ ⟨⟩, by rintro _ ⟨⟩, by rintro _ ⟨⟩⟩⟩
  have hlast := run_invariant (I := fun s => Clean A s ∧ s.pipeline.Accountable)
    (fun s a s' hs ha h => ⟨step_clean hs.1 h, step_accountable hs.1 hs.2 ha h⟩) hfirst ha h
  exact ⟨hlast.2.extractions, hlast.2.trail⟩

section Demo

private def demoEnv : Config.Env where
  nodeEnv := .production
  port := 3000
  appUrl := "http://localhost:3000"
  metricsToken := none
  databaseUrl := ""
  dbPoolMax := 10
  redisUrl := ""
  jwtAccessSecret := ""
  jwtRefreshSecret := ""
  jwtAccessExpiresIn := "15m"
  jwtRefreshExpiresIn := "7d"
  anthropicApiKey := some "key"
  allowMockProcessing := false
  awsRegion := ""
  awsAccessKeyId := none
  awsSecretAccessKey := none
  awsS3Bucket := none
  supabaseUrl := none
  supabaseServiceRoleKey := none
  supabaseStorageBucket := ""
  storageDriver := .s3
  localStorageDir := ""
  maxUploadBytes := 1

private def confident : ExtractionResult where
  extraction := ⟨⟨some "Vendor", none, none⟩, ⟨some "1", none, none⟩, ⟨10, 0, 10⟩, [⟨"item", 1, 10, 10⟩], uniformConfidence (9 / 10)⟩
  llmModel := Config.model
  inputTokens := 1
  outputTokens := 1

/-- Alice logs in and uploads document 3, which is approved after its extraction. -/
private def approvedUpload : List Action :=
  [.login 1 (demoRequest [("email", .string "alice@acme.test"), ("password", .string "hash")]), .sessions (.step 1 5),
    .request 10 .uploadDocument (demoRequest []) ⟨3, ""⟩] ++
  (demoUpload.drop 1 ++ demoOcr .initial 20 "text" ++ [Pipeline.Action.finish 20] ++ demoExtraction .initial 30 confident ++
    [Pipeline.Action.step 30 .execute, .step 30 .execute]).map .pipeline

private def asInvoice : Value := .object [("docType", .string "invoice"), ("confidence", .number 1)]

private def sincere (a : Action) : Bool :=
  match a with
  | .pipeline (.step _ (.classification r)) => r == ⟨.invoice, 1⟩
  | .pipeline (.step _ (.extraction r)) => r == confident
  | _ => true

private theorem sincere_answers (s : State) (a : Action) (s' : State) (h : sincere a) : Answers s a s' := by
  rintro b rfl
  refine ⟨?_, ?_⟩
  · rintro i r rawText d rfl -
    obtain rfl : r = ⟨.invoice, 1⟩ := by simpa [sincere] using h
    exact ⟨demoEnv, fun _ => "", fun _ _ => .ok ⟨[.toolUse asInvoice], 1, 1⟩, rfl⟩
  · rintro i r rawText d rfl -
    obtain rfl : r = confident := by simpa [sincere] using h
    obtain ⟨client, hclient⟩ := (Config.extractInvoice_iff (fun _ => "") demoEnv rawText "" "" confident).2
      (.inl ⟨rfl, by decide +kernel, rfl⟩)
    exact ⟨demoEnv, fun _ => "", client, "", "", hclient⟩

theorem records_accountable_upload : ∃ s entry, run (step demoApp) (initial registered demoUsers) approvedUpload = some s ∧
    entry ∈ s.db.documentAuditLog ∧ entry.event = .autoApproved ∧ Telling entry := by
  have hrun : (run (step demoApp) (initial registered demoUsers) approvedUpload).map
      (fun s => (s.db.documentAuditLog.map (·.event)).getLast?) = some (some .autoApproved) := by decide +kernel
  have hsincere : Along (step demoApp) (fun _ a _ => sincere a) (initial registered demoUsers) approvedUpload := by
    decide +kernel
  obtain ⟨s, hs, hlast⟩ := Option.map_eq_some_iff.1 hrun
  obtain ⟨entry, he, hevent⟩ := List.mem_map.1 (List.mem_of_getLast? hlast)
  refine ⟨s, entry, hs, he, hevent, (records_accountable (fun t ht => ?_) (along_mono sincere_answers hsincere) hs).2 entry he⟩
  obtain rfl := List.mem_singleton.1 ht
  exact ⟨by decide +kernel, ⟨by norm_num, by norm_num⟩, nofun⟩

end Demo
end DocAuto.Http
