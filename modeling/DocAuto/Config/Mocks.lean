import DocAuto.Config.Env
import DocAuto.Pipeline.Command

/-! The three places where a document is processed by a provider, or by a mock of it. -/
namespace DocAuto.Config
open Pipeline

/-- A value that a provider's client throws, or an `Error` of the program. -/
structure Thrown where
  name : String := "Error"
  message : String
  deriving DecidableEq, Repr

/-- `String(err)`. -/
def Thrown.text (err : Thrown) : String :=
  if err.name = "" then err.message else if err.message = "" then err.name else err.name ++ ": " ++ err.message

structure TextractBlock where
  blockType : Option String
  text : Option String
  deriving DecidableEq, Repr

/-- `DetectDocumentText`: the `Blocks` of the response to the bytes of a document. -/
abbrev Textract := List UInt8 → Except Thrown (Option (List TextractBlock))

def hasAwsCredentials (env : Env) : Bool := present env.awsAccessKeyId && present env.awsSecretAccessKey

def detectTextReal (send : Textract) (buffer : List UInt8) : Except Thrown OcrResult := do
  let blocks := (← send buffer).getD []
  let lines := blocks.filterMap fun b => if b.blockType = some "LINE" then b.text.filter (· ≠ "") else none
  return ⟨"\n".intercalate lines, blocks.length⟩

/-- `now` is the text of `new Date().toISOString()`. -/
def detectTextMock (fileName documentId now : String) : OcrResult :=
  let rawText := "\n".intercalate [
    "Acme Supplies Ltd",
    "123 Main St, Austin TX",
    "Tax ID: 47-1234567",
    "Invoice #: INV-MOCK-" ++ Text.sliceStart 8 documentId,
    "Invoice Date: " ++ Text.sliceStart 10 now,
    "Due Date: 2024-04-14",
    "",
    "Description          Qty   Unit Price   Amount",
    "Widget A              10       $25.00    $250.00",
    "Widget B               5       $50.00    $250.00",
    "Service Fee            1      $100.00    $100.00",
    "",
    "Subtotal: $600.00",
    "Tax: $48.00",
    "Total: $648.00",
    "",
    "[MOCK OCR OUTPUT — source file: " ++ fileName ++
      " — set AWS_ACCESS_KEY_ID/AWS_SECRET_ACCESS_KEY for real Textract calls]"]
  ⟨rawText, rawText.toList.count '\n' + 1⟩

def extractText (env : Env) (send : Textract) (buffer : List UInt8) (fileName documentId now : String) :
    Except Thrown OcrResult :=
  if hasAwsCredentials env then detectTextReal send buffer
  else if !env.allowMockProcessing then .error { message := "AWS credentials are not configured" }
  else .ok (detectTextMock fileName documentId now)

def model : String := "claude-sonnet-5"

def maxRetries : Nat := 3

def hasApiKey (env : Env) : Bool := present env.anthropicApiKey

/-- A block of a message. The input of a tool is given as the schema of its results reads it. -/
inductive ContentBlock (α : Type) where
  | text
  | toolUse (input : Except Thrown α)
  deriving Repr

structure Message (α : Type) where
  content : List (ContentBlock α)
  inputTokens : Nat
  outputTokens : Nat
  deriving Repr

/-- `client.messages.create`: the answer to the user's message at each attempt. -/
abbrev Anthropic (α : Type) := (attempt : Nat) → (content : String) → Except Thrown (Message α)

section Calls
variable {α : Type}

def toolInput : List (ContentBlock α) → Except Thrown α
  | [] => .error { message := "Model did not return a tool_use block" }
  | .text :: blocks => toolInput blocks
  | .toolUse input :: _ => input

/-- One call of the model: its result and the tokens it took. -/
def callReal (response : Except Thrown (Message α)) : Except Thrown (α × Nat × Nat) := do
  let response ← response
  let result ← toolInput response.content
  return (result, response.inputTokens, response.outputTokens)

/-- `for (let attempt = …; attempt <= MAX_RETRIES; attempt++)`, with `left` attempts to go. -/
def attempts (call : Nat → Except Thrown α) : (attempt left : Nat) → (lastError : Option Thrown) → Except (Option Thrown) α
  | _, 0, lastError => .error lastError
  | attempt, left + 1, _ =>
    match call attempt with
    | .ok a => .ok a
    | .error err => attempts call (attempt + 1) left (some err)

/-- The error after the last attempt. -/
def failedAfter (kind : String) (lastError : Option Thrown) : Thrown where
  message := kind ++ " failed after " ++ toString maxRetries ++ " attempts: " ++ lastError.elim "undefined" Thrown.text

end Calls

def classifyReal (provider : Anthropic ClassificationResult) (rawText : String) (attempt : Nat) :
    Except Thrown (ClassificationResult × Nat × Nat) :=
  callReal (provider attempt ("Classify this document:\n\n" ++ Text.sliceStart 8000 rawText))

def classifyMock : ClassificationResult × Nat × Nat := (⟨.invoice, 0.96⟩, 0, 0)

def classifyDocument (env : Env) (provider : Anthropic ClassificationResult) (rawText : String) :
    Except Thrown ClassificationResult :=
  if !hasApiKey env && env.allowMockProcessing then .ok classifyMock.1
  else if !hasApiKey env then .error { message := "ANTHROPIC_API_KEY is not configured" }
  else
    match attempts (classifyReal provider rawText) 1 maxRetries none with
    | .ok (result, _, _) => .ok result
    | .error lastError => .error (failedAfter "Classification" lastError)

def extractReal (provider : Anthropic InvoiceExtraction) (rawText : String) (attempt : Nat) :
    Except Thrown (InvoiceExtraction × Nat × Nat) :=
  callReal (provider attempt ("Extract invoice data from this OCR text:\n\n" ++ Text.sliceStart 12000 rawText))

def extractMock (documentId now : String) : InvoiceExtraction × Nat × Nat :=
  ({ vendor := ⟨some "Acme Supplies Ltd", some "123 Main St, Austin TX", some "47-1234567"⟩
     invoice := ⟨some ("INV-MOCK-" ++ Text.sliceStart 8 documentId), some (Text.sliceStart 10 now), some "2024-04-14"⟩
     totals := ⟨600, 48, 648⟩
     lineItems := [⟨"Widget A", 10, 25, 250⟩, ⟨"Widget B", 5, 50, 250⟩, ⟨"Service Fee", 1, 100, 100⟩]
     confidence := [("vendor.name", 0.94), ("vendor.address", 0.88), ("vendor.taxId", 0.72), ("invoice.number", 0.97),
       ("invoice.date", 0.95), ("invoice.dueDate", 0.8), ("totals.subtotal", 0.99), ("totals.tax", 0.98),
       ("totals.total", 0.99), ("lineItems", 0.85)] }, 0, 0)

def extractInvoice (env : Env) (provider : Anthropic InvoiceExtraction) (rawText documentId now : String) :
    Except Thrown ExtractionResult :=
  if !hasApiKey env && env.allowMockProcessing then
    let (result, inputTokens, outputTokens) := extractMock documentId now
    .ok ⟨result, "mock", inputTokens, outputTokens⟩
  else if !hasApiKey env then .error { message := "ANTHROPIC_API_KEY is not configured" }
  else
    match attempts (extractReal provider rawText) 1 maxRetries none with
    | .ok (result, inputTokens, outputTokens) => .ok ⟨result, model, inputTokens, outputTokens⟩
    | .error lastError => .error (failedAfter "Extraction" lastError)

/-- Whatever the three functions return, a provider has returned. -/
structure MockFree (env : Env) : Prop where
  extractText : ∀ send buffer fileName documentId now r,
    extractText env send buffer fileName documentId now = .ok r → detectTextReal send buffer = .ok r
  classifyDocument : ∀ provider rawText r, classifyDocument env provider rawText = .ok r →
    ∃ attempt tokens, classifyReal provider rawText attempt = .ok (r, tokens)
  extractInvoice : ∀ provider rawText documentId now r, extractInvoice env provider rawText documentId now = .ok r →
    ∃ attempt, extractReal provider rawText attempt = .ok (r.extraction, r.inputTokens, r.outputTokens)

variable {α : Type} {env : Env}

/-- A result of the loop is that of one of its attempts. -/
theorem attempts_eq_ok {call : Nat → Except Thrown α} {attempt left : Nat} {lastError : Option Thrown} {a : α}
    (h : attempts call attempt left lastError = .ok a) : ∃ n, call n = .ok a := by
  induction left generalizing attempt lastError with
  | zero => cases h
  | succ left ih =>
    rw [attempts] at h
    split at h
    · next hcall =>
      cases h
      exact ⟨attempt, hcall⟩
    · exact ih h

/-- The mocks stay out where they are not allowed, and where both providers have their credentials. -/
theorem mockFree_iff : MockFree env ↔ env.allowMockProcessing = false ∨ (hasApiKey env ∧ hasAwsCredentials env) := by
  constructor
  · intro h
    cases ha : env.allowMockProcessing with
    | false => exact .inl rfl
    | true =>
      refine .inr ⟨?_, ?_⟩
      · by_contra hkey
        obtain ⟨attempt, tokens, hreal⟩ := h.classifyDocument (fun _ _ => .error ⟨"Error", "down"⟩) "" classifyMock.1
          (by simp [Config.classifyDocument, hkey, ha])
        cases hreal
      · by_contra haws
        have hreal := h.extractText (fun _ => .error ⟨"Error", "down"⟩) [] "" "" "" (detectTextMock "" "" "")
          (by simp [Config.extractText, haws, ha])
        cases hreal
  · intro h
    have hocr : hasAwsCredentials env ∨ env.allowMockProcessing = false := h.symm.imp And.right id
    have hkey : (!hasApiKey env && env.allowMockProcessing) = false := by
      rcases h with h | ⟨h, -⟩ <;> simp [h]
    refine ⟨fun send buffer fileName documentId now r hr => ?_, fun provider rawText r hr => ?_,
      fun provider rawText documentId now r hr => ?_⟩
    · unfold Config.extractText at hr
      split at hr
      · exact hr
      · next haws => simp [hocr.resolve_left haws] at hr
    · rw [Config.classifyDocument, hkey] at hr
      simp only [Bool.false_eq_true, if_false] at hr
      split at hr
      · cases hr
      · split at hr
        · next hloop =>
          obtain ⟨n, hn⟩ := attempts_eq_ok hloop
          exact ⟨n, _, Except.ok.inj hr ▸ hn⟩
        · cases hr
    · rw [Config.extractInvoice, hkey] at hr
      simp only [Bool.false_eq_true, if_false] at hr
      split at hr
      · cases hr
      · split at hr
        · next hloop =>
          obtain ⟨n, hn⟩ := attempts_eq_ok hloop
          exact ⟨n, Except.ok.inj hr ▸ hn⟩
        · cases hr

/-- A word that says yes, in any case and between blanks. -/
def affirmative (s : String) : Bool :=
  [['t', 'r', 'u', 'e'], ['1'], ['y', 'e', 's'], ['o', 'n']].contains ((Validators.trim s).toList.map Char.toLower)

/-- `ALLOW_MOCK_PROCESSING` says yes. -/
def optedIn (p : ProcessEnv) : Bool := p.allowMockProcessing.any affirmative

/-- The credentials of both providers are there. -/
def hasCredentials (p : ProcessEnv) : Bool :=
  present p.anthropicApiKey && present p.awsAccessKeyId && present p.awsSecretAccessKey

theorem mockFree_of_reads {z : Zod} {p : ProcessEnv} (h : Reads z p env) :
    MockFree env ↔ present p.allowMockProcessing = false ∨ hasCredentials p := by
  rw [mockFree_iff, hasApiKey, hasAwsCredentials, h.allowMockProcessing_eq, h.anthropicApiKey_eq, h.awsAccessKeyId_eq,
    h.awsSecretAccessKey_eq]
  simp [hasCredentials, and_assoc]

/-- A production process stays without mocks unless somebody has opted in: this is so if and only if
`ALLOW_MOCK_PROCESSING` says yes, or is absent or empty, or no credentials are missing, or another
variable keeps the process from starting. -/
theorem mocks_need_opt_in_iff (z : Zod) (p : ProcessEnv) (hproduction : p.nodeEnv = some "production") :
    (optedIn p = false → ∀ env, start z p = .ok env → MockFree env) ↔
      optedIn p ∨ present p.allowMockProcessing = false ∨ hasCredentials p ∨ ¬ Deployable z p := by
  constructor
  · intro h
    by_contra hnot
    simp only [not_or, not_not, Bool.not_eq_false] at hnot
    obtain ⟨hword, hallow, hmissing, hdeploy⟩ := hnot
    obtain ⟨env, henv⟩ := exists_envSchema.2 hdeploy.toWellFormed
    have hreads := envSchema_eq_ok.1 henv
    have hfree := h (by simpa using hword) env ((start_eq_ok hproduction).2 ⟨hreads, .inr hallow, hdeploy⟩)
    rcases (mockFree_of_reads hreads).1 hfree with hoff | hall
    · exact absurd (hallow.symm.trans hoff) (by decide)
    · exact hmissing hall
  · intro h hword env henv
    obtain ⟨hreads, -, hdeploy⟩ := (start_eq_ok hproduction).1 henv
    refine (mockFree_of_reads hreads).2 ?_
    rcases h with hyes | hoff | hall | hnot
    · exact absurd (hword.symm.trans hyes) (by decide)
    · exact .inl hoff
    · exact .inr hall
    · exact absurd hdeploy hnot

/-- A validator that reads numerals, for environments that leave the numbers at their defaults. -/
def numerals : Zod := ⟨fun s => s.toNat?.filter (0 < ·), fun s => s.startsWith "http"⟩

/-- A production environment without the key for extraction. -/
def withoutKey (allowMockProcessing : Option String) : ProcessEnv where
  nodeEnv := some "production"
  metricsToken := some "metrics-token-of-at-least-32-characters"
  databaseUrl := some "postgresql://docauto@db/docauto"
  redisUrl := some "rediss://redis:6379"
  jwtAccessSecret := some "access-secret-of-at-least-32-characters"
  jwtRefreshSecret := some "refresh-secret-of-at-least-32-characters"
  allowMockProcessing := allowMockProcessing
  awsAccessKeyId := some "key"
  awsSecretAccessKey := some "secret"
  awsS3Bucket := some "documents"
  storageDriver := some "s3"

theorem deployable_withoutKey (allow : Option String) : Deployable numerals (withoutKey allow) where
  nodeEnv := by simp [withoutKey]
  port := nofun
  appUrl := nofun
  metricsToken := by simp only [withoutKey, Option.some.injEq]; rintro _ rfl; decide
  databaseUrl := ⟨_, rfl, by decide⟩
  dbPoolMax := nofun
  redisUrl := ⟨_, rfl, by decide⟩
  jwtAccessSecret := ⟨_, rfl, by decide⟩
  jwtRefreshSecret := ⟨_, rfl, by decide⟩
  storageDriver := by simp [withoutKey]
  maxUploadBytes := nofun
  metrics := rfl
  storage := .inl ⟨rfl, rfl⟩

/-- With the word `false` it starts, and every invoice is the mock's. -/
theorem false_starts_with_mocks : optedIn (withoutKey (some "false")) = false ∧
    ∃ env, start numerals (withoutKey (some "false")) = .ok env ∧ ∀ provider rawText documentId now,
      extractInvoice env provider rawText documentId now = .ok ⟨(extractMock documentId now).1, "mock", 0, 0⟩ := by
  refine ⟨by decide, ?_⟩
  obtain ⟨env, henv⟩ := exists_envSchema.2 (deployable_withoutKey (some "false")).toWellFormed
  have hreads := envSchema_eq_ok.1 henv
  have hkey : hasApiKey env = false := by
    rw [hasApiKey, hreads.anthropicApiKey_eq]
    rfl
  have hallow : env.allowMockProcessing = true := hreads.allowMockProcessing_eq
  refine ⟨env, (start_eq_ok rfl).2 ⟨hreads, .inr rfl, deployable_withoutKey _⟩, fun provider rawText documentId now => ?_⟩
  simp [extractInvoice, hkey, hallow, extractMock]

/-- Without the variable it does not start. -/
theorem unset_has_no_mocks : (withoutKey none).nodeEnv = some "production" ∧
    (optedIn (withoutKey none) = false → ∀ env, start numerals (withoutKey none) = .ok env → MockFree env) :=
  ⟨rfl, (mocks_need_opt_in_iff numerals (withoutKey none) rfl).2 (.inr (.inl rfl))⟩

end DocAuto.Config
