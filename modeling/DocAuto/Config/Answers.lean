import DocAuto.Config.Mocks
import DocAuto.Validators.Readers

/-! What the model answers, and what the schemas of the results make of it: `validators/extraction.ts`. -/
namespace DocAuto.Config
open Json Json.Schema Validators Pipeline

section Schemas

/-- The texts of `docTypeSchema`. -/
def docTypeTexts : List (String × DocType) :=
  [("invoice", .invoice), ("receipt", .receipt), ("purchase_order", .purchaseOrder), ("unknown", .unknown)]

def docTypeSchema : Schema := .enum (docTypeTexts.map Prod.fst)

def classificationResultSchema : Schema := .object [("docType", docTypeSchema), ("confidence", score)]

/-- `z.string().nullable()`. -/
def nullableText : Schema := .nullable (.string id [])

def vendorSchema : Schema := .object [("name", nullableText), ("address", nullableText), ("taxId", nullableText)]

def invoiceSchema : Schema := .object [("number", nullableText), ("date", nullableText), ("dueDate", nullableText)]

def totalsSchema : Schema := .object [("subtotal", .number []), ("tax", .number []), ("total", .number [])]

def invoiceExtractionSchema : Schema := .object [
  ("vendor", vendorSchema), ("invoice", invoiceSchema), ("totals", totalsSchema),
  ("lineItems", .array lineItemSchema []), ("confidence", confidenceScores)]

end Schemas

section Readers

def classificationOf (v : Value) : Option ClassificationResult := do
  return ⟨← (← (v.get "docType").bind text) |> docTypeTexts.lookup, ← (v.get "confidence").bind numeral⟩

def vendorOf (v : Value) : Option Vendor := do
  return ⟨← (v.get "name").bind (orNull text), ← (v.get "address").bind (orNull text), ← (v.get "taxId").bind (orNull text)⟩

def invoiceOf (v : Value) : Option Invoice := do
  return ⟨← (v.get "number").bind (orNull text), ← (v.get "date").bind (orNull text), ← (v.get "dueDate").bind (orNull text)⟩

def totalsOf (v : Value) : Option Totals := do
  return ⟨← (v.get "subtotal").bind numeral, ← (v.get "tax").bind numeral, ← (v.get "total").bind numeral⟩

def invoiceExtractionOf (v : Value) : Option InvoiceExtraction := do
  return ⟨← (v.get "vendor").bind vendorOf, ← (v.get "invoice").bind invoiceOf, ← (v.get "totals").bind totalsOf,
    ← (v.get "lineItems").bind lineItemsOf, ← (v.get "confidence").bind confidenceOf⟩

end Readers

section Parse
variable {α : Type}

/-- `schema.parse(value)`, read as a value of the schema's type. `report` is the text of a `ZodError`. -/
def parse (report : List Json.Issue → String) (schema : Schema) (read : Value → Option α) (v : Value) : Except Thrown α :=
  match safeParse schema (some v) with
  | .ok w => (w.bind read).elim (.error { message := "" }) .ok
  | .error issues => .error { name := "ZodError", message := report issues }

/-- A block of a message as it comes over the wire. -/
inductive Block where
  | text
  | toolUse (input : Value)

structure Answer where
  content : List Block
  inputTokens : Nat
  outputTokens : Nat

/-- What the client of the model makes of the message at each attempt: any JSON, or an error. -/
abbrev Client := (attempt : Nat) → (content : String) → Except Thrown Answer

def Block.reading (read : Value → Except Thrown α) : Block → ContentBlock α
  | .text => .text
  | .toolUse input => .toolUse (read input)

def Answer.reading (read : Value → Except Thrown α) (answer : Answer) : Message α :=
  ⟨answer.content.map (Block.reading read), answer.inputTokens, answer.outputTokens⟩

def Client.reading (read : Value → Except Thrown α) (client : Client) : Anthropic α :=
  fun attempt content => (client attempt content).map (Answer.reading read)

end Parse

/-- The model behind its schemas. -/
def classifier (report : List Json.Issue → String) (client : Client) : Anthropic ClassificationResult :=
  client.reading (parse report classificationResultSchema classificationOf)

def extractor (report : List Json.Issue → String) (client : Client) : Anthropic InvoiceExtraction :=
  client.reading (parse report invoiceExtractionSchema invoiceExtractionOf)

/-! What the schemas accept is read, and is what the typed schemas accept. -/

section Read
variable {v w : Option Value}

theorem nullableText_read (h : nullableText v = .done w []) : ∃ s, w.bind (orNull text) = some s := by
  rcases nullable_done h with rfl | hs
  · exact ⟨none, rfl⟩
  · obtain ⟨s, -, rfl⟩ := text_read hs
    exact ⟨some s, rfl⟩

theorem classification_read (h : classificationResultSchema v = .done w []) :
    ∃ r, w.bind classificationOf = some r ∧ isScore r.confidence := by
  obtain ⟨x, rfl, hfield, -⟩ := object_reads (by decide) h
  simp only [List.forall_mem_cons, List.not_mem_nil, false_imp_iff, implies_true, and_true] at hfield
  obtain ⟨⟨_, hdocType⟩, ⟨_, hconfidence⟩⟩ := hfield
  obtain ⟨s, hs, -, hd⟩ := enum_done hdocType
  obtain ⟨c, hc, hrange⟩ := score_read hconfidence
  have hlookup : ∀ s ∈ docTypeTexts.map Prod.fst, (docTypeTexts.lookup s).isSome := by decide
  obtain ⟨docType, hl⟩ := Option.isSome_iff_exists.1 (hlookup s hs)
  exact ⟨⟨docType, c⟩, by simp [classificationOf, hd, hc, text, numeral, hl], hrange⟩

theorem vendor_read (h : vendorSchema v = .done w []) : ∃ vendor, w.bind vendorOf = some vendor := by
  obtain ⟨x, rfl, hfield, -⟩ := object_reads (by decide) h
  simp only [List.forall_mem_cons, List.not_mem_nil, false_imp_iff, implies_true, and_true] at hfield
  obtain ⟨⟨_, hname⟩, ⟨_, haddress⟩, ⟨_, htaxId⟩⟩ := hfield
  obtain ⟨name, hn⟩ := nullableText_read hname
  obtain ⟨address, ha⟩ := nullableText_read haddress
  obtain ⟨taxId, ht⟩ := nullableText_read htaxId
  exact ⟨⟨name, address, taxId⟩, by rw [Option.bind_some, vendorOf, hn, ha, ht]; rfl⟩

theorem invoice_read (h : invoiceSchema v = .done w []) : ∃ invoice, w.bind invoiceOf = some invoice := by
  obtain ⟨x, rfl, hfield, -⟩ := object_reads (by decide) h
  simp only [List.forall_mem_cons, List.not_mem_nil, false_imp_iff, implies_true, and_true] at hfield
  obtain ⟨⟨_, hnumber⟩, ⟨_, hdate⟩, ⟨_, hdueDate⟩⟩ := hfield
  obtain ⟨number, hn⟩ := nullableText_read hnumber
  obtain ⟨date, hd⟩ := nullableText_read hdate
  obtain ⟨dueDate, hu⟩ := nullableText_read hdueDate
  exact ⟨⟨number, date, dueDate⟩, by rw [Option.bind_some, invoiceOf, hn, hd, hu]; rfl⟩

theorem totals_read (h : totalsSchema v = .done w []) : ∃ totals, w.bind totalsOf = some totals := by
  obtain ⟨x, rfl, hfield, -⟩ := object_reads (by decide) h
  simp only [List.forall_mem_cons, List.not_mem_nil, false_imp_iff, implies_true, and_true] at hfield
  obtain ⟨⟨_, hsubtotal⟩, ⟨_, htax⟩, ⟨_, htotal⟩⟩ := hfield
  obtain ⟨subtotal, -, hs, -⟩ := number_done hsubtotal
  obtain ⟨tax, -, ht, -⟩ := number_done htax
  obtain ⟨total, -, hu, -⟩ := number_done htotal
  exact ⟨⟨subtotal, tax, total⟩, by rw [Option.bind_some, totalsOf, hs, ht, hu]; rfl⟩

/-- An accepted extraction is read, and the typed schema accepts it. -/
theorem extraction_read (h : invoiceExtractionSchema v = .done w []) :
    ∃ e, w.bind invoiceExtractionOf = some e ∧ Validators.invoiceExtractionSchema e := by
  obtain ⟨x, rfl, hfield, -⟩ := object_reads (by decide) h
  simp only [List.forall_mem_cons, List.not_mem_nil, false_imp_iff, implies_true, and_true] at hfield
  obtain ⟨⟨_, hvendor⟩, ⟨_, hinvoice⟩, ⟨_, htotals⟩, ⟨_, hlineItems⟩, ⟨_, hconfidence⟩⟩ := hfield
  obtain ⟨vendor, hv⟩ := vendor_read hvendor
  obtain ⟨invoice, hi⟩ := invoice_read hinvoice
  obtain ⟨totals, ht⟩ := totals_read htotals
  obtain ⟨_, items, -, hls, hl, -⟩ := lineItems_read hlineItems
  obtain ⟨_, confidence, hcs, hc, hscores⟩ := confidence_read hconfidence
  refine ⟨⟨vendor, invoice, totals, items, confidence⟩, ?_, hscores⟩
  rw [Option.bind_some, invoiceExtractionOf, hv, hi, ht, hls, hcs, Option.bind_some, Option.bind_some, hl, hc]
  rfl

end Read

/-! Every such extraction is one that the model may answer. -/

section Encode

def ofText (s : Option String) : Value := s.elim .null .string

def ofLineItem (item : LineItem) : Value := .object [
  ("description", .string item.description), ("quantity", .number item.quantity),
  ("unitPrice", .number item.unitPrice), ("amount", .number item.amount)]

def ofConfidence (confidence : List (String × ℚ)) : Value := .object (confidence.map fun m => (m.1, .number m.2))

/-- The input with which the model gives an extraction. -/
def ofExtraction (e : InvoiceExtraction) : Value := .object [
  ("vendor", .object [("name", ofText e.vendor.name), ("address", ofText e.vendor.address), ("taxId", ofText e.vendor.taxId)]),
  ("invoice", .object [("number", ofText e.invoice.number), ("date", ofText e.invoice.date), ("dueDate", ofText e.invoice.dueDate)]),
  ("totals", .object [("subtotal", .number e.totals.subtotal), ("tax", .number e.totals.tax), ("total", .number e.totals.total)]),
  ("lineItems", .array (e.lineItems.map ofLineItem)),
  ("confidence", ofConfidence e.confidence)]

theorem nullableText_self (s : Option String) : nullableText (some (ofText s)) = .done (some (ofText s)) [] := by
  cases s <;> rfl

theorem lineItem_self (item : LineItem) : lineItemSchema (some (ofLineItem item)) = .done (some (ofLineItem item)) [] :=
  object_self (by decide) (.cons ⟨rfl, rfl⟩ (.cons ⟨rfl, rfl⟩ (.cons ⟨rfl, rfl⟩ (.cons ⟨rfl, rfl⟩ .nil))))

theorem score_self {x : ℚ} (h : isScore x) : score (some (.number x)) = .done (some (.number x)) [] := by
  obtain ⟨h0, h1⟩ : 0 ≤ x ∧ x ≤ 1 := by simpa [isScore] using h
  have hrun : Check.run [atLeast 0, atMost 1] x = [] := by
    simp [Check.run, atLeast, atMost, h0, h1]
  exact congrArg (Outcome.done _) hrun

theorem confidence_self {confidence : List (String × ℚ)} (h : confidenceScoresSchema confidence) :
    confidenceScores (some (ofConfidence confidence)) = .done (some (ofConfidence confidence)) [] := by
  obtain ⟨hkeys, hrange⟩ : confidence.map Prod.fst = confidenceFields ∧ ∀ m ∈ confidence, isScore m.2 := by
    simpa [confidenceScoresSchema] using h
  refine object_self (by decide) ?_
  rw [← hkeys, List.map_map]
  refine List.forall₂_map_left_iff.2 (List.forall₂_map_right_iff.2 (List.forall₂_same.2 fun m hm => ⟨rfl, ?_⟩))
  exact score_self (hrange m hm)

/-- The schema takes the input as it is. -/
theorem extraction_self {e : InvoiceExtraction} (h : Validators.invoiceExtractionSchema e) :
    invoiceExtractionSchema (some (ofExtraction e)) = .done (some (ofExtraction e)) [] := by
  have texts : ∀ (names : String × String × String) (a b c : Option String), [names.1, names.2.1, names.2.2].Nodup →
      Schema.object [(names.1, nullableText), (names.2.1, nullableText), (names.2.2, nullableText)]
          (some (.object [(names.1, ofText a), (names.2.1, ofText b), (names.2.2, ofText c)])) =
        .done (some (.object [(names.1, ofText a), (names.2.1, ofText b), (names.2.2, ofText c)])) [] := by
    intro names a b c hn
    exact object_self hn (.cons ⟨rfl, nullableText_self a⟩ (.cons ⟨rfl, nullableText_self b⟩ (.cons ⟨rfl, nullableText_self c⟩ .nil)))
  have vendor := texts ("name", "address", "taxId") e.vendor.name e.vendor.address e.vendor.taxId (by decide)
  have invoice := texts ("number", "date", "dueDate") e.invoice.number e.invoice.date e.invoice.dueDate (by decide)
  have totals : totalsSchema (some (.object [("subtotal", .number e.totals.subtotal), ("tax", .number e.totals.tax),
      ("total", .number e.totals.total)])) = .done (some (.object [("subtotal", .number e.totals.subtotal),
        ("tax", .number e.totals.tax), ("total", .number e.totals.total)])) [] :=
    object_self (by decide) (.cons ⟨rfl, rfl⟩ (.cons ⟨rfl, rfl⟩ (.cons ⟨rfl, rfl⟩ .nil)))
  have lineItems : Schema.array lineItemSchema [] (some (.array (e.lineItems.map ofLineItem))) =
      .done (some (.array (e.lineItems.map ofLineItem))) [] := by
    refine array_accepts rfl fun x hx => ?_
    obtain ⟨item, -, rfl⟩ := List.mem_map.1 hx
    exact lineItem_self item
  exact object_self (by decide) (.cons ⟨rfl, vendor⟩ (.cons ⟨rfl, invoice⟩ (.cons ⟨rfl, totals⟩ (.cons ⟨rfl, lineItems⟩
    (.cons ⟨rfl, confidence_self h⟩ .nil)))))

def ofClassification (r : ClassificationResult) : Value := .object [
  ("docType", .string (match r.docType with
    | .invoice => "invoice"
    | .receipt => "receipt"
    | .purchaseOrder => "purchase_order"
    | .unknown => "unknown")),
  ("confidence", .number r.confidence)]

theorem classification_self {r : ClassificationResult} (h : isScore r.confidence) :
    classificationResultSchema (some (ofClassification r)) = .done (some (ofClassification r)) [] := by
  refine object_self (by decide) (.cons ⟨rfl, ?_⟩ (.cons ⟨rfl, score_self h⟩ .nil))
  cases r.docType <;> rfl

theorem ofClassification_read (r : ClassificationResult) : classificationOf (ofClassification r) = some r := by
  obtain ⟨docType, confidence⟩ := r
  cases docType <;> rfl

theorem ofText_read (s : Option String) : orNull text (ofText s) = some s := by cases s <;> rfl

/-- And it is read as the extraction. -/
theorem ofExtraction_read (e : InvoiceExtraction) : invoiceExtractionOf (ofExtraction e) = some e := by
  have vendor : vendorOf (.object [("name", ofText e.vendor.name), ("address", ofText e.vendor.address),
      ("taxId", ofText e.vendor.taxId)]) = some e.vendor := by
    simp [vendorOf, Value.get, List.lookup_cons, ofText_read]
  have invoice : invoiceOf (.object [("number", ofText e.invoice.number), ("date", ofText e.invoice.date),
      ("dueDate", ofText e.invoice.dueDate)]) = some e.invoice := by
    simp [invoiceOf, Value.get, List.lookup_cons, ofText_read]
  have lineItems : lineItemsOf (.array (e.lineItems.map ofLineItem)) = some e.lineItems := by
    rw [lineItemsOf, List.mapM_map, mapM_read (f := id) fun item _ => ?_, List.map_id]
    rfl
  have confidence : confidenceOf (ofConfidence e.confidence) = some e.confidence := by
    rw [ofConfidence, confidenceOf, List.mapM_map, mapM_read (f := id) fun m _ => ?_, List.map_id]
    rfl
  simp [invoiceExtractionOf, ofExtraction, Value.get, List.lookup_cons, vendor, invoice, lineItems, confidence, totalsOf, numeral]

end Encode

/-- What the schema of extractions makes of all the JSON there is: the extractions that the typed schema accepts. -/
theorem parse_extraction_iff (report : List Json.Issue → String) {e : InvoiceExtraction} :
    (∃ v, parse report invoiceExtractionSchema invoiceExtractionOf v = .ok e) ↔ Validators.invoiceExtractionSchema e := by
  constructor
  · rintro ⟨v, h⟩
    unfold parse at h
    split at h
    · next w hw =>
      obtain ⟨e', he, hvalid⟩ := extraction_read (safeParse_ok.1 hw)
      rw [he] at h
      exact Except.ok.inj h ▸ hvalid
    · cases h
  · intro h
    refine ⟨ofExtraction e, ?_⟩
    rw [parse, safeParse_ok.2 (extraction_self h)]
    simp only [Option.bind_some, ofExtraction_read, Option.elim_some]

theorem parse_classification_iff (report : List Json.Issue → String) {r : ClassificationResult} :
    (∃ v, parse report classificationResultSchema classificationOf v = .ok r) ↔ isScore r.confidence := by
  constructor
  · rintro ⟨v, h⟩
    unfold parse at h
    split at h
    · next w hw =>
      obtain ⟨r', hr, hrange⟩ := classification_read (safeParse_ok.1 hw)
      rw [hr] at h
      exact Except.ok.inj h ▸ hrange
    · cases h
  · intro h
    refine ⟨ofClassification r, ?_⟩
    rw [parse, safeParse_ok.2 (classification_self h)]
    simp only [Option.bind_some, ofClassification_read, Option.elim_some]

section Calls
variable {α : Type} {read : Value → Except Thrown α}

theorem toolInput_reading {blocks : List Block} {a : α} (h : toolInput (blocks.map (Block.reading read)) = .ok a) :
    ∃ v, read v = .ok a := by
  induction blocks with
  | nil => cases h
  | cons block blocks ih =>
    cases block with
    | text => exact ih h
    | toolUse input => exact ⟨input, h⟩

/-- What a call returns has been read from a tool's input. -/
theorem callReal_reading {response : Except Thrown Answer} {a : α} {tokens : Nat × Nat}
    (h : callReal (response.map (Answer.reading read)) = .ok (a, tokens)) : ∃ v, read v = .ok a := by
  cases response with
  | error e => cases h
  | ok answer =>
    have hcall : (toolInput (answer.content.map (Block.reading read))).map (fun a => (a, answer.inputTokens, answer.outputTokens)) =
        .ok (a, tokens) := by
      rw [← h]
      cases hi : toolInput (answer.content.map (Block.reading read)) <;>
        simp [callReal, Answer.reading, Except.map, hi, bind, Except.bind, pure, Except.pure]
    cases hi : toolInput (answer.content.map (Block.reading read)) with
    | error e =>
      rw [hi] at hcall
      cases hcall
    | ok b =>
      rw [hi] at hcall
      obtain rfl : b = a := congrArg Prod.fst (Except.ok.inj hcall)
      exact toolInput_reading hi

/-- A client that answers with one input. -/
def oneInput (v : Value) (inputTokens outputTokens : Nat) : Client := fun _ _ => .ok ⟨[.toolUse v], inputTokens, outputTokens⟩

theorem oneInput_call {v : Value} {a : α} (h : read v = .ok a) (i o attempt : Nat) (content : String) :
    callReal ((oneInput v i o).reading read attempt content) = .ok (a, i, o) := by
  simp [oneInput, callReal, Client.reading, Answer.reading, Block.reading, Except.map, toolInput, h, bind, Except.bind, pure, Except.pure]

/-- The loop returns the result of the first attempt that has one. -/
theorem attempts_iff {call : Nat → Except Thrown α} {attempt left : Nat} {lastError : Option Thrown} {a : α} :
    attempts call attempt left lastError = .ok a ↔
      ∃ n < left, call (attempt + n) = .ok a ∧ ∀ m < n, ∃ e, call (attempt + m) = .error e := by
  induction left generalizing attempt lastError with
  | zero => exact ⟨nofun, fun ⟨n, hn, _⟩ => absurd hn (Nat.not_lt_zero n)⟩
  | succ left ih =>
    rw [attempts]
    split
    · next b hb =>
      constructor
      · rintro ⟨⟩
        exact ⟨0, Nat.succ_pos left, hb, fun m hm => absurd hm (Nat.not_lt_zero m)⟩
      · rintro ⟨n, -, hn, hfail⟩
        cases n with
        | zero => exact congrArg Except.ok (Except.ok.inj (hb.symm.trans hn))
        | succ n =>
          obtain ⟨e, he⟩ := hfail 0 (Nat.succ_pos n)
          cases hb.symm.trans he
    · next err herr =>
      rw [ih]
      constructor
      · rintro ⟨n, hn, ha, hfail⟩
        refine ⟨n + 1, Nat.succ_lt_succ hn, by rw [← ha]; congr 1; omega, fun m hm => ?_⟩
        cases m with
        | zero => exact ⟨err, herr⟩
        | succ m =>
          obtain ⟨e, he⟩ := hfail m (Nat.lt_of_succ_lt_succ hm)
          exact ⟨e, by rw [← he]; congr 1; omega⟩
      · rintro ⟨n, hn, ha, hfail⟩
        cases n with
        | zero => cases herr.symm.trans ha
        | succ n =>
          refine ⟨n, Nat.lt_of_succ_lt_succ hn, by rw [← ha]; congr 1; omega, fun m hm => ?_⟩
          obtain ⟨e, he⟩ := hfail (m + 1) (Nat.succ_lt_succ hm)
          exact ⟨e, by rw [← he]; congr 1; omega⟩

end Calls

section Classify
variable {env : Env} {provider : Anthropic ClassificationResult} {rawText : String}

theorem classifyDocument_real (hkey : hasApiKey env) {r : ClassificationResult} :
    classifyDocument env provider rawText = .ok r ↔
      ∃ tokens, attempts (classifyReal provider rawText) 1 maxRetries none = .ok (r, tokens) := by
  rw [classifyDocument, hkey]
  simp only [Bool.not_true, Bool.false_and, Bool.false_eq_true, if_false]
  split
  · next hloop =>
    rw [hloop]
    simp only [Except.ok.injEq, Prod.mk.injEq, exists_and_left, exists_eq', and_true]
  · next hloop =>
    rw [hloop]
    constructor
    · intro h
      cases h
    · rintro ⟨tokens, h⟩
      cases h

theorem classifyDocument_mock (hkey : hasApiKey env = false) : classifyDocument env provider rawText =
    if env.allowMockProcessing then .ok classifyMock.1 else .error { message := "ANTHROPIC_API_KEY is not configured" } := by
  cases hallow : env.allowMockProcessing <;> simp [classifyDocument, hkey, hallow]

/-- What `classifyDocument` returns over all that the model may answer. -/
theorem classifyDocument_iff (report : List Json.Issue → String) (env : Env) (rawText : String) (r : ClassificationResult) :
    (∃ client, classifyDocument env (classifier report client) rawText = .ok r) ↔
      (hasApiKey env ∧ isScore r.confidence) ∨ (hasApiKey env = false ∧ env.allowMockProcessing ∧ r = classifyMock.1) := by
  cases hkey : hasApiKey env with
  | false =>
    simp only [classifyDocument_mock hkey, Bool.false_eq_true, false_and, false_or, true_and]
    cases env.allowMockProcessing with
    | false => exact ⟨nofun, nofun⟩
    | true => exact ⟨fun ⟨_, h⟩ => ⟨rfl, (Except.ok.inj h).symm⟩, fun h => ⟨oneInput .null 0 0, congrArg Except.ok h.2.symm⟩⟩
  | true =>
    simp only [classifyDocument_real hkey, true_and, Bool.true_eq_false, false_and, or_false]
    constructor
    · rintro ⟨client, tokens, hloop⟩
      obtain ⟨n, hn⟩ := attempts_eq_ok hloop
      obtain ⟨v, hv⟩ := callReal_reading hn
      exact (parse_classification_iff report).1 ⟨v, hv⟩
    · intro hscore
      obtain ⟨v, hv⟩ := (parse_classification_iff report).2 hscore
      exact ⟨oneInput v 0 0, (0, 0), attempts_iff.2 ⟨0, by decide, oneInput_call hv 0 0 _ _, nofun⟩⟩

end Classify

/-- Whatever the model answers, a classification has a score for its confidence. -/
theorem classifyDocument_score {report : List Json.Issue → String} {env : Env} {client : Client} {rawText : String}
    {r : ClassificationResult} (h : classifyDocument env (classifier report client) rawText = .ok r) : isScore r.confidence := by
  rcases (classifyDocument_iff report env rawText r).1 ⟨client, h⟩ with ⟨-, hscore⟩ | ⟨-, -, rfl⟩
  · exact hscore
  · norm_num [classifyMock, isScore]

theorem extractMock_valid (documentId now : String) : Validators.invoiceExtractionSchema (extractMock documentId now).1 := by
  have hkeys : (extractMock documentId now).1.confidence.map Prod.fst = confidenceFields := rfl
  rw [Validators.invoiceExtractionSchema, confidenceScoresSchema, hkeys, beq_self_eq_true, Bool.true_and]
  norm_num [extractMock, isScore]

section Extract
variable {env : Env} {provider : Anthropic InvoiceExtraction} {rawText documentId now : String}

theorem extractInvoice_real (hkey : hasApiKey env) {r : ExtractionResult} :
    extractInvoice env provider rawText documentId now = .ok r ↔
      attempts (extractReal provider rawText) 1 maxRetries none = .ok (r.extraction, r.inputTokens, r.outputTokens) ∧
        r.llmModel = model := by
  rw [extractInvoice, hkey]
  simp only [Bool.not_true, Bool.false_and, Bool.false_eq_true, if_false]
  obtain ⟨extraction, llmModel, inputTokens, outputTokens⟩ := r
  split
  · next hloop =>
    rw [hloop]
    simp only [Except.ok.injEq, ExtractionResult.mk.injEq, Prod.mk.injEq]
    constructor
    · rintro ⟨he, hm, hi, ho⟩
      exact ⟨⟨he, hi, ho⟩, hm.symm⟩
    · rintro ⟨⟨he, hi, ho⟩, hm⟩
      exact ⟨he, hm.symm, hi, ho⟩
  · next hloop =>
    rw [hloop]
    constructor
    · intro h
      cases h
    · intro h
      cases h.1

theorem extractInvoice_mock (hkey : hasApiKey env = false) :
    extractInvoice env provider rawText documentId now =
      if env.allowMockProcessing then .ok ⟨(extractMock documentId now).1, "mock", 0, 0⟩
      else .error { message := "ANTHROPIC_API_KEY is not configured" } := by
  cases hallow : env.allowMockProcessing <;> simp [extractInvoice, hkey, hallow, extractMock]

end Extract

/-- What `extractInvoice` returns over all that the model may answer, in three attempts or fewer: with a key every
extraction that the typed schema accepts, and no other; without one the mock's, where mocks are allowed. -/
theorem extractInvoice_iff (report : List Json.Issue → String) (env : Env) (rawText documentId now : String) (r : ExtractionResult) :
    (∃ client, extractInvoice env (extractor report client) rawText documentId now = .ok r) ↔
      (hasApiKey env ∧ Validators.invoiceExtractionSchema r.extraction ∧ r.llmModel = model) ∨
      (hasApiKey env = false ∧ env.allowMockProcessing ∧ r = ⟨(extractMock documentId now).1, "mock", 0, 0⟩) := by
  cases hkey : hasApiKey env with
  | false =>
    simp only [extractInvoice_mock hkey, Bool.false_eq_true, false_and, false_or, true_and]
    cases env.allowMockProcessing with
    | false => exact ⟨nofun, nofun⟩
    | true => exact ⟨fun ⟨_, h⟩ => ⟨rfl, (Except.ok.inj h).symm⟩, fun h => ⟨oneInput .null 0 0, congrArg Except.ok h.2.symm⟩⟩
  | true =>
    simp only [extractInvoice_real hkey, true_and, Bool.true_eq_false, false_and, or_false]
    constructor
    · rintro ⟨client, hloop, hmodel⟩
      obtain ⟨n, hn⟩ := attempts_eq_ok hloop
      obtain ⟨v, hv⟩ := callReal_reading hn
      exact ⟨(parse_extraction_iff report).1 ⟨v, hv⟩, hmodel⟩
    · rintro ⟨hvalid, hmodel⟩
      obtain ⟨v, hv⟩ := (parse_extraction_iff report).2 hvalid
      exact ⟨oneInput v _ _, attempts_iff.2 ⟨0, by decide, oneInput_call hv _ _ _ _, nofun⟩, hmodel⟩

/-- Whatever the model answers. What comes of a call is what its schema accepts, all of it and nothing
else, or the mock's where there is no key and mocks are allowed. With a key it is the answer of the first
of three attempts that has one. -/
theorem answers_exact (report : List Json.Issue → String) (env : Env) (rawText documentId now : String) :
    (∀ r, (∃ client, classifyDocument env (classifier report client) rawText = .ok r) ↔
      (hasApiKey env ∧ isScore r.confidence) ∨ (hasApiKey env = false ∧ env.allowMockProcessing ∧ r = classifyMock.1)) ∧
    (∀ r, (∃ client, extractInvoice env (extractor report client) rawText documentId now = .ok r) ↔
      (hasApiKey env ∧ Validators.invoiceExtractionSchema r.extraction ∧ r.llmModel = model) ∨
      (hasApiKey env = false ∧ env.allowMockProcessing ∧ r = ⟨(extractMock documentId now).1, "mock", 0, 0⟩)) ∧
    (∀ client r, hasApiKey env → (classifyDocument env (classifier report client) rawText = .ok r ↔
      ∃ n < 3, (∃ tokens, classifyReal (classifier report client) rawText (1 + n) = .ok (r, tokens)) ∧
        ∀ m < n, ∃ e, classifyReal (classifier report client) rawText (1 + m) = .error e)) ∧
    ∀ client r, hasApiKey env → (extractInvoice env (extractor report client) rawText documentId now = .ok r ↔
      r.llmModel = model ∧ ∃ n < 3,
        extractReal (extractor report client) rawText (1 + n) = .ok (r.extraction, r.inputTokens, r.outputTokens) ∧
        ∀ m < n, ∃ e, extractReal (extractor report client) rawText (1 + m) = .error e) := by
  refine ⟨classifyDocument_iff report env rawText, extractInvoice_iff report env rawText documentId now,
    fun client r hkey => ?_, fun client r hkey => ?_⟩
  · rw [classifyDocument_real hkey]
    constructor
    · rintro ⟨tokens, hloop⟩
      obtain ⟨n, hn, hanswer, hfirst⟩ := attempts_iff.1 hloop
      exact ⟨n, hn, ⟨tokens, hanswer⟩, hfirst⟩
    · rintro ⟨n, hn, ⟨tokens, hanswer⟩, hfirst⟩
      exact ⟨tokens, attempts_iff.2 ⟨n, hn, hanswer, hfirst⟩⟩
  · rw [extractInvoice_real hkey, attempts_iff, and_comm]
    rfl

end DocAuto.Config
