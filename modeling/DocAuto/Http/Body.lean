import DocAuto.Http.Request
import DocAuto.Validators.Readers

/-! What the handlers read from a validated request: JSON values as values of the types of the services. -/
namespace DocAuto.Http
open Json Json.Schema Validators Pipeline

/-- The body of an edit. -/
def editOf (body : Value) : ExtractionEdit where
  vendorName := (body.get "vendorName").bind (orNull text)
  vendorAddress := (body.get "vendorAddress").bind (orNull text)
  vendorTaxId := (body.get "vendorTaxId").bind (orNull text)
  invoiceNumber := (body.get "invoiceNumber").bind (orNull text)
  invoiceDate := (body.get "invoiceDate").bind (orNull text)
  dueDate := (body.get "dueDate").bind (orNull text)
  subtotal := (body.get "subtotal").bind (orNull numeral)
  tax := (body.get "tax").bind (orNull numeral)
  total := (body.get "total").bind (orNull numeral)
  lineItems := (body.get "lineItems").bind lineItemsOf
  confidenceScores := (body.get "confidenceScores").bind confidenceOf

/-- The parameters of a tenant update, its `tenantId` apart. -/
def tenantUpdateOf (params : Value) : TenantUpdate where
  name := (params.get "name").bind text
  extractionThreshold := (params.get "extractionThreshold").bind numeral
  webhookUrl := (params.get "webhookUrl").bind (orNull text)

/-! An edit that the schema of JSON bodies lets through is one that the schema of typed bodies lets through
as it is. -/

section Edit
variable {v w : Option Value} {n : Nat}

private theorem text_field (h : Schema.optional (nullable (trimmedText [maxLength n])) v = .done w []) :
    trimmed (w.bind (orNull text)) = w.bind (orNull text) ∧ (w.bind (orNull text)).join.all (isMax n) ∧
      (w.isSome → w.bind (orNull text) ≠ none) := by
  rcases nullish_done h with rfl | rfl | hs
  · exact ⟨rfl, rfl, nofun⟩
  · exact ⟨rfl, rfl, fun _ => Option.some_ne_none _⟩
  · obtain ⟨s, -, rfl, hc⟩ := string_done hs
    have hlen := checks_hold hc (maxLength n) List.mem_cons_self
    simp only [maxLength] at hlen
    refine ⟨?_, ?_, fun _ => Option.some_ne_none _⟩
    · simp only [Option.bind_some, orNull, text, trimmed, Option.map_some, trim_trim]
    · simpa only [Option.bind_some, orNull, text, Option.map_some, Option.join_some, Option.all_some] using hlen

private theorem date_field (h : Schema.optional (nullable date) v = .done w []) :
    (w.bind (orNull text)).join.all isDate ∧ (w.isSome → w.bind (orNull text) ≠ none) := by
  rcases nullish_done h with rfl | rfl | hs
  · exact ⟨rfl, nofun⟩
  · exact ⟨rfl, fun _ => Option.some_ne_none _⟩
  · obtain ⟨s, -, rfl, hc⟩ := string_done hs
    exact ⟨checks_hold hc _ List.mem_cons_self, fun _ => Option.some_ne_none _⟩

private theorem amount_field (h : Schema.optional (nullable amount) v = .done w []) :
    (w.bind (orNull numeral)).join.all isNonnegative ∧ (w.isSome → w.bind (orNull numeral) ≠ none) := by
  rcases nullish_done h with rfl | rfl | hs
  · exact ⟨rfl, nofun⟩
  · exact ⟨rfl, fun _ => Option.some_ne_none _⟩
  · obtain ⟨x, -, rfl, hc⟩ := number_done hs
    exact ⟨checks_hold hc _ List.mem_cons_self, fun _ => Option.some_ne_none _⟩

private theorem lineItems_field {checks : List (Check (List Value))} (hc : ∀ items, (∀ c ∈ checks, c.holds items) → items.length ≤ n)
    (h : Schema.optional (Schema.array lineItemSchema checks) v = .done w []) :
    (w.bind lineItemsOf).all (·.length ≤ n) ∧ (w.isSome → w.bind lineItemsOf ≠ none) := by
  rcases optional_done h with rfl | hs
  · exact ⟨rfl, nofun⟩
  · obtain ⟨x, items, checked, rfl, hread, hlen, hrun⟩ := lineItems_read hs
    rw [Option.bind_some, hread]
    exact ⟨decide_eq_true (hlen ▸ hc checked (checks_hold hrun)), fun _ => Option.some_ne_none _⟩

private theorem confidence_field (h : Schema.optional confidenceScores v = .done w []) :
    (w.bind confidenceOf).all confidenceScoresSchema ∧ (w.isSome → w.bind confidenceOf ≠ none) := by
  rcases optional_done h with rfl | hs
  · exact ⟨rfl, nofun⟩
  · obtain ⟨x, confidence, rfl, hread, hscores⟩ := confidence_read hs
    rw [Option.bind_some, hread]
    exact ⟨hscores, fun _ => Option.some_ne_none _⟩

/-- What is read from an accepted body is an edit that the schema of typed bodies accepts as it is. -/
theorem edit_validated {body : Value} (h : editBody v = .done (some body) []) :
    editExtractionSchema (editOf body) = some (editOf body) := by
  obtain ⟨hobj, hne⟩ := refine_done h
  obtain ⟨x, hx, hfield, hkeys⟩ := object_reads (by decide) hobj
  obtain rfl := Option.some.inj hx
  simp only [editFields, List.forall_mem_cons, List.not_mem_nil, false_imp_iff, implies_true, and_true] at hfield
  obtain ⟨⟨_, hvendorName⟩, ⟨_, hvendorAddress⟩, ⟨_, hvendorTaxId⟩, ⟨_, hinvoiceNumber⟩, ⟨_, hinvoiceDate⟩, ⟨_, hdueDate⟩,
    ⟨_, hsubtotal⟩, ⟨_, htax⟩, ⟨_, htotal⟩, ⟨_, hlineItems⟩, ⟨_, hconfidence⟩⟩ := hfield
  have vendorName := text_field hvendorName
  have vendorAddress := text_field hvendorAddress
  have vendorTaxId := text_field hvendorTaxId
  have invoiceNumber := text_field hinvoiceNumber
  have invoiceDate := date_field hinvoiceDate
  have dueDate := date_field hdueDate
  have subtotal := amount_field hsubtotal
  have tax := amount_field htax
  have total := amount_field htotal
  have lineItems := lineItems_field (n := 1000) (fun items hc => of_decide_eq_true (hc _ List.mem_cons_self)) hlineItems
  have confidence := confidence_field hconfidence
  have hnonempty : editOf body ≠ {} := by
    obtain ⟨f, hf, hsome⟩ : ∃ f ∈ editFields, (body.get f.1).isSome := by
      obtain ⟨k, hk⟩ := List.exists_mem_of_ne_nil body.keys (by simpa [nonempty] using hne)
      obtain ⟨f, hf, -, hsome⟩ := hkeys k hk
      exact ⟨f, hf, hsome⟩
    simp only [editFields, List.mem_cons, List.not_mem_nil, or_false] at hf
    intro hempty
    rcases hf with rfl | rfl | rfl | rfl | rfl | rfl | rfl | rfl | rfl | rfl | rfl
    · exact vendorName.2.2 hsome (congrArg ExtractionEdit.vendorName hempty)
    · exact vendorAddress.2.2 hsome (congrArg ExtractionEdit.vendorAddress hempty)
    · exact vendorTaxId.2.2 hsome (congrArg ExtractionEdit.vendorTaxId hempty)
    · exact invoiceNumber.2.2 hsome (congrArg ExtractionEdit.invoiceNumber hempty)
    · exact invoiceDate.2 hsome (congrArg ExtractionEdit.invoiceDate hempty)
    · exact dueDate.2 hsome (congrArg ExtractionEdit.dueDate hempty)
    · exact subtotal.2 hsome (congrArg ExtractionEdit.subtotal hempty)
    · exact tax.2 hsome (congrArg ExtractionEdit.tax hempty)
    · exact total.2 hsome (congrArg ExtractionEdit.total hempty)
    · exact lineItems.2 hsome (congrArg ExtractionEdit.lineItems hempty)
    · exact confidence.2 hsome (congrArg ExtractionEdit.confidenceScores hempty)
  have htrimmed : trimmed (editOf body).vendorName = (editOf body).vendorName ∧
      trimmed (editOf body).vendorAddress = (editOf body).vendorAddress ∧
      trimmed (editOf body).vendorTaxId = (editOf body).vendorTaxId ∧
      trimmed (editOf body).invoiceNumber = (editOf body).invoiceNumber :=
    ⟨vendorName.1, vendorAddress.1, vendorTaxId.1, invoiceNumber.1⟩
  obtain ⟨h₁, h₂, h₃, h₄⟩ := htrimmed
  have hchecks : (editOf body).vendorName.join.all (isMax 1000) ∧ (editOf body).vendorAddress.join.all (isMax 2000) ∧
      (editOf body).vendorTaxId.join.all (isMax 100) ∧ (editOf body).invoiceNumber.join.all (isMax 100) ∧
      (editOf body).invoiceDate.join.all isDate ∧ (editOf body).dueDate.join.all isDate ∧
      (editOf body).subtotal.join.all isNonnegative ∧ (editOf body).tax.join.all isNonnegative ∧
      (editOf body).total.join.all isNonnegative ∧ (editOf body).lineItems.all (·.length ≤ 1000) ∧
      (editOf body).confidenceScores.all confidenceScoresSchema :=
    ⟨vendorName.2.1, vendorAddress.2.1, vendorTaxId.2.1, invoiceNumber.2.1, invoiceDate.1, dueDate.1, subtotal.1, tax.1,
      total.1, lineItems.1, confidence.1⟩
  obtain ⟨c₁, c₂, c₃, c₄, c₅, c₆, c₇, c₈, c₉, c₁₀, c₁₁⟩ := hchecks
  simp only [editExtractionSchema, h₁, h₂, h₃, h₄, c₁, c₂, c₃, c₄, c₅, c₆, c₇, c₈, c₉, c₁₀, c₁₁, Bool.and_self, Bool.true_and,
    bne_iff_ne, ne_eq, hnonempty, not_false_eq_true, if_true]

end Edit

end DocAuto.Http
