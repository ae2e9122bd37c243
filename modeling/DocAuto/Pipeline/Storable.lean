import DocAuto.Database.Columns
import DocAuto.Validators.Documents

/-! Which values accepted by the schemas of an extraction and of an edit fit the columns of
`documents_extraction`. -/
namespace DocAuto

/-- What `toFixed(2)` rounds to at most ten digits before the point is below it. -/
def maxAmount : ℚ := 10 ^ 10 - 1 / 200

namespace InvoiceExtraction
variable (e : InvoiceExtraction)

/-- The strings without a limit. -/
def texts : List String := e.vendor.name.toList ++ e.vendor.address.toList ++ e.lineItems.map (·.description)

def codes : List String := e.vendor.taxId.toList ++ e.invoice.number.toList

def dates : List String := e.invoice.date.toList ++ e.invoice.dueDate.toList

def amounts : List ℚ := [e.totals.subtotal, e.totals.tax, e.totals.total]

/-- What `invoiceExtractionSchema` does not ask. -/
@[mk_iff] structure Storable (readsDate : String → Bool) : Prop where
  texts : ∀ s ∈ e.texts ++ e.codes, '\x00' ∉ s.toList
  short : ∀ s ∈ e.codes, ∀ c ∈ s.toList.drop 100, c = ' '
  dates : ∀ s ∈ e.dates, readsDate s
  amounts : ∀ x ∈ e.amounts, |x| < maxAmount

end InvoiceExtraction

namespace ExtractionEdit
variable (changes : ExtractionEdit)

def texts : List String :=
  changes.vendorName.join.toList ++ changes.vendorAddress.join.toList ++ changes.vendorTaxId.join.toList ++
    changes.invoiceNumber.join.toList ++ (changes.lineItems.getD []).map (·.description)

def dates : List String := changes.invoiceDate.join.toList ++ changes.dueDate.join.toList

def amounts : List ℚ := changes.subtotal.join.toList ++ changes.tax.join.toList ++ changes.total.join.toList

/-- What `editExtractionSchema` does not ask. -/
@[mk_iff] structure Storable : Prop where
  texts : ∀ s ∈ changes.texts, '\x00' ∉ s.toList
  years : ∀ s ∈ changes.dates, ∀ date, Validators.isoDate s = some date → date.year ≠ 0
  amounts : ∀ x ∈ changes.amounts, x < maxAmount

end ExtractionEdit

/-- What is relied on of the database: an ISO date is read unless its year is 0. -/
def ReadsIsoDates (readsDate : String → Bool) : Prop :=
  ∀ s date, Validators.isoDate s = some date → (readsDate s ↔ date.year ≠ 0)

section Columns
variable {x : ℚ} {s : String}

theorem isText_iff : isText s ↔ '\x00' ∉ s.toList := by
  have hzero : ∀ c : Char, c.toNat = 0 ↔ c = '\x00' := fun c => Char.toNat_inj (d := '\x00')
  rw [isText, List.all_eq_true]
  constructor
  · intro h hmem
    exact absurd (h _ hmem) (by decide)
  · intro h c hc
    exact bne_iff_ne.2 fun heq => h ((hzero c).1 heq ▸ hc)

theorem isNumeric_iff : isNumeric 12 2 x ↔ |x| < maxAmount := by
  rw [isNumeric, decide_eq_true_iff, natAbs_roundHalfAway, Nat.floor_lt (by positivity), maxAmount, abs_mul]
  norm_num
  constructor <;> intro h <;> linarith

theorem isVarchar_iff {n : Nat} : isVarchar n s ↔ '\x00' ∉ s.toList ∧ ∀ c ∈ s.toList.drop n, c = ' ' := by
  simp only [isVarchar, Bool.and_eq_true, isText_iff, List.all_eq_true, beq_iff_eq]

theorem all_iff {α : Type} {o : Option α} {p : α → Bool} : o.all p ↔ ∀ x ∈ o.toList, p x := by
  cases o <;> simp

/-- An update of a column that fits. -/
theorem getD_all {α : Type} {set : Option (Option α)} {old : Option α} {p : α → Bool} (h : old.all p) :
    (set.getD old).all p = set.join.all p := by
  cases set with
  | none => exact h
  | some new => rfl

theorem confidence_texts {confidence : List (String × ℚ)} (h : Validators.confidenceScoresSchema confidence) :
    confidence.all fun entry => isText entry.1 := by
  have hkeys : confidence.map Prod.fst = Validators.confidenceFields := beq_iff_eq.1 (Bool.and_eq_true_iff.1 h).1
  have hall : (confidence.map Prod.fst).all isText := hkeys ▸ (by decide +kernel)
  rwa [List.all_map] at hall

end Columns

namespace Pipeline
open Database
variable {readsDate : String → Bool}

/-- The row of an extraction fits the columns exactly when its values do. -/
theorem extractionRow_fits (d : Uuid) {r : ExtractionResult} (h : Validators.invoiceExtractionSchema r.extraction) :
    (extractionRow d r).fits readsDate ↔ r.extraction.Storable readsDate ∧
      isVarchar 100 r.llmModel ∧ isInteger r.inputTokens ∧ isInteger r.outputTokens := by
  have hkeys := confidence_texts h
  rw [ExtractionRow.fits, extractionRow]
  simp only [Option.all_some, isNumeric_toFixed2, hkeys, Bool.and_eq_true, all_iff, isNumeric_iff, isVarchar_iff, isText_iff,
    and_true, List.all_eq_true]
  rw [InvoiceExtraction.storable_iff]
  simp only [InvoiceExtraction.texts, InvoiceExtraction.codes, InvoiceExtraction.dates, InvoiceExtraction.amounts,
    List.forall_mem_append, List.forall_mem_cons, List.forall_mem_map, List.not_mem_nil, imp_and, forall_and, false_imp_iff,
    implies_true, and_true]
  tauto

section Edit
variable {body changes : ExtractionEdit} {text : Option String} {amount : Option (Option ℚ)}

/-- What an accepted edit brings along. -/
structure AcceptedEdit (changes : ExtractionEdit) : Prop where
  vendorTaxId : changes.vendorTaxId.join.all (Validators.isMax 100)
  invoiceNumber : changes.invoiceNumber.join.all (Validators.isMax 100)
  invoiceDate : changes.invoiceDate.join.all Validators.isDate
  dueDate : changes.dueDate.join.all Validators.isDate
  subtotal : changes.subtotal.join.all Validators.isNonnegative
  tax : changes.tax.join.all Validators.isNonnegative
  total : changes.total.join.all Validators.isNonnegative
  confidenceScores : changes.confidenceScores.all Validators.confidenceScoresSchema

theorem editExtractionSchema_some (h : Validators.editExtractionSchema body = some changes) : AcceptedEdit changes := by
  unfold Validators.editExtractionSchema at h
  dsimp only at h
  split at h
  · next hchecks =>
    obtain rfl := Option.some.inj h
    simp only [Bool.and_eq_true] at hchecks
    obtain ⟨⟨⟨⟨⟨⟨⟨⟨⟨⟨⟨-, -⟩, htaxId⟩, hnumber⟩, hdate⟩, hdue⟩, hsubtotal⟩, htax⟩, htotal⟩, -⟩, hscores⟩, -⟩ := hchecks
    exact ⟨htaxId, hnumber, hdate, hdue, hsubtotal, htax, htotal, hscores⟩
  · cases h

theorem code_iff (h : text.all (Validators.isMax 100)) :
    text.all (isVarchar 100) ↔ ∀ s ∈ text.toList, '\x00' ∉ s.toList := by
  rw [all_iff] at h ⊢
  refine forall₂_congr fun s hs => isVarchar_iff.trans (and_iff_left fun c hc => ?_)
  have hlen : s.toList.length ≤ 100 := (Text.length_le s).trans (of_decide_eq_true (h s hs))
  rw [List.drop_eq_nil_of_le hlen] at hc
  cases hc

theorem date_iff (hdates : ReadsIsoDates readsDate) (h : text.all Validators.isDate) :
    text.all readsDate ↔ ∀ s ∈ text.toList, ∀ date, Validators.isoDate s = some date → date.year ≠ 0 := by
  rw [all_iff] at h ⊢
  refine forall₂_congr fun s hs => ?_
  obtain ⟨date, hdate⟩ := Option.isSome_iff_exists.1 (h s hs)
  rw [hdates s date hdate, hdate]
  simp

theorem amount_iff (h : amount.join.all Validators.isNonnegative) :
    (amount.map (Option.map toFixed2)).join.all (isNumeric 12 2) ↔ ∀ x ∈ amount.join.toList, x < maxAmount := by
  have hjoin : (amount.map (Option.map toFixed2)).join = amount.join.map toFixed2 := by cases amount <;> rfl
  rw [hjoin, Option.all_map, all_iff]
  rw [all_iff] at h
  refine forall₂_congr fun x hx => ?_
  rw [isNumeric_toFixed2, isNumeric_iff, abs_of_nonneg (of_decide_eq_true (h x hx))]

theorem items_iff {items : Option (List LineItem)} :
    (items.map some).join.all (fun items => items.all fun item => isText item.description) ↔
      ∀ s ∈ (items.getD []).map (·.description), '\x00' ∉ s.toList := by
  cases items with
  | none => simp
  | some items => simp [isText_iff]

theorem scores_text {scores : Option (List (String × ℚ))} (h : scores.all Validators.confidenceScoresSchema) :
    (scores.map some).join.all fun scores => scores.all fun entry => isText entry.1 := by
  cases scores with
  | none => rfl
  | some scores => exact confidence_texts h

/-- The row of an accepted edit fits the columns exactly when its values do. -/
theorem applyEdit_fits (hdates : ReadsIsoDates readsDate) (h : Validators.editExtractionSchema body = some changes)
    {row : ExtractionRow} (hrow : row.fits readsDate) : (applyEdit changes row).fits readsDate ↔ changes.Storable := by
  have hok := editExtractionSchema_some h
  simp only [ExtractionRow.fits, Bool.and_eq_true] at hrow
  obtain ⟨⟨⟨⟨⟨⟨⟨⟨⟨⟨⟨⟨⟨hname, haddress⟩, htaxId⟩, hnumber⟩, hdate⟩, hdue⟩, hsubtotal⟩, htax⟩, htotal⟩, hscores⟩,
    hitems⟩, hmodel⟩, hin⟩, hout⟩ := hrow
  rw [ExtractionRow.fits, applyEdit]
  dsimp only
  rw [getD_all hname, getD_all haddress, getD_all htaxId, getD_all hnumber, getD_all hdate, getD_all hdue, getD_all hsubtotal,
    getD_all htax, getD_all htotal, getD_all hscores, getD_all hitems]
  simp only [Bool.and_eq_true, hmodel, hin, hout, scores_text hok.confidenceScores, and_true, code_iff hok.vendorTaxId,
    code_iff hok.invoiceNumber, date_iff hdates hok.invoiceDate, date_iff hdates hok.dueDate, amount_iff hok.subtotal,
    amount_iff hok.tax, amount_iff hok.total, items_iff]
  rw [ExtractionEdit.storable_iff]
  simp only [ExtractionEdit.texts, ExtractionEdit.dates, ExtractionEdit.amounts, List.forall_mem_append, all_iff, isText_iff]
  tauto

/-- An accepted extraction fits the columns exactly when its codes have nothing but blanks after 100 characters,
the database reads its dates and its amounts have at most ten digits; an accepted edit, when its amounts
have and its dates are not in the year 0. None of the strings may have a NUL character; that they are well
formed, without half a pair of surrogates, is in their type. -/
theorem accepted_storable_iff (readsDate : String → Bool) (hdates : ReadsIsoDates readsDate) :
    (∀ (d : Uuid) (r : ExtractionResult), Validators.invoiceExtractionSchema r.extraction →
      ((extractionRow d r).fits readsDate ↔ r.extraction.Storable readsDate ∧
        isVarchar 100 r.llmModel ∧ isInteger r.inputTokens ∧ isInteger r.outputTokens)) ∧
    ∀ (body changes : ExtractionEdit) (row : ExtractionRow), Validators.editExtractionSchema body = some changes →
      row.fits readsDate → ((applyEdit changes row).fits readsDate ↔ changes.Storable) :=
  ⟨fun d _ h => extractionRow_fits d h, fun _ _ _ h hrow => applyEdit_fits hdates h hrow⟩

end Edit

section Demo

/-- An invoice whose number has 101 characters. -/
private def longNumber : InvoiceExtraction where
  vendor := ⟨some "Acme Supplies", none, none⟩
  invoice := ⟨some (String.ofList (List.replicate 101 'A')), none, none⟩
  totals := ⟨100, 8, 108⟩
  lineItems := [⟨"Service", 1, 100, 100⟩]
  confidence := Validators.uniformConfidence (95 / 100)

private def largeTotal : ExtractionEdit := { total := some (some (10 ^ 10)) }

/-- Both are accepted, and neither can be stored. -/
theorem accepted_not_storable :
    (Validators.invoiceExtractionSchema longNumber ∧
      ∀ readsDate, ¬ (extractionRow 3 ⟨longNumber, "claude-sonnet-5", 10, 10⟩).fits readsDate) ∧
    Validators.editExtractionSchema largeTotal = some largeTotal ∧
      ∀ readsDate row, ¬ (applyEdit largeTotal row).fits readsDate := by
  have haccepted : Validators.invoiceExtractionSchema longNumber := Validators.uniform_accepted (by decide +kernel)
  refine ⟨⟨haccepted, fun readsDate h => ?_⟩, by decide +kernel, fun readsDate row h => ?_⟩
  · have hshort := ((extractionRow_fits 3 haccepted).1 h).1.short
    have hspace : 'A' = ' ' := hshort (String.ofList (List.replicate 101 'A')) (List.mem_singleton.2 rfl) 'A' (by
      rw [String.toList_ofList, List.drop_replicate]
      exact List.mem_replicate.2 ⟨by decide, rfl⟩)
    exact absurd hspace (by decide)
  · simp only [ExtractionRow.fits, Bool.and_eq_true] at h
    have htotal : (some (toFixed2 (10 ^ 10))).all (isNumeric 12 2) := h.1.1.1.1.1.2
    exact absurd htotal (by decide +kernel)

/-- A reader of dates for ISO dates only. -/
private def readsIso (s : String) : Bool := (Validators.isoDate s).any fun date => date.year != 0

theorem accepted_storable_iso :
    (∀ (d : Uuid) (r : ExtractionResult), Validators.invoiceExtractionSchema r.extraction →
      ((extractionRow d r).fits readsIso ↔ r.extraction.Storable readsIso ∧
        isVarchar 100 r.llmModel ∧ isInteger r.inputTokens ∧ isInteger r.outputTokens)) ∧
    ∀ (body changes : ExtractionEdit) (row : ExtractionRow), Validators.editExtractionSchema body = some changes →
      row.fits readsIso → ((applyEdit changes row).fits readsIso ↔ changes.Storable) :=
  accepted_storable_iff readsIso fun s date h => by
    rw [readsIso, h]
    simp

end Demo
end Pipeline
end DocAuto
