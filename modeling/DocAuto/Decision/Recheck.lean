import DocAuto.Decision.Rounding
import DocAuto.Decision.Routing
import DocAuto.Pipeline.Worker
import DocAuto.Validators.Extraction

/-! The stored record of an approved invoice, evaluated once more: its totals are rounded to cents,
its line items are not. -/
namespace DocAuto

/-- The extraction value that the columns of a row hold. -/
def ExtractionRow.toExtraction (row : ExtractionRow) : Option InvoiceExtraction := do
  let subtotal ← row.subtotal
  let tax ← row.tax
  let total ← row.total
  let lineItems ← row.lineItems
  let confidence ← row.confidenceScores
  return {
    vendor := ⟨row.vendorName, row.vendorAddress, row.vendorTaxId⟩
    invoice := ⟨row.invoiceNumber, row.invoiceDate, row.dueDate⟩
    totals := ⟨subtotal, tax, total⟩
    lineItems := lineItems
    confidence := confidence }

/-- What is left of an approval once the record `stored` of the value `e` is read back. -/
structure Rechecked (e : InvoiceExtraction) (threshold : ℚ) (stored : InvoiceExtraction) : Prop where
  /-- A cent from the approval and half a cent from the rounding. -/
  close : |stored.sum - stored.totals.subtotal| ≤ 3 / 200
  decided : (evaluateExtraction stored threshold).decision = .autoApprove ↔ |e.sum - toFixed2 e.totals.subtotal| ≤ 1 / 100
  exact : IsCents e.sum ∨ IsCents e.totals.subtotal →
    stored.Balances ∧ (evaluateExtraction stored threshold).decision = .autoApprove

section Approved
variable {e : InvoiceExtraction} {threshold : ℚ}

theorem stored_close (h : e.Balances) : |e.sum - toFixed2 e.totals.subtotal| ≤ 3 / 200 := by
  have hround := abs_toFixed2_sub_le e.totals.subtotal
  rw [abs_sub_comm] at hround
  calc |e.sum - toFixed2 e.totals.subtotal|
      ≤ |e.sum - e.totals.subtotal| + |e.totals.subtotal - toFixed2 e.totals.subtotal| := abs_sub_le _ _ _
    _ ≤ 1 / 100 + 1 / 200 := add_le_add h hround
    _ = 3 / 200 := by norm_num

/-- Only a sum and a subtotal that both have fractions of a cent can drift apart. -/
theorem stored_balances (h : e.Balances) (hc : IsCents e.sum ∨ IsCents e.totals.subtotal) :
    |e.sum - toFixed2 e.totals.subtotal| ≤ 1 / 100 := by
  rcases hc with hsum | hsubtotal
  · exact abs_sub_toFixed2_le hsum h
  · rw [toFixed2_eq_iff.2 hsubtotal]
    exact h

/-- The value as its row holds it. -/
def InvoiceExtraction.stored (e : InvoiceExtraction) : InvoiceExtraction :=
  { e with totals := ⟨toFixed2 e.totals.subtotal, toFixed2 e.totals.tax, toFixed2 e.totals.total⟩ }

theorem extractionRow_stored (d : Uuid) (r : Pipeline.ExtractionResult) :
    (Pipeline.extractionRow d r).toExtraction = some r.extraction.stored := by
  rw [ExtractionRow.toExtraction]
  rfl

theorem stored_decision_iff (h : e.Confident threshold) :
    (evaluateExtraction e.stored threshold).decision = .autoApprove ↔ |e.sum - toFixed2 e.totals.subtotal| ≤ 1 / 100 :=
  (decision_iff e.stored threshold).trans (and_iff_right h)

/-- The row of an approved value, read back, is within a cent and a half of its subtotal. It is
approved again when its sum is within a cent of the rounded subtotal, as it is when either of the two
is a whole number of cents. -/
theorem approved_rechecked (d : Uuid) (r : Pipeline.ExtractionResult) (threshold : ℚ)
    (h : (evaluateExtraction r.extraction threshold).decision = .autoApprove) :
    ∃ stored, (Pipeline.extractionRow d r).toExtraction = some stored ∧ Rechecked r.extraction threshold stored := by
  obtain ⟨hconfident, hbalances⟩ := (decision_iff r.extraction threshold).1 h
  have hclose := stored_close hbalances
  have hdecided := stored_decision_iff hconfident
  refine ⟨_, extractionRow_stored d r, hclose, hdecided, fun hc => ?_⟩
  have hstored := stored_balances hbalances hc
  exact ⟨hstored, hdecided.2 hstored⟩

/-- One line item that misses a subtotal of 0.125 by one cent. -/
private def halfCent : InvoiceExtraction where
  vendor := ⟨some "Acme Supplies", none, none⟩
  invoice := ⟨some "INV-100", none, none⟩
  totals := ⟨125 / 1000, 0, 125 / 1000⟩
  lineItems := [⟨"Service", 1, 115 / 1000, 115 / 1000⟩]
  confidence := Validators.uniformConfidence (95 / 100)

private theorem halfCent_confident : halfCent.Confident (85 / 100) := by
  intro entry hentry
  obtain ⟨field, -, rfl⟩ := List.mem_map.1 hentry
  norm_num

/-- It is approved, and its stored record is sent to review. -/
theorem approved_unbalanced : Validators.invoiceExtractionSchema halfCent ∧
    (evaluateExtraction halfCent (85 / 100)).decision = .autoApprove ∧
    ∃ stored, (Pipeline.extractionRow 3 ⟨halfCent, "claude-sonnet-5", 10, 10⟩).toExtraction = some stored ∧
      ¬ stored.Balances ∧ (evaluateExtraction stored (85 / 100)).decision = .routeToReview := by
  have hstored : ¬ |halfCent.sum - toFixed2 halfCent.totals.subtotal| ≤ 1 / 100 := by decide +kernel
  refine ⟨Validators.uniform_accepted (by decide +kernel), ?_, _, rfl, hstored, ?_⟩
  · exact (decision_iff _ _).2 ⟨halfCent_confident, by unfold InvoiceExtraction.Balances; decide +kernel⟩
  · exact (review_iff _ _).2 fun h => hstored h.2

/-- A subtotal in whole cents. -/
theorem approved_rechecked_cents :
    ∃ stored, (Pipeline.extractionRow 3 ⟨{ halfCent with totals := ⟨12 / 100, 0, 12 / 100⟩ }, "claude-sonnet-5", 10, 10⟩).toExtraction =
      some stored ∧ Rechecked { halfCent with totals := ⟨12 / 100, 0, 12 / 100⟩ } (85 / 100) stored :=
  approved_rechecked 3 _ _ ((decision_iff _ _).2
    ⟨halfCent_confident, by unfold InvoiceExtraction.Balances; decide +kernel⟩)

end Approved
end DocAuto
