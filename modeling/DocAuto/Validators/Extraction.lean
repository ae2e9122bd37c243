import DocAuto.DecisionEngine

/-! What `confidenceScoresSchema` and `invoiceExtractionSchema` ask of a value besides its type. -/
namespace DocAuto.Validators

/-- `z.number().min(0).max(1)`. -/
def isScore (x : ℚ) : Bool := decide (0 ≤ x) && decide (x ≤ 1)

/-- The keys of `confidenceScoresSchema`. A parsed object has them in this order and no others. -/
def confidenceFields : List String :=
  ["vendor.name", "vendor.address", "vendor.taxId", "invoice.number", "invoice.date", "invoice.dueDate",
    "totals.subtotal", "totals.tax", "totals.total", "lineItems"]

def confidenceScoresSchema (confidence : List (String × ℚ)) : Bool :=
  confidence.map Prod.fst == confidenceFields && confidence.all fun entry => isScore entry.2

def invoiceExtractionSchema (extraction : InvoiceExtraction) : Bool := confidenceScoresSchema extraction.confidence

/-- The same confidence for every field. -/
def uniformConfidence (score : ℚ) : List (String × ℚ) := confidenceFields.map fun field => (field, score)

theorem uniform_accepted {score : ℚ} (h : isScore score) : confidenceScoresSchema (uniformConfidence score) := by
  have hkeys : (uniformConfidence score).map Prod.fst = confidenceFields := by
    rw [uniformConfidence, List.map_map]
    exact List.map_id _
  rw [confidenceScoresSchema, hkeys, beq_self_eq_true, Bool.true_and, List.all_eq_true]
  rintro entry hentry
  obtain ⟨field, -, rfl⟩ := List.mem_map.1 hentry
  exact h

end DocAuto.Validators
