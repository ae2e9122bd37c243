import DocAuto.DecisionEngine
import Mathlib.Algebra.BigOperators.Group.List.Basic

/-! The routing rule of `evaluateExtraction`: what is approved, what the reasons say, and what the
order of the line items and the size of the numbers have to do with it. -/
namespace DocAuto

namespace InvoiceExtraction

def sum (e : InvoiceExtraction) : ℚ := (e.lineItems.map (·.amount)).sum

/-- The line items match the subtotal. -/
def Balances (e : InvoiceExtraction) : Prop := |e.sum - e.totals.subtotal| ≤ 1 / 100

def Confident (e : InvoiceExtraction) (threshold : ℚ) : Prop := ∀ entry ∈ e.confidence, threshold ≤ entry.2

/-- The same fields with confidences that are no higher. -/
def Lowers (e e' : InvoiceExtraction) : Prop :=
  ∃ confidence, List.Forall₂ (fun a b : String × ℚ => b.1 = a.1 ∧ b.2 ≤ a.2) e.confidence confidence ∧
    e' = { e with confidence := confidence }

end InvoiceExtraction

structure Routing (e : InvoiceExtraction) (threshold : ℚ) (r : DecisionResult) : Prop where
  sound : r.decision = .autoApprove ↔ e.Confident threshold ∧ e.Balances
  unanimous : r.decision = .autoApprove ↔ r.reasons = []
  /-- One reason for each low confidence, and one for a sum that does not match. -/
  counted : r.reasons.length = e.confidence.countP (fun entry => decide (entry.2 < threshold)) + if r.mathValid then 0 else 1
  /-- The least confidence tells whether there is a reason other than the sum. -/
  least : e.confidence ≠ [] → ((∃ m, r.minConfidence = some m ∧ threshold ≤ m) ↔
    r.reasons = if r.mathValid then [] else [mathReason r.lineItemsSum e.totals.subtotal])
  unordered : ∀ items, items.Perm e.lineItems →
    let r' := evaluateExtraction { e with lineItems := items } threshold
    r'.decision = r.decision ∧ r'.mathValid = r.mathValid ∧ r'.lineItemsSum = r.lineItemsSum ∧ r'.minConfidence = r.minConfidence
  monotone : r.decision = .routeToReview → ∀ e' threshold', e.Lowers e' → threshold ≤ threshold' →
    (evaluateExtraction e' threshold').decision = .routeToReview

section Evaluation
variable (e : InvoiceExtraction) (threshold : ℚ)

theorem lineItemsSum_eq : (evaluateExtraction e threshold).lineItemsSum = e.sum := by
  have hfold : ∀ (items : List LineItem) (start : ℚ),
      items.foldl (fun sum item => sum + item.amount) start = start + (items.map (·.amount)).sum := by
    intro items
    induction items with
    | nil => simp
    | cons item items ih =>
      intro start
      rw [List.foldl_cons, ih, List.map_cons, List.sum_cons, add_assoc]
  exact (hfold _ 0).trans (zero_add _)

theorem mathValid_iff : (evaluateExtraction e threshold).mathValid ↔ e.Balances := by
  have h : (evaluateExtraction e threshold).mathValid =
      decide (|(evaluateExtraction e threshold).lineItemsSum - e.totals.subtotal| ≤ mathTolerance) := rfl
  rw [h, lineItemsSum_eq, decide_eq_true_iff]
  rfl

/-- The entries below the threshold. -/
theorem below_nil_iff :
    (e.confidence.filter fun entry => decide (entry.2 < threshold)) = [] ↔ e.Confident threshold := by
  simp [InvoiceExtraction.Confident, List.filter_eq_nil_iff]

theorem decision_iff : (evaluateExtraction e threshold).decision = .autoApprove ↔ e.Confident threshold ∧ e.Balances := by
  have h : (evaluateExtraction e threshold).decision =
      if (evaluateExtraction e threshold).mathValid &&
        (e.confidence.filter fun entry => decide (entry.2 < threshold)).isEmpty then .autoApprove else .routeToReview := rfl
  rw [h, ← mathValid_iff e threshold, ← below_nil_iff, and_comm]
  cases (evaluateExtraction e threshold).mathValid <;>
    cases e.confidence.filter fun entry => decide (entry.2 < threshold) <;> simp

theorem reasons_eq : (evaluateExtraction e threshold).reasons =
    (if (evaluateExtraction e threshold).mathValid then []
      else [mathReason (evaluateExtraction e threshold).lineItemsSum e.totals.subtotal]) ++
    (e.confidence.filter fun entry => decide (entry.2 < threshold)).map (confidenceReason threshold) := rfl

theorem review_iff : (evaluateExtraction e threshold).decision = .routeToReview ↔ ¬ (e.Confident threshold ∧ e.Balances) := by
  rw [← decision_iff]
  cases (evaluateExtraction e threshold).decision <;> simp

/-- No entry is below the threshold when the least is not. -/
theorem least_iff (h : e.confidence ≠ []) :
    (∃ m, (evaluateExtraction e threshold).minConfidence = some m ∧ threshold ≤ m) ↔ e.Confident threshold := by
  have hne : e.confidence.map Prod.snd ≠ [] := fun hnil => h (List.map_eq_nil_iff.1 hnil)
  obtain ⟨m, hm⟩ := Option.isSome_iff_exists.1 (List.isSome_min?_of_ne_nil hne)
  have hmin : (evaluateExtraction e threshold).minConfidence = some m := hm
  rw [hmin]
  simp only [Option.some.injEq, exists_eq_left', List.le_min?_iff hm, List.forall_mem_map]
  rfl

theorem other_reasons_iff :
    (evaluateExtraction e threshold).reasons = (if (evaluateExtraction e threshold).mathValid then []
      else [mathReason (evaluateExtraction e threshold).lineItemsSum e.totals.subtotal]) ↔ e.Confident threshold := by
  rw [reasons_eq, List.append_right_eq_self, List.map_eq_nil_iff, below_nil_iff]

theorem Decision.eq_iff {a b : Decision} : a = b ↔ (a = .autoApprove ↔ b = .autoApprove) := by
  cases a <;> cases b <;> simp

/-- The order of the line items does not matter. -/
theorem evaluation_perm {items : List LineItem} (h : items.Perm e.lineItems) :
    let r' := evaluateExtraction { e with lineItems := items } threshold
    let r := evaluateExtraction e threshold
    r'.decision = r.decision ∧ r'.mathValid = r.mathValid ∧ r'.lineItemsSum = r.lineItemsSum ∧ r'.minConfidence = r.minConfidence := by
  have hsum : ({ e with lineItems := items } : InvoiceExtraction).sum = e.sum := List.Perm.sum_eq (h.map LineItem.amount)
  have hbalances : ({ e with lineItems := items } : InvoiceExtraction).Balances ↔ e.Balances := by
    unfold InvoiceExtraction.Balances
    rw [hsum]
  refine ⟨?_, ?_, ?_, rfl⟩
  · rw [Decision.eq_iff, decision_iff, decision_iff]
    exact and_congr_right fun _ => hbalances
  · rw [Bool.eq_iff_iff, mathValid_iff, mathValid_iff]
    exact hbalances
  · rw [lineItemsSum_eq, lineItemsSum_eq]
    exact hsum

theorem confident_of_lowers {e e' : InvoiceExtraction} {threshold threshold' : ℚ} (h : e.Lowers e') (ht : threshold ≤ threshold')
    (hc : e'.Confident threshold') : e.Confident threshold := by
  obtain ⟨confidence, hall, rfl⟩ := h
  intro entry hentry
  obtain ⟨i, hi, rfl⟩ := List.mem_iff_getElem.1 hentry
  have hlen := hall.length_eq
  have hle := (hall.get hi (hlen ▸ hi)).2
  exact ht.trans ((hc _ (List.getElem_mem _)).trans hle)

/-- The decision is sound and complete for the routing rule, agrees with its reasons, and can only
become stricter with the threshold and with lower confidences. -/
theorem evaluateExtraction_routes (e : InvoiceExtraction) (threshold : ℚ) :
    Routing e threshold (evaluateExtraction e threshold) where
  sound := decision_iff e threshold
  unanimous := by
    rw [decision_iff, reasons_eq, List.append_eq_nil_iff, List.map_eq_nil_iff, below_nil_iff, and_comm, ← mathValid_iff e threshold]
    cases (evaluateExtraction e threshold).mathValid <;> simp
  counted := by
    rw [reasons_eq, List.length_append, List.length_map, List.countP_eq_length_filter, add_comm]
    split <;> rfl
  least h := (least_iff e threshold h).trans (other_reasons_iff e threshold).symm
  unordered _ := evaluation_perm e threshold
  monotone h e' threshold' hlowers ht := by
    rw [review_iff] at h ⊢
    refine fun ⟨hc, hb⟩ => h ⟨confident_of_lowers hlowers ht hc, ?_⟩
    obtain ⟨confidence, -, rfl⟩ := hlowers
    exact hb

end Evaluation
end DocAuto
