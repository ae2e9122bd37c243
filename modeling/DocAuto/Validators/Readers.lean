import DocAuto.Validators.Requests

/-! JSON values that the schemas have accepted, read as values of the types that `z.infer` gives them. -/
namespace DocAuto.Validators
open Json Json.Schema

section Readers
variable {α : Type}

def text : Value → Option String
  | .string s => some s
  | _ => none

def numeral : Value → Option ℚ
  | .number x => some x
  | _ => none

/-- A value of type `T | null`. -/
def orNull (read : Value → Option α) : Value → Option (Option α)
  | .null => some none
  | v => (read v).map some

def lineItemOf (v : Value) : Option LineItem := do
  return ⟨← (v.get "description").bind text, ← (v.get "quantity").bind numeral, ← (v.get "unitPrice").bind numeral,
    ← (v.get "amount").bind numeral⟩

def lineItemsOf : Value → Option (List LineItem)
  | .array items => items.mapM lineItemOf
  | _ => none

def confidenceOf : Value → Option (List (String × ℚ))
  | .object members => members.mapM fun m => (numeral m.2).map fun x => (m.1, x)
  | _ => none

end Readers

section Read
variable {v w : Option Value}

theorem text_read {checks : List (Check String)} (h : Schema.string id checks v = .done w []) :
    ∃ s, v = some (.string s) ∧ w = some (.string s) := by
  obtain ⟨s, rfl, rfl, -⟩ := string_done h
  exact ⟨s, rfl, rfl⟩

theorem score_read (h : score v = .done w []) : ∃ x, w = some (.number x) ∧ isScore x := by
  obtain ⟨x, -, rfl, hc⟩ := number_done h
  have h0 : ((0 : Nat) : ℚ) ≤ x := of_decide_eq_true (checks_hold hc _ List.mem_cons_self)
  have h1 : x ≤ ((1 : Nat) : ℚ) := of_decide_eq_true (checks_hold hc _ (List.mem_cons_of_mem _ List.mem_cons_self))
  exact ⟨x, rfl, by simp [isScore, by simpa using h0, by simpa using h1]⟩

/-- A line item is read with all its properties. -/
theorem lineItem_read (h : lineItemSchema v = .done w []) : ∃ x item, w = some x ∧ lineItemOf x = some item := by
  obtain ⟨x, rfl, hfield, -⟩ := object_reads (by decide) h
  simp only [List.forall_mem_cons, List.not_mem_nil, false_imp_iff, implies_true, and_true] at hfield
  obtain ⟨⟨_, hdescription⟩, ⟨_, hquantity⟩, ⟨_, hunitPrice⟩, ⟨_, hamount⟩⟩ := hfield
  obtain ⟨description, -, hd⟩ := text_read hdescription
  obtain ⟨quantity, -, hq, -⟩ := number_done hquantity
  obtain ⟨unitPrice, -, hu, -⟩ := number_done hunitPrice
  obtain ⟨amount, -, ha, -⟩ := number_done hamount
  exact ⟨x, ⟨description, quantity, unitPrice, amount⟩, rfl, by rw [lineItemOf, hd, hq, hu, ha]; rfl⟩

/-- Of an array of line items each one is read. -/
theorem lineItems_read {checks : List (Check (List Value))} (h : Schema.array lineItemSchema checks v = .done w []) :
    ∃ x items, ∃ checked : List Value, w = some x ∧ lineItemsOf x = some items ∧ items.length = checked.length ∧
      Check.run checks checked = [] := by
  obtain ⟨checked, xs, rfl, hlen, hrun, hread⟩ := array_reads object_present h
  have hitem : ∀ x ∈ xs, ∃ item, lineItemOf x = some item := by
    intro x hx
    obtain ⟨u, hu⟩ := hread x hx
    obtain ⟨y, item, hy, hitem⟩ := lineItem_read hu
    exact ⟨item, Option.some.inj hy ▸ hitem⟩
  have : Nonempty LineItem := ⟨⟨"", 0, 0, 0⟩⟩
  choose! item hitem using hitem
  exact ⟨_, xs.map item, checked, rfl, mapM_read hitem, (List.length_map _).trans hlen, hrun⟩

/-- The scores are read in the order of the schema, each within its range. -/
theorem confidence_read (h : confidenceScores v = .done w []) :
    ∃ x confidence, w = some x ∧ confidenceOf x = some confidence ∧ confidenceScoresSchema confidence := by
  obtain ⟨members, rfl, hclean, rfl⟩ := object_done h
  have hscore : ∀ field ∈ confidenceFields, ∃ x, (score (members.lookup field)).value = some (.number x) ∧ isScore x := by
    exact fun field hf => score_read (hclean (field, score) (List.mem_map_of_mem (f := fun k => (k, score)) hf))
  choose! number hnumber hrange using hscore
  have hmembers : ((confidenceFields.map fun field => (field, score)).filterMap fun f =>
      (f.2 (members.lookup f.1)).value.map fun v => (f.1, v)) = confidenceFields.map fun k => (k, .number (number k)) := by
    rw [List.filterMap_map, ← List.filterMap_eq_map]
    refine List.filterMap_congr fun k hk => ?_
    simp [hnumber k hk]
  have hkeys : (confidenceFields.map fun k => (k, number k)).map Prod.fst = confidenceFields := by
    rw [List.map_map]
    exact List.map_id _
  refine ⟨_, confidenceFields.map fun k => (k, number k), rfl, ?_, ?_⟩
  · rw [hmembers, confidenceOf, List.mapM_map]
    exact mapM_read fun k _ => rfl
  · rw [confidenceScoresSchema, hkeys, beq_self_eq_true, Bool.true_and, List.all_eq_true]
    rintro entry hentry
    obtain ⟨k, hk, rfl⟩ := List.mem_map.1 hentry
    exact hrange k hk

end Read

end DocAuto.Validators
