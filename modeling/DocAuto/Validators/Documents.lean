import DocAuto.Pipeline.Worker
import DocAuto.Validators.Extraction

/-! `editExtractionSchema` of `validators/documents.ts`, on bodies whose fields have the right types. -/
namespace DocAuto.Validators
open Pipeline

/-- `String.prototype.trim`. -/
def trim (s : String) : String :=
  String.ofList ((s.toList.dropWhile isTrimmed).reverse.dropWhile isTrimmed).reverse

/-- `z.string().max(n)`. -/
def isMax (n : Nat) (s : String) : Bool := Text.length s ≤ n

def isLeapYear (year : Nat) : Bool := (year % 4 == 0 && year % 100 != 0) || year % 400 == 0

def daysInMonth (year month : Nat) : Nat :=
  if month = 2 then if isLeapYear year then 29 else 28
  else if month = 4 ∨ month = 6 ∨ month = 9 ∨ month = 11 then 30
  else 31

structure Date where
  year : Nat
  month : Nat
  day : Nat
  deriving DecidableEq, Repr

def Date.valid (d : Date) : Bool :=
  1 ≤ d.month && d.month ≤ 12 && 1 ≤ d.day && d.day ≤ daysInMonth d.year d.month

def digits (cs : List Char) : Option Nat :=
  if cs.all Char.isDigit then some (cs.foldl (fun n c => 10 * n + (c.toNat - '0'.toNat)) 0) else none

/-- The day of the Gregorian calendar that a string of the form `YYYY-MM-DD` names. -/
def isoDate (s : String) : Option Date := do
  match s.toList with
  | [y₁, y₂, y₃, y₄, '-', m₁, m₂, '-', d₁, d₂] =>
    let date : Date := ⟨← digits [y₁, y₂, y₃, y₄], ← digits [m₁, m₂], ← digits [d₁, d₂]⟩
    if date.valid then return date else failure
  | _ => failure

/-- `z.string().date()`. -/
def isDate (s : String) : Bool := (isoDate s).isSome

/-- `z.number().finite().nonnegative()`. -/
def isNonnegative (x : ℚ) : Bool := decide (0 ≤ x)

/-- A nullable and optional string that is trimmed when it is given. -/
def trimmed (field : Option (Option String)) : Option (Option String) := field.map (Option.map trim)

/-- The parsed body. Strings are trimmed before they are measured. -/
def editExtractionSchema (body : ExtractionEdit) : Option ExtractionEdit :=
  let changes := { body with
    vendorName := trimmed body.vendorName
    vendorAddress := trimmed body.vendorAddress
    vendorTaxId := trimmed body.vendorTaxId
    invoiceNumber := trimmed body.invoiceNumber }
  if changes.vendorName.join.all (isMax 1000) && changes.vendorAddress.join.all (isMax 2000) &&
      changes.vendorTaxId.join.all (isMax 100) && changes.invoiceNumber.join.all (isMax 100) &&
      changes.invoiceDate.join.all isDate && changes.dueDate.join.all isDate &&
      changes.subtotal.join.all isNonnegative && changes.tax.join.all isNonnegative &&
      changes.total.join.all isNonnegative && changes.lineItems.all (·.length ≤ 1000) &&
      changes.confidenceScores.all confidenceScoresSchema && changes != {} then some changes
  else none

end DocAuto.Validators
