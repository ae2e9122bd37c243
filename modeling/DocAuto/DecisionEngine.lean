import Mathlib.Data.Rat.Floor

/-! The extraction value the model returns and the routing decision taken on it.
Numbers are exact rationals. -/
namespace DocAuto

/-- Round half away from zero, as `toFixed` does on an exactly represented number. -/
def roundHalfAway (x : ℚ) : ℤ := if 0 ≤ x then ⌊x + 1 / 2⌋ else -⌊-x + 1 / 2⌋

/-- The number that the string `x.toFixed(2)` denotes. -/
def toFixed2 (x : ℚ) : ℚ := roundHalfAway (x * 100) / 100

/-- The string `x.toFixed(2)`. -/
def toFixed2String (x : ℚ) : String :=
  let cents := (roundHalfAway (x * 100)).natAbs
  let fraction := toString (cents % 100)
  (if x < 0 then "-" else "") ++ toString (cents / 100) ++ "." ++
    (if cents % 100 < 10 then "0" else "") ++ fraction

structure Vendor where
  name : Option String
  address : Option String
  taxId : Option String
  deriving DecidableEq, Repr

structure Invoice where
  number : Option String
  date : Option String
  dueDate : Option String
  deriving DecidableEq, Repr

structure Totals where
  subtotal : ℚ
  tax : ℚ
  total : ℚ
  deriving DecidableEq, Repr

structure LineItem where
  description : String
  quantity : ℚ
  unitPrice : ℚ
  amount : ℚ
  deriving DecidableEq, Repr

/-- `confidence` is the list of entries of the confidence object, in key order. -/
structure InvoiceExtraction where
  vendor : Vendor
  invoice : Invoice
  totals : Totals
  lineItems : List LineItem
  confidence : List (String × ℚ)
  deriving DecidableEq, Repr

inductive Decision where
  | autoApprove
  | routeToReview
  deriving DecidableEq, Repr

/-- `minConfidence = none` stands for the `Infinity` that `Math.min()` returns on no entries. -/
structure DecisionResult where
  decision : Decision
  reasons : List String
  mathValid : Bool
  lineItemsSum : ℚ
  minConfidence : Option ℚ
  deriving DecidableEq, Repr

def mathTolerance : ℚ := 1 / 100

def mathReason (lineItemsSum subtotal : ℚ) : String :=
  "Line items sum ($" ++ toFixed2String lineItemsSum ++ ") does not match subtotal ($" ++
    toFixed2String subtotal ++ ")"

def confidenceReason (threshold : ℚ) (entry : String × ℚ) : String :=
  entry.1 ++ " confidence (" ++ toFixed2String entry.2 ++ ") is below threshold (" ++
    toFixed2String threshold ++ ")"

def evaluateExtraction (extraction : InvoiceExtraction) (threshold : ℚ) : DecisionResult :=
  let lineItemsSum := extraction.lineItems.foldl (fun sum item => sum + item.amount) 0
  let mathValid := decide (|lineItemsSum - extraction.totals.subtotal| ≤ mathTolerance)
  let belowThreshold := extraction.confidence.filter fun entry => decide (entry.2 < threshold)
  { decision := if mathValid && belowThreshold.isEmpty then .autoApprove else .routeToReview
    reasons := (if mathValid then [] else [mathReason lineItemsSum extraction.totals.subtotal]) ++
      belowThreshold.map (confidenceReason threshold)
    mathValid := mathValid
    lineItemsSum := lineItemsSum
    minConfidence := (extraction.confidence.map Prod.snd).min? }

end DocAuto
