import DocAuto.Decision.Rounding
import DocAuto.Schema

/-! What the columns of the tables accept. -/
namespace DocAuto

/-- Postgres stores no NUL character. -/
def isText (s : String) : Bool := s.toList.all fun c => c.toNat != 0

/-- `varchar(n)` counts characters, and cuts off blanks beyond. -/
def isVarchar (n : Nat) (s : String) : Bool := isText s && (s.toList.drop n).all (· == ' ')

/-- What `varchar(n)` stores as it is. -/
def keepsVarchar (n : Nat) (s : String) : Bool := isText s && s.length ≤ n

/-- `numeric(precision, scale)` rounds to `scale` digits and then checks the size. -/
def isNumeric (precision scale : Nat) (x : ℚ) : Bool :=
  decide ((roundHalfAway (x * 10 ^ scale)).natAbs < 10 ^ precision)

/-- A column with two decimals takes a number and its `toFixed(2)` alike. -/
@[simp] theorem isNumeric_toFixed2 (precision : Nat) (x : ℚ) : isNumeric precision 2 (toFixed2 x) = isNumeric precision 2 x := by
  have hcents : toFixed2 x * 10 ^ 2 = (roundHalfAway (x * 100) : ℚ) := by
    rw [toFixed2]
    norm_num
  have hscale : (10 : ℚ) ^ 2 = 100 := by norm_num
  rw [isNumeric, hcents, roundHalfAway_intCast, isNumeric, hscale]

/-- `integer`, for counts. -/
def isInteger (n : Nat) : Bool := n < 2 ^ 31

/-- `registerSchema` leaves no blanks to cut off. -/
def TenantRow.fits (r : TenantRow) : Bool :=
  keepsVarchar 255 r.name && keepsVarchar 100 r.slug && isNumeric 3 2 r.extractionThreshold &&
    r.webhookUrl.all isText && r.webhookSecret.all isText

def UserRow.fits (r : UserRow) : Bool := keepsVarchar 255 r.email && keepsVarchar 255 r.passwordHash

/-- `isDate` tells which strings the database reads as a date. The strings inside a JSON value are texts. -/
def ExtractionRow.fits (isDate : String → Bool) (r : ExtractionRow) : Bool :=
  r.vendorName.all isText && r.vendorAddress.all isText && r.vendorTaxId.all (isVarchar 100) &&
    r.invoiceNumber.all (isVarchar 100) && r.invoiceDate.all isDate && r.dueDate.all isDate &&
    r.subtotal.all (isNumeric 12 2) && r.tax.all (isNumeric 12 2) && r.total.all (isNumeric 12 2) &&
    r.confidenceScores.all (fun scores => scores.all fun entry => isText entry.1) &&
    r.lineItems.all (fun items => items.all fun item => isText item.description) &&
    r.llmModel.all (isVarchar 100) && r.inputTokens.all isInteger && r.outputTokens.all isInteger

end DocAuto
