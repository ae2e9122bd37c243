import DocAuto.Auth.Identity
import DocAuto.Json.Schema
import DocAuto.Pipeline.System
import DocAuto.Validators.Documents
import Mathlib.Data.List.DropRight

/-! The schemas of the requests: `validators/auth.ts`, `validators/documents.ts` and `validators/tenant.ts`. -/
namespace DocAuto.Validators
open Json Json.Schema Pipeline

/-- The formats that are left to the runtime and the schema library. -/
structure Formats where
  email : String → Bool
  url : String → Bool

section Checks

def minLength (n : Nat) (message : String := "String must contain at least " ++ toString n ++ " character(s)") :
    Check String := ⟨fun s => n ≤ Text.length s, message⟩

def maxLength (n : Nat) : Check String :=
  ⟨fun s => isMax n s, "String must contain at most " ++ toString n ++ " character(s)"⟩

/-- `/^[a-z0-9-]+$/`. -/
def isSlug (s : String) : Bool :=
  !s.toList.isEmpty && s.toList.all fun c => ('a' ≤ c && c ≤ 'z') || c.isDigit || c == '-'

def hexDigits (cs : List Char) : Option Nat := do
  let ds ← cs.mapM hexValue
  return ds.foldl (fun n d => 16 * n + d) 0

/-- The UUID that a text of five groups of hexadecimal digits names. -/
def uuidOf (s : String) : Option Uuid :=
  let groups := s.toList.splitOn '-'
  if groups.map List.length = [8, 4, 4, 4, 12] then hexDigits groups.flatten else none

/-- `z.string().uuid()`. -/
def uuid : Schema := .string id [⟨fun s => (uuidOf s).isSome, "Invalid uuid"⟩]

/-- `z.string().date()`. -/
def date : Schema := .string id [⟨isDate, "Invalid date"⟩]

def trimmedText (checks : List (Check String)) : Schema := .string trim checks

def atLeast (n : Nat) : Check ℚ := ⟨fun x => (n : ℚ) ≤ x, "Number must be greater than or equal to " ++ toString n⟩

def atMost (n : Nat) : Check ℚ := ⟨fun x => x ≤ (n : ℚ), "Number must be less than or equal to " ++ toString n⟩

def positive : Check ℚ := ⟨fun x => 0 < x, "Number must be greater than 0"⟩

def integer : Check ℚ := ⟨fun x => x.isInt, "Expected integer, received float"⟩

end Checks

section Auth
variable (F : Formats)

def email : Schema := .string id [⟨F.email, "Invalid email"⟩]

def registerSchema : Schema := .object [("body", .object [
  ("tenantName", .string id [minLength 2, maxLength 255]),
  ("tenantSlug", .string id [minLength 2, maxLength 100, ⟨isSlug, "slug must be lowercase alphanumeric with hyphens"⟩]),
  ("email", email F),
  ("password", .string id [minLength 8 "password must be at least 8 characters"])])]

def loginSchema : Schema := .object [("body", .object [
  ("email", email F),
  ("password", .string id [minLength 1])])]

def refreshSchema : Schema := .object [("body", .object [("refreshToken", .string id [minLength 1])])]

end Auth

section Number

/-- The value of decimal digits, of which there is at least one. -/
def natural (cs : List Char) : Option Nat := if cs.isEmpty then none else digits cs

def signed (cs : List Char) : Option Int :=
  match cs with
  | '+' :: cs => (natural cs).map Int.ofNat
  | '-' :: cs => (natural cs).map fun n => -Int.ofNat n
  | cs => (natural cs).map Int.ofNat

/-- A decimal literal without its sign. -/
def unsigned (cs : List Char) : Option ℚ :=
  let whole := cs.takeWhile Char.isDigit
  let rest := cs.dropWhile Char.isDigit
  let fraction := match rest with
    | '.' :: rest => rest.takeWhile Char.isDigit
    | _ => []
  let rest := match rest with
    | '.' :: rest => rest.dropWhile Char.isDigit
    | rest => rest
  let exponent : Option Int := match rest with
    | [] => some 0
    | 'e' :: rest | 'E' :: rest => signed rest
    | _ => none
  do return (← natural (whole ++ fraction)) * (10 : ℚ) ^ ((← exponent) - fraction.length)

/-- The value of digits of a base up to sixteen, of which there is at least one. -/
def based (base : Nat) (cs : List Char) : Option ℚ := do
  let ds ← cs.mapM hexValue
  if ds.isEmpty || !ds.all (· < base) then none else return ds.foldl (fun n d => base * n + d) 0

/-- `Number` of a text. -/
def numberOfText (s : String) : Option ℚ :=
  match (trim s).toList with
  | [] => some 0
  | '0' :: 'x' :: cs | '0' :: 'X' :: cs => based 16 cs
  | '0' :: 'o' :: cs | '0' :: 'O' :: cs => based 8 cs
  | '0' :: 'b' :: cs | '0' :: 'B' :: cs => based 2 cs
  | '+' :: cs => unsigned cs
  | '-' :: cs => (unsigned cs).map fun x => -x
  | cs => unsigned cs

/-- `Number` of the text of a value, which is how it takes an array and its items. -/
def numberOfItem : Value → Option ℚ
  | .null | .array [] => some 0
  | .number x => some x
  | .string s => numberOfText s
  | .array [v] => numberOfItem v
  | .bool _ | .array _ | .object _ => none

/-- `Number` of a value; `NaN` is `none`. -/
def toNumber : Option Value → Option ℚ
  | none => none
  | some (.bool b) => some (if b then 1 else 0)
  | some v => numberOfItem v

end Number

section Documents

/-- The texts of `documentStatusEnum`. -/
def statusTexts : List (String × DocumentStatus) :=
  [("uploaded", .uploaded), ("ocr_processing", .ocrProcessing), ("extracting", .extracting), ("extracted", .extracted),
    ("pending_review", .pendingReview), ("approved", .approved), ("rejected", .rejected), ("failed", .failed)]

/-- The query of `listDocumentsSchema`. -/
def listQuery : Schema := .object [
  ("status", .optional (.enum (statusTexts.map Prod.fst))),
  ("page", .default (.number 1) (.coerced toNumber [integer, positive])),
  ("pageSize", .default (.number 20) (.coerced toNumber [integer, positive, atMost 100]))]

def listDocumentsSchema : Schema := .object [("query", listQuery)]

def documentIdParamSchema : Schema := .object [("params", .object [("id", uuid)])]

/-- The body of `rejectDocumentSchema`. -/
def rejectBody : Schema := .object [("reason", trimmedText [minLength 1, maxLength 1000])]

def rejectDocumentSchema : Schema := .object [("body", rejectBody), ("params", .object [("id", uuid)])]

/-- `z.number().finite().nonnegative()`: JSON has no infinite numbers. -/
def amount : Schema := .number [⟨isNonnegative, "Number must be greater than or equal to 0"⟩]

def lineItemSchema : Schema := .object [
  ("description", .string id []), ("quantity", .number []), ("unitPrice", .number []), ("amount", .number [])]

def score : Schema := .number [atLeast 0, atMost 1]

def confidenceScores : Schema := .object (confidenceFields.map fun field => (field, score))

/-- `Object.keys(body).length > 0`. -/
def nonempty (body : Option Value) : Bool := body.any fun b => !b.keys.isEmpty

def editFields : List (String × Schema) := [
  ("vendorName", .optional (.nullable (trimmedText [maxLength 1000]))),
  ("vendorAddress", .optional (.nullable (trimmedText [maxLength 2000]))),
  ("vendorTaxId", .optional (.nullable (trimmedText [maxLength 100]))),
  ("invoiceNumber", .optional (.nullable (trimmedText [maxLength 100]))),
  ("invoiceDate", .optional (.nullable date)),
  ("dueDate", .optional (.nullable date)),
  ("subtotal", .optional (.nullable amount)),
  ("tax", .optional (.nullable amount)),
  ("total", .optional (.nullable amount)),
  ("lineItems", .optional (.array lineItemSchema [⟨fun items => items.length ≤ 1000,
    "Array must contain at most 1000 element(s)"⟩])),
  ("confidenceScores", .optional confidenceScores)]

/-- The body of `editExtractionSchema`. -/
def editBody : Schema := .refine (.object editFields) nonempty "At least one extraction field must be provided"

def editRequestSchema : Schema := .object [("body", editBody), ("params", .object [("id", uuid)])]

def reprocessDocumentSchema : Schema := documentIdParamSchema

end Documents

/-- The body of `updateTenantSchema`. -/
def tenantBody (F : Formats) : Schema := .refine (.object [
  ("name", .optional (trimmedText [minLength 2, maxLength 255])),
  ("extractionThreshold", .optional (.number [atLeast 0, atMost 1])),
  ("webhookUrl", .optional (.nullable (trimmedText [⟨F.url, "Invalid url"⟩])))])
  nonempty "At least one field must be provided"

def updateTenantSchema (F : Formats) : Schema := .object [("body", tenantBody F)]

section Stable
variable (F : Formats)

theorem trim_trim (s : String) : trim (trim s) = trim s := by
  have h : ∀ cs : List Char, ((cs.dropWhile isTrimmed).rdropWhile isTrimmed).dropWhile isTrimmed =
      (cs.dropWhile isTrimmed).rdropWhile isTrimmed := by
    intro cs
    refine List.dropWhile_eq_self_iff.2 fun hl => ?_
    have hp := List.rdropWhile_prefix isTrimmed (l := cs.dropWhile isTrimmed)
    rw [List.IsPrefix.getElem hp hl]
    exact List.dropWhile_get_zero_not isTrimmed cs (lt_of_lt_of_le hl hp.length_le)
  have ht : ∀ s, trim s = String.ofList ((s.toList.dropWhile isTrimmed).rdropWhile isTrimmed) := fun _ => rfl
  rw [ht (trim s), ht s, String.toList_ofList, h, List.rdropWhile_idempotent]

theorem trimmedText_stable (checks : List (Check String)) : Stable (trimmedText checks) := string_stable trim_trim checks

theorem plain_stable (checks : List (Check String)) : Stable (.string id checks) := string_stable (fun _ => rfl) checks

theorem uuid_stable : Stable uuid := plain_stable _

theorem params_stable : Stable (.object [("id", uuid)]) :=
  object_stable (by decide) (by simpa using uuid_stable)

theorem score_stable : Stable score := number_stable _

theorem lineItem_stable : Stable lineItemSchema := by
  refine object_stable (by decide) ?_
  simp only [List.forall_mem_cons, List.not_mem_nil, false_imp_iff, implies_true, and_true]
  exact ⟨plain_stable _, number_stable _, number_stable _, number_stable _⟩

theorem confidenceScores_stable : Stable confidenceScores := by
  refine object_stable (by decide) fun f hf => ?_
  obtain ⟨field, -, rfl⟩ := List.mem_map.1 hf
  exact score_stable

theorem editBody_stable : Stable editBody := by
  refine refine_stable (object_stable (by decide) ?_)
  simp only [editFields, List.forall_mem_cons, List.not_mem_nil, false_imp_iff, implies_true, and_true]
  have text : ∀ checks, Stable (.optional (.nullable (trimmedText checks))) := fun checks =>
    optional_stable (nullable_stable (trimmedText_stable checks))
  have date : Stable (.optional (.nullable date)) := optional_stable (nullable_stable (plain_stable _))
  have amount : Stable (.optional (.nullable amount)) := optional_stable (nullable_stable (number_stable _))
  refine ⟨text _, text _, text _, text _, date, date, amount, amount, amount, optional_stable ?_, optional_stable confidenceScores_stable⟩
  refine array_stable lineItem_stable object_present fun c hc xs ys hlen => ?_
  obtain rfl := List.mem_singleton.1 hc
  simp only [hlen]

theorem tenantBody_stable : Stable (tenantBody F) := by
  refine refine_stable (object_stable (by simp) ?_)
  simp only [List.forall_mem_cons, List.not_mem_nil, false_imp_iff, implies_true, and_true]
  exact ⟨optional_stable (trimmedText_stable _), optional_stable (number_stable _),
    optional_stable (nullable_stable (trimmedText_stable _))⟩

theorem query_stable : Stable listQuery := by
  have number : ∀ value checks, Stable (.default value (.coerced toNumber checks)) := fun value checks =>
    default_stable (coerced_stable (fun _ => by simp [toNumber, numberOfItem]) checks) (coerced_present _ _)
  refine object_stable (by decide) ?_
  simp only [List.forall_mem_cons, List.not_mem_nil, false_imp_iff, implies_true, and_true]
  exact ⟨optional_stable (enum_stable _), number _ _, number _ _⟩

/-- The schemas of all routes. -/
def requestSchemas : List Schema :=
  [registerSchema F, loginSchema F, refreshSchema, listDocumentsSchema, documentIdParamSchema, rejectDocumentSchema,
    editRequestSchema, reprocessDocumentSchema, updateTenantSchema F]

theorem requests_settled : ∀ s ∈ requestSchemas F, Settled s := by
  have part : ∀ {name s}, Stable s → Settled (.object [(name, s)]) := fun hs => ⟨_, rfl, by simp, by simpa using hs⟩
  have both : ∀ {s}, Stable s → Settled (.object [("body", s), ("params", .object [("id", uuid)])]) := fun hs =>
    ⟨_, rfl, by simp, by simpa using ⟨hs, params_stable⟩⟩
  simp only [requestSchemas, List.forall_mem_cons, List.not_mem_nil, false_imp_iff, implies_true, and_true]
  refine ⟨part ?_, part ?_, part ?_, part query_stable, part params_stable, both ?_, both editBody_stable,
    part params_stable, part (tenantBody_stable F)⟩
  · refine object_stable (by simp) ?_
    simp only [List.forall_mem_cons, List.not_mem_nil, false_imp_iff, implies_true, and_true]
    exact ⟨plain_stable _, plain_stable _, plain_stable _, plain_stable _⟩
  · refine object_stable (by simp) ?_
    simp only [List.forall_mem_cons, List.not_mem_nil, false_imp_iff, implies_true, and_true]
    exact ⟨plain_stable _, plain_stable _⟩
  · exact object_stable (by simp) (by simpa using plain_stable _)
  · exact object_stable (by simp) (by simpa using trimmedText_stable _)

end Stable

end DocAuto.Validators
