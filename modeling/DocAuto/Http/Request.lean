import DocAuto.Validators.Requests

/-! A request on its way through the middleware, and the answer to what is thrown there. -/
namespace DocAuto

def AppError.forbidden (message : String) : AppError := ⟨message, 403, "FORBIDDEN"⟩

/-- Of the constructors, only `internal` makes errors that are not operational. -/
def AppError.isOperational (e : AppError) : Bool := e.statusCode ≠ 500

namespace Http
open Json Auth

structure UploadedFile where
  originalname : String
  mimetype : String
  buffer : List UInt8
  deriving DecidableEq, Repr

/-- What the multipart parser finds in a body; a file over the size limit is cut off. -/
inductive Multipart where
  | absent
  | file (file : UploadedFile) (truncated : Bool)
  | error (message : String)
  deriving DecidableEq, Repr

structure Request where
  authorization : Option String := none
  correlationId : String
  body : Option Value := none
  query : Option Value := none
  params : Option Value := none
  multipart : Multipart := .absent
  user : Option AccessToken := none
  file : Option UploadedFile := none

/-- What a handler throws, or passes to `next`. -/
inductive Thrown where
  | zodError (issues : List Issue)
  | failure (e : Failure)

abbrev Middleware := Request → Except Thrown Request

def reject {α : Type} (e : AppError) : Except Thrown α := .error (.failure (.app e))

structure Response where
  status : Nat
  body : Value

section ErrorHandler

def errorBody (members : List (String × Value)) : Value := .object [("error", .object members)]

def issueDetail (i : Issue) : Value :=
  .object [("path", .string (".".intercalate i.path)), ("message", .string i.message)]

/-- Nothing of an unexpected error reaches the client. -/
def unexpected (correlationId : String) : Response := ⟨500, errorBody [
  ("code", .string "INTERNAL_ERROR"), ("message", .string "An unexpected error occurred"),
  ("correlationId", .string correlationId)]⟩

def errorHandler (correlationId : String) : Thrown → Response
  | .zodError issues => ⟨400, errorBody [
      ("code", .string "VALIDATION_ERROR"), ("message", .string "Request validation failed"),
      ("details", .array (issues.map issueDetail))]⟩
  | .failure (.app e) =>
    if e.isOperational then ⟨e.statusCode, errorBody [("code", .string e.code), ("message", .string e.message)]⟩
    else unexpected correlationId
  | .failure _ => unexpected correlationId

end ErrorHandler

section Middleware

/-- What `jwt.verify` throws. -/
inductive JwtError where
  | tokenExpired
  | jsonWebToken
  | other (message : String)
  deriving DecidableEq, Repr

/-- The token of the `Authorization` header. -/
def bearer (req : Request) : Option String :=
  (req.authorization.filter fun h => "Bearer ".toList.isPrefixOf h.toList).map fun h => String.ofList (h.toList.drop 7)

def requireAuth (verifyAccessToken : String → Except JwtError AccessToken) : Middleware := fun req =>
  match bearer req with
  | none => reject (.unauthorized "Missing or invalid Authorization header")
  | some token =>
    match verifyAccessToken token with
    | .ok user => .ok { req with user := some user }
    | .error .tokenExpired => reject (.unauthorized "Access token expired")
    | .error .jsonWebToken => reject (.unauthorized "Invalid access token")
    | .error (.other message) => .error (.failure (.other message))

def requireRole (roles : List UserRole) : Middleware := fun req =>
  match req.user with
  | none => reject (.unauthorized "Unauthorized")
  | some user =>
    if user.role ∈ roles then .ok req
    else reject (.forbidden ("This action requires role: " ++ " or ".intercalate (roles.map roleText)))

/-- `{ body: req.body, query: req.query, params: req.params }`. -/
def Request.parts (req : Request) : List (String × Value) :=
  [("body", req.body), ("query", req.query), ("params", req.params)].filterMap fun p => p.2.map fun v => (p.1, v)

/-- The parsed parts take the place of those that came in. -/
def Request.parsed (req : Request) (data : Option Value) : Request :=
  { req with
    body := (data.bind (·.get "body")).or req.body
    query := (data.bind (·.get "query")).or req.query
    params := (data.bind (·.get "params")).or req.params }

def validate (schema : Schema) : Middleware := fun req =>
  match safeParse schema (some (.object req.parts)) with
  | .error issues => .error (.zodError issues)
  | .ok data => .ok (req.parsed data)

def allowedMimeTypes : List String := ["application/pdf", "image/png", "image/jpeg", "image/tiff"]

def handleUpload (maxUploadBytes : Nat) : Middleware := fun req =>
  match req.multipart with
  | .absent => .ok req
  | .error message => reject (.badRequest message "UNSUPPORTED_FILE_TYPE")
  | .file file truncated =>
    if file.mimetype ∉ allowedMimeTypes then
      reject (.badRequest ("Unsupported file type: " ++ file.mimetype ++ ". Allowed: " ++
        ", ".intercalate allowedMimeTypes) "UNSUPPORTED_FILE_TYPE")
    else if truncated then
      reject (.badRequest ("File exceeds the maximum upload size of " ++ toString maxUploadBytes ++ " bytes")
        "FILE_TOO_LARGE")
    else .ok { req with file := some file }

/-- One after the other, until one of them throws. -/
def through : List Middleware → Middleware
  | [], req => .ok req
  | m :: ms, req => m req >>= through ms

end Middleware

section Validate
variable {req req' : Request} {schema : Schema}

theorem parts_lookup (req : Request) : req.parts.lookup "body" = req.body ∧ req.parts.lookup "query" = req.query ∧
    req.parts.lookup "params" = req.params := by
  have hn : ([("body", req.body), ("query", req.query), ("params", req.params)].map Prod.fst).Nodup := by simp
  exact ⟨lookup_filterMap hn Prod.snd (k := ("body", req.body)) (by simp),
    lookup_filterMap hn Prod.snd (k := ("query", req.query)) (by simp),
    lookup_filterMap hn Prod.snd (k := ("params", req.params)) (by simp)⟩

theorem parts_other {name : String} (h : name ∉ ["body", "query", "params"]) : req.parts.lookup name = none := by
  rw [List.lookup_eq_none_iff]
  rintro m hm
  obtain ⟨k, hk, hkm⟩ := List.mem_filterMap.1 hm
  obtain ⟨v, -, rfl⟩ := Option.map_eq_some_iff.1 hkm
  refine bne_iff_ne.2 fun he => h ?_
  rw [he]
  exact List.mem_map_of_mem (f := Prod.fst) hk

theorem parsed_parsed (req : Request) (data : Option Value) : (req.parsed data).parsed data = req.parsed data := by
  have hor : ∀ a b : Option Value, a.or (a.or b) = a.or b := fun a b => by cases a <;> rfl
  simp only [Request.parsed, hor]

/-- A part that the schema has made something of is replaced; the others stay. -/
theorem parsed_lookup (members : List (String × Value)) {name : String} (h : name ∈ ["body", "query", "params"]) :
    (req.parsed (some (.object members))).parts.lookup name = (members.lookup name).or (req.parts.lookup name) := by
  simp only [List.mem_cons, List.not_mem_nil, or_false] at h
  rcases h with rfl | rfl | rfl
  · rw [(parts_lookup _).1, (parts_lookup req).1]
    rfl
  · rw [(parts_lookup _).2.1, (parts_lookup req).2.1]
    rfl
  · rw [(parts_lookup _).2.2, (parts_lookup req).2.2]
    rfl

theorem validate_ok (h : validate schema req = .ok req') :
    ∃ data, schema (some (.object req.parts)) = .done data [] ∧ req' = req.parsed data := by
  unfold validate at h
  split at h
  · cases h
  · next data hd => exact ⟨data, safeParse_ok.1 hd, (Except.ok.inj h).symm⟩

/-- What validating a request says about one of its parts. -/
theorem validate_part {fields : List (String × Schema)} (hn : (fields.map Prod.fst).Nodup)
    (h : validate (.object fields) req = .ok req') {f : String × Schema} (hf : f ∈ fields) (hname : f.1 ∈ ["body", "query", "params"]) :
    ∃ value, f.2 (req.parts.lookup f.1) = .done value [] ∧ req'.parts.lookup f.1 = value.or (req.parts.lookup f.1) := by
  obtain ⟨data, hd, rfl⟩ := validate_ok h
  obtain ⟨members, hm, hclean, rfl⟩ := Schema.object_done hd
  obtain rfl : req.parts = members := by simpa using hm
  refine ⟨_, hclean f hf, ?_⟩
  rw [parsed_lookup _ hname, lookup_filterMap hn (fun f : String × Schema => (f.2 (req.parts.lookup f.1)).value) hf]

/-- A request that has been validated is accepted as it is. -/
theorem validate_settled (hs : Schema.Settled schema) (h : validate schema req = .ok req') :
    validate schema req' = .ok req' := by
  obtain ⟨fields, rfl, hn, hstable⟩ := hs
  obtain ⟨data, hd, rfl⟩ := validate_ok h
  obtain ⟨members, hm, hclean, hdata⟩ := Schema.object_done hd
  obtain rfl : req.parts = members := by simpa using hm
  let value := fun f : String × Schema => (f.2 (req.parts.lookup f.1)).value
  have hagain : Schema.object fields (some (.object (req.parsed data).parts)) = .done data [] := by
    rw [hdata]
    refine Schema.object_accepts value fun f hf => ?_
    by_cases hname : f.1 ∈ ["body", "query", "params"]
    · rw [parsed_lookup _ hname, lookup_filterMap hn value hf]
      cases hv : value f with
      | none => exact (hclean f hf).trans (congrArg (Outcome.done · []) hv)
      | some v => exact hstable f hf _ _ ((hclean f hf).trans (congrArg (Outcome.done · []) hv))
    · have hnone : req.parts.lookup f.1 = none := parts_other hname
      rw [parts_other hname, ← hnone]
      exact hclean f hf
  rw [validate, safeParse_ok.2 hagain]
  exact congrArg Except.ok (parsed_parsed req data)

/-- Once validated, a request is as its route's schema leaves it: validating it again changes nothing. -/
theorem requests_idempotent (F : Validators.Formats) : ∀ schema ∈ Validators.requestSchemas F, ∀ req req',
    validate schema req = .ok req' → validate schema req' = .ok req' :=
  fun schema hs _ _ => validate_settled (Validators.requests_settled F schema hs)

private def rejection : Request where
  correlationId := "demo"
  body := some (.object [("reason", .string " blurred "), ("actorId", .string "2")])
  params := some (.object [("id", .string "00000000-0000-0000-0000-000000000003")])

theorem requests_idempotent_rejection : ∃ req', validate Validators.rejectDocumentSchema rejection = .ok req' ∧
    (req'.body.map Value.keys) = some ["reason"] ∧ validate Validators.rejectDocumentSchema req' = .ok req' := by
  have hkeys : (validate Validators.rejectDocumentSchema rejection).toOption.map (fun req => req.body.map Value.keys) =
      some (some ["reason"]) := by decide +kernel
  cases hv : validate Validators.rejectDocumentSchema rejection with
  | error t =>
    rw [hv] at hkeys
    cases hkeys
  | ok req' =>
    rw [hv] at hkeys
    refine ⟨req', rfl, Option.some.inj hkeys, ?_⟩
    exact requests_idempotent ⟨fun _ => true, fun _ => true⟩ _ (by simp [Validators.requestSchemas]) _ _ hv

end Validate

end Http
end DocAuto
