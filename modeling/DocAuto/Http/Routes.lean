import DocAuto.Http.Body
import DocAuto.Pipeline.Trail

/-! The routes of documents and tenants: who may take them, and the calls they make. -/
namespace DocAuto
open Pipeline

/-- The roles that may make a call. -/
def Pipeline.ApiCall.roles : ApiCall → List UserRole
  | .approve _ _ _ | .reject _ _ _ _ | .edit _ _ _ _ | .reprocess _ _ _ _ => [.admin, .reviewer]
  | .updateTenant _ _ | .rotateSecret _ _ => [.admin]
  | .upload _ _ | .list _ _ _ _ | .get _ _ | .fileUrl _ _ | .getTenant _ => [.admin, .reviewer, .viewer]

namespace Http
open Json Auth Validators Database

/-- What the application relies on; whether a token verifies depends on the time. -/
structure App where
  verifyAccessToken : Timestamp → String → Except JwtError AccessToken
  comparePassword : (plaintext hash : String) → Bool
  formats : Formats
  maxUploadBytes : Nat

inductive Route where
  | uploadDocument | listDocuments | getDocument | getDocumentFile | approveDocument | rejectDocument
  | editExtraction | reprocessDocument | getTenant | updateTenant | rotateWebhookSecret
  deriving DecidableEq, Repr

/-- The UUID and the secret that a handler draws. -/
structure Draws where
  id : Uuid
  secret : String
  deriving DecidableEq, Repr

namespace Route
variable (A : App) (now : Timestamp) (draws : Draws)

def middleware : Route → List Middleware
  | uploadDocument => [requireAuth (A.verifyAccessToken now), handleUpload A.maxUploadBytes]
  | listDocuments => [requireAuth (A.verifyAccessToken now), validate listDocumentsSchema]
  | getDocument | getDocumentFile => [requireAuth (A.verifyAccessToken now), validate documentIdParamSchema]
  | approveDocument => [requireAuth (A.verifyAccessToken now), requireRole [.admin, .reviewer],
      validate documentIdParamSchema]
  | rejectDocument => [requireAuth (A.verifyAccessToken now), requireRole [.admin, .reviewer],
      validate rejectDocumentSchema]
  | editExtraction => [requireAuth (A.verifyAccessToken now), requireRole [.admin, .reviewer],
      validate editRequestSchema]
  | reprocessDocument => [requireAuth (A.verifyAccessToken now), requireRole [.admin, .reviewer],
      validate reprocessDocumentSchema]
  | getTenant => [requireAuth (A.verifyAccessToken now)]
  | updateTenant => [requireAuth (A.verifyAccessToken now), requireRole [.admin], validate (updateTenantSchema A.formats)]
  | rotateWebhookSecret => [requireAuth (A.verifyAccessToken now), requireRole [.admin]]

section Handler

/-- What the database throws where a parameter is no UUID. -/
def invalidUuid : Failure := .other "invalid input syntax for type uuid"

/-- What reading a property of `undefined` throws. -/
def undefinedRead : Failure := .other "Cannot read properties of undefined"

def orThrow {α : Type} (e : Failure) : Option α → Except Thrown α
  | some a => .ok a
  | none => .error (.failure e)

def documentId (req : Request) : Except Thrown Uuid :=
  orThrow invalidUuid (((req.params.bind (·.get "id")).bind text).bind uuidOf)

def members : Value → List (String × Value)
  | .object members => members
  | _ => []

/-- A page number or size of a validated query. -/
def countOf (query : Value) (name : String) : Nat := (((query.get name).bind numeral).map fun x => x.num.toNat).getD 0

/-- `{ tenantId: req.user!.tenantId, ...body }`. -/
def updateParams (user : AccessToken) (body : Value) : Value :=
  .object (Value.spread [("tenantId", .string user.tenantId.repr)] (members body))

def handler (user : AccessToken) (req : Request) : Route → Except Thrown ApiCall
  | uploadDocument =>
    match req.file with
    | none => Http.reject (.badRequest "No file provided — use multipart field name \"file\"" "BAD_REQUEST")
    | some file => .ok (.upload {
        tenantId := user.tenantId, uploadedBy := user.sub, fileName := file.originalname, mimeType := file.mimetype,
        buffer := file.buffer } draws.id)
  | listDocuments => do
    let query ← orThrow undefinedRead req.query
    return .list user.tenantId (((query.get "status").bind text).bind fun s => statusTexts.lookup s) (countOf query "page")
      (countOf query "pageSize")
  | getDocument => do return .get user.tenantId (← documentId req)
  | getDocumentFile => do return .fileUrl user.tenantId (← documentId req)
  | approveDocument => do return .approve user.tenantId (← documentId req) user.sub
  | rejectDocument => do
    let reason ← orThrow undefinedRead ((req.body.bind (·.get "reason")).bind text)
    return .reject user.tenantId (← documentId req) user.sub reason
  | editExtraction => do
    let body ← orThrow undefinedRead req.body
    return .edit user.tenantId (← documentId req) user.sub (editOf body)
  | reprocessDocument => do return .reprocess user.tenantId (← documentId req) user.sub draws.id
  | getTenant => .ok (.getTenant user.tenantId)
  | updateTenant => do
    let params := updateParams user (req.body.getD .null)
    let tenantId ← orThrow invalidUuid ((params.get "tenantId").bind text)
    return .updateTenant (uuidOfText tenantId) (tenantUpdateOf params)
  | rotateWebhookSecret => .ok (.rotateSecret user.tenantId draws.secret)

/-- The user of the request and the call that its handler makes, unless something is thrown first. A request
comes in without a user and without a file. -/
def call (route : Route) (req : Request) : Except Thrown (AccessToken × ApiCall) := do
  let req ← through (route.middleware A now) { req with user := none, file := none }
  let user ← orThrow undefinedRead req.user
  return (user, ← route.handler draws user req)

end Handler
end Route

/-- The roles that may take the route. -/
def Route.roles : Route → List UserRole
  | .approveDocument | .rejectDocument | .editExtraction | .reprocessDocument => [.admin, .reviewer]
  | .updateTenant | .rotateWebhookSecret => [.admin]
  | .uploadDocument | .listDocuments | .getDocument | .getDocumentFile | .getTenant => [.admin, .reviewer, .viewer]

/-- What a call has to do with the user who makes it. -/
structure Permitted (user : AccessToken) (call : ApiCall) : Prop where
  tenant : call.tenantId = user.tenantId
  actor : ∀ a, call.actorId = some a → a = user.sub
  role : user.role ∈ call.roles

section Middleware
variable {req req' : Request} {m : Middleware} {ms : List Middleware}

theorem bind_ok {ε α β : Type} {x : Except ε α} {f : α → Except ε β} {b : β} (h : (x >>= f) = .ok b) :
    ∃ a, x = .ok a ∧ f a = .ok b := by
  cases x with
  | error e => cases h
  | ok a => exact ⟨a, rfl, h⟩

theorem orThrow_ok {α : Type} {e : Failure} {x : Option α} {a : α} (h : Route.orThrow e x = .ok a) : x = some a := by
  cases x with
  | none => cases h
  | some b => exact congrArg some (Except.ok.inj h)

theorem requireAuth_ok {verify : String → Except JwtError AccessToken} (h : requireAuth verify req = .ok req') :
    ∃ token user, bearer req = some token ∧ verify token = .ok user ∧ req'.user = some user := by
  unfold requireAuth at h
  split at h
  · cases h
  · next token ht =>
    split at h
    · next user hu =>
      obtain rfl := Except.ok.inj h
      exact ⟨token, user, ht, hu, rfl⟩
    all_goals cases h

theorem requireRole_ok {roles : List UserRole} (h : requireRole roles req = .ok req') :
    req' = req ∧ ∃ user, req.user = some user ∧ user.role ∈ roles := by
  unfold requireRole at h
  split at h
  · cases h
  · next user hu =>
    split at h
    · next hr => exact ⟨(Except.ok.inj h).symm, user, hu, hr⟩
    · cases h

theorem validate_user {schema : Schema} (h : validate schema req = .ok req') : req'.user = req.user := by
  obtain ⟨data, -, rfl⟩ := validate_ok h
  rfl

theorem handleUpload_user {n : Nat} (h : handleUpload n req = .ok req') : req'.user = req.user := by
  unfold handleUpload at h
  split at h
  · exact (Except.ok.inj h) ▸ rfl
  · cases h
  · split at h
    · cases h
    split at h
    · cases h
    · exact (Except.ok.inj h) ▸ rfl

/-- Middleware that leaves the user of a request alone. -/
def KeepsUser (m : Middleware) : Prop := ∀ req req', m req = .ok req' → req'.user = req.user

theorem through_user (hm : ∀ m ∈ ms, KeepsUser m) (h : through ms req = .ok req') : req'.user = req.user := by
  induction ms generalizing req with
  | nil => exact (Except.ok.inj h) ▸ rfl
  | cons m ms ih =>
    obtain ⟨r, hr, h⟩ := bind_ok h
    exact (ih (fun m' hm' => hm m' (List.mem_cons_of_mem _ hm')) h).trans (hm m List.mem_cons_self req r hr)

theorem validate_keeps (schema : Schema) : KeepsUser (validate schema) := fun _ _ => validate_user

theorem authenticated {verify : String → Except JwtError AccessToken} (hm : ∀ m ∈ ms, KeepsUser m)
    (h : through (requireAuth verify :: ms) req = .ok req') :
    ∃ token user, bearer req = some token ∧ verify token = .ok user ∧ req'.user = some user := by
  obtain ⟨r, hr, h⟩ := bind_ok h
  obtain ⟨token, user, ht, hv, hu⟩ := requireAuth_ok hr
  exact ⟨token, user, ht, hv, (through_user hm h).trans hu⟩

theorem authorized {verify : String → Except JwtError AccessToken} {roles : List UserRole} (hm : ∀ m ∈ ms, KeepsUser m)
    (h : through (requireAuth verify :: requireRole roles :: ms) req = .ok req') :
    ∃ token user, bearer req = some token ∧ verify token = .ok user ∧ req'.user = some user ∧ user.role ∈ roles := by
  obtain ⟨r, hr, hrest⟩ := bind_ok h
  obtain ⟨token, user, ht, hv, hu⟩ := requireAuth_ok hr
  obtain ⟨r', hr', hlast⟩ := bind_ok hrest
  obtain ⟨hsame, user', hu', hrole⟩ := requireRole_ok hr'
  obtain rfl := Option.some.inj (hu.symm.trans hu')
  exact ⟨token, user, ht, hv, (through_user hm hlast).trans (hsame ▸ hu), hrole⟩

end Middleware

namespace Route
variable {A : App} {now : Timestamp} {draws : Draws} {req req' : Request} {user : AccessToken}

/-- Who has come through the middleware of a route has shown a token of a user who may take it. -/
theorem middleware_ok {route : Route} (h : through (route.middleware A now) req = .ok req') :
    ∃ token user, bearer req = some token ∧ A.verifyAccessToken now token = .ok user ∧ req'.user = some user ∧
      user.role ∈ route.roles := by
  have hone : ∀ schema, ∀ m ∈ [validate schema], KeepsUser m := by
    intro schema m hm
    exact List.mem_singleton.1 hm ▸ validate_keeps schema
  have hany : ∀ role : UserRole, role ∈ [UserRole.admin, .reviewer, .viewer] := by rintro (_ | _ | _) <;> decide
  cases route with
  | uploadDocument =>
    obtain ⟨token, user, ht, hv, hu⟩ := authenticated (by
      rintro m hm req req' h
      obtain rfl := List.mem_singleton.1 hm
      exact handleUpload_user h) h
    exact ⟨token, user, ht, hv, hu, hany _⟩
  | listDocuments | getDocument | getDocumentFile =>
    obtain ⟨token, user, ht, hv, hu⟩ := authenticated (hone _) h
    exact ⟨token, user, ht, hv, hu, hany _⟩
  | getTenant =>
    obtain ⟨token, user, ht, hv, hu⟩ := authenticated (by rintro m ⟨⟩) h
    exact ⟨token, user, ht, hv, hu, hany _⟩
  | approveDocument | rejectDocument | editExtraction | reprocessDocument | updateTenant => exact authorized (hone _) h
  | rotateWebhookSecret => exact authorized (by rintro m ⟨⟩) h

/-- The body of a tenant's update, as its schema leaves it. -/
theorem updateTenant_body (h : through (Route.updateTenant.middleware A now) req = .ok req') :
    ∃ body v, req'.body = some body ∧ tenantBody A.formats v = .done (some body) [] := by
  obtain ⟨r, -, h⟩ := bind_ok h
  obtain ⟨r', -, h⟩ := bind_ok h
  obtain ⟨r'', hv, h⟩ := bind_ok h
  obtain rfl := Except.ok.inj h
  obtain ⟨value, hdone, hlookup⟩ := validate_part (by simp) hv (f := ("body", tenantBody A.formats)) List.mem_cons_self (by simp)
  obtain ⟨ms, -, -, rfl⟩ := Schema.object_done (Schema.refine_done hdone).1
  exact ⟨_, _, (parts_lookup r'').1.symm.trans hlookup, hdone⟩

/-- No property of the body overrides the tenant of the token. -/
theorem updateTenant_tenant (h : through (Route.updateTenant.middleware A now) req = .ok req') :
    (updateParams user (req'.body.getD .null)).get "tenantId" = some (.string user.tenantId.repr) := by
  obtain ⟨body, v, hbody, hdone⟩ := updateTenant_body h
  have hkeys := Schema.object_keys (Schema.refine_done hdone).1 body rfl
  have hnone : (members body).lookup "tenantId" = none := by
    rw [List.lookup_eq_none_iff]
    rintro m hm
    have hkey : m.1 ∈ body.keys := by
      cases body with
      | object ms => exact List.mem_map_of_mem hm
      | _ => cases hm
    refine bne_iff_ne.2 fun he => ?_
    have := hkeys (he ▸ hkey)
    simp at this
  rw [hbody, Option.getD_some]
  exact Value.lookup_spread.trans (by rw [hnone]; rfl)

/-- The handler of the route works on the data of the user's tenant, in the user's name. -/
theorem handler_call {route : Route} {call : ApiCall} (hm : through (route.middleware A now) req = .ok req')
    (h : route.handler draws user req' = .ok call) :
    call.tenantId = user.tenantId ∧ (∀ a, call.actorId = some a → a = user.sub) ∧ call.roles = route.roles := by
  cases route with
  | uploadDocument =>
    simp only [handler] at h
    split at h
    · cases h
    · obtain rfl := Except.ok.inj h
      exact ⟨rfl, fun a ha => (Option.some.inj ha).symm, rfl⟩
  | listDocuments =>
    obtain ⟨query, -, h⟩ := bind_ok h
    obtain rfl := Except.ok.inj h
    exact ⟨rfl, nofun, rfl⟩
  | getDocument | getDocumentFile =>
    obtain ⟨d, -, h⟩ := bind_ok h
    obtain rfl := Except.ok.inj h
    exact ⟨rfl, nofun, rfl⟩
  | approveDocument | reprocessDocument =>
    obtain ⟨d, -, h⟩ := bind_ok h
    obtain rfl := Except.ok.inj h
    exact ⟨rfl, fun a ha => (Option.some.inj ha).symm, rfl⟩
  | rejectDocument | editExtraction =>
    obtain ⟨_, -, h⟩ := bind_ok h
    obtain ⟨d, -, h⟩ := bind_ok h
    obtain rfl := Except.ok.inj h
    exact ⟨rfl, fun a ha => (Option.some.inj ha).symm, rfl⟩
  | getTenant | rotateWebhookSecret =>
    obtain rfl := Except.ok.inj h
    exact ⟨rfl, nofun, rfl⟩
  | updateTenant =>
    obtain ⟨tenantId, ht, h⟩ := bind_ok h
    obtain rfl := Except.ok.inj h
    refine ⟨?_, nofun, rfl⟩
    rw [updateTenant_tenant hm] at ht
    obtain rfl := Option.some.inj (orThrow_ok ht)
    exact uuidOfText_repr user.tenantId

theorem call_ok {route : Route} {call : ApiCall} (h : route.call A now draws req = .ok (user, call)) :
    ∃ req', through (route.middleware A now) { req with user := none, file := none } = .ok req' ∧
      req'.user = some user ∧ route.handler draws user req' = .ok call := by
  obtain ⟨req', hm, h⟩ := bind_ok h
  obtain ⟨u, hu, h⟩ := bind_ok h
  obtain ⟨c, hc, h⟩ := bind_ok h
  obtain ⟨rfl, rfl⟩ := Prod.mk.inj (Except.ok.inj h)
  exact ⟨req', hm, orThrow_ok hu, hc⟩

/-- Whatever a request says, the call it leads to is made for the user whose token it shows, on the data of that
user's tenant, and only where the user's role allows it. -/
theorem call_permitted {route : Route} {call : ApiCall} (h : route.call A now draws req = .ok (user, call)) :
    (∃ token, bearer req = some token ∧ A.verifyAccessToken now token = .ok user) ∧ Permitted user call := by
  obtain ⟨req', hm, hu, hc⟩ := call_ok h
  obtain ⟨token, user', ht, hv, hu', hrole⟩ := middleware_ok hm
  obtain rfl := Option.some.inj (hu.symm.trans hu')
  obtain ⟨htenant, hactor, hroles⟩ := handler_call hm hc
  exact ⟨⟨token, ht, hv⟩, htenant, hactor, hroles ▸ hrole⟩

end Route

end Http
end DocAuto
