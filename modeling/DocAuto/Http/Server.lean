import DocAuto.Http.Routes

/-! The API server: requests start the calls of the pipeline, logins start the sessions whose access
tokens the requests show. -/
namespace DocAuto.Http
open Json Auth Process Pipeline

structure State where
  pipeline : Pipeline.Config
  sessions : Sessions.State

namespace State

def db (s : State) : Db := s.pipeline.world.db

end State

/-- A request for a route arrives, or a login; sessions and pipeline go on by themselves. -/
inductive Action where
  | request (id : ProcId) (route : Route) (req : Request) (draws : Draws)
  | login (id : CallId) (req : Request)
  | sessions (a : Sessions.Action)
  | pipeline (a : Pipeline.Action)

section Login

/-- The function `find_user_for_login` of the database. -/
def findUserForLogin (db : Db) (email : String) : Option UserRow := db.users.find? fun u => u.email == email

def dummyHash : String := "$2b$12$K8GpYyC7VpQLu5VyVnCHCuIqG5GjBd5KVHcJdX3o5tElYVqfV5g8e"

def invalidCredentials : AppError := .unauthorized "Invalid email or password"

/-- `login`, up to the user whose tokens it makes. -/
def loginUser (A : App) (db : Db) (req : Request) : Except Thrown RefreshTokenData := do
  let req ← validate (Validators.loginSchema A.formats) req
  let email ← Route.orThrow Route.undefinedRead ((req.body.bind (·.get "email")).bind Validators.text)
  let password ← Route.orThrow Route.undefinedRead ((req.body.bind (·.get "password")).bind Validators.text)
  let row := findUserForLogin db email
  let passwordMatch := A.comparePassword password ((row.map (·.passwordHash)).getD dummyHash)
  match row with
  | none => Http.reject invalidCredentials
  | some row =>
    if passwordMatch then return ⟨row.id, row.tenantId, row.email, row.role⟩
    else Http.reject invalidCredentials

end Login

variable (A : App)

/-- Calls of the pipeline begin with a request, and sessions with a login. A request that is refused has no
effect. -/
def step (s : State) : Action → Option State
  | .request id route req draws =>
    match route.call A s.db.now draws req with
    | .ok (_, call) => (Pipeline.step s.pipeline (.call id call)).map fun c => { s with pipeline := c }
    | .error _ => some s
  | .login id req =>
    match loginUser A s.db req with
    | .ok user => (Sessions.step s.sessions (.call id (.login user))).map fun t => { s with sessions := t }
    | .error _ => some s
  | .sessions (.call _ (.login _)) => none
  | .sessions a => (Sessions.step s.sessions a).map fun t => { s with sessions := t }
  | .pipeline (.call _ _) => none
  | .pipeline a => (Pipeline.step s.pipeline a).map fun c => { s with pipeline := c }

def initial (tenants : List TenantRow) (users : List UserRow) : State :=
  ⟨Pipeline.initial tenants users, Sessions.initial⟩

/-- What the steps do, action by action. -/
inductive Turn (s : State) : Action → State → Prop where
  | request {id route req draws user call c} : route.call A s.db.now draws req = .ok (user, call) →
    Pipeline.step s.pipeline (.call id call) = some c → Turn s (.request id route req draws) { s with pipeline := c }
  | login {id req user t} : loginUser A s.db req = .ok user →
    Sessions.step s.sessions (.call id (.login user)) = some t → Turn s (.login id req) { s with sessions := t }
  | sessions {a t} : (∀ id user, a ≠ .call id (.login user)) → Sessions.step s.sessions a = some t →
    Turn s (.sessions a) { s with sessions := t }
  | pipeline {a c} : (∀ id call, a ≠ .call id call) → Pipeline.step s.pipeline a = some c →
    Turn s (.pipeline a) { s with pipeline := c }
  | refused {a} : Turn s a s

variable {A} {s s' : State} {a : Action}

theorem step_turn (h : step A s a = some s') : Turn A s a s' := by
  cases a with
  | request id route req draws =>
    simp only [step] at h
    split at h
    · next user call hcall =>
      obtain ⟨c, hc, rfl⟩ := Option.map_eq_some_iff.1 h
      exact .request hcall hc
    · exact Option.some.inj h ▸ .refused
  | login id req =>
    simp only [step] at h
    split at h
    · next user huser =>
      obtain ⟨t, ht, rfl⟩ := Option.map_eq_some_iff.1 h
      exact .login huser ht
    · exact Option.some.inj h ▸ .refused
  | sessions a =>
    unfold step at h
    split at h
    case h_3 => cases h
    case h_4 heq =>
      obtain rfl := Action.sessions.inj heq
      obtain ⟨t, ht, rfl⟩ := Option.map_eq_some_iff.1 h
      exact .sessions (fun id user he => by simp_all) ht
    all_goals simp_all
  | pipeline a =>
    unfold step at h
    split at h
    case h_5 => cases h
    case h_6 heq =>
      obtain rfl := Action.pipeline.inj heq
      obtain ⟨c, hc, rfl⟩ := Option.map_eq_some_iff.1 h
      exact .pipeline (fun id call he => by simp_all) hc
    all_goals simp_all

end DocAuto.Http
