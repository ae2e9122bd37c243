import DocAuto.Database.Columns
import DocAuto.Database.Write
import DocAuto.Process.Run

/-! Registration, statement by statement. An insert waits until no other transaction holds an
entry of a unique index that it needs, and then succeeds or violates the index. -/
namespace DocAuto.Registration
open Process Database

structure RegisterInput where
  tenantName : String
  tenantSlug : String
  email : String
  password : String
  deriving DecidableEq, Repr

/-- A call of `register`, with the hash of the password and the UUIDs it draws. -/
structure Call where
  input : RegisterInput
  passwordHash : String
  tenantId : Uuid
  userId : Uuid
  deriving DecidableEq, Repr

structure RegisteredTenant where
  id : Uuid
  name : String
  slug : String
  deriving DecidableEq, Repr

structure RegisteredUser where
  id : Uuid
  email : String
  role : UserRole
  deriving DecidableEq, Repr

abbrev Result := RegisteredTenant × Option RegisteredUser

def isUniqueViolation (err : Failure) (constraint : String) : Bool :=
  match err with
  | .uniqueViolation c => c == constraint
  | _ => false

def emailTaken : Failure := .app (.conflict "An account with this email already exists" "EMAIL_TAKEN")

def slugTaken : Failure := .app (.conflict "A tenant with this slug already exists" "TENANT_SLUG_TAKEN")

namespace Call
variable (c : Call)

def tenantRow : TenantRow :=
  { id := c.tenantId, name := c.input.tenantName, slug := c.input.tenantSlug
    extractionThreshold := 85 / 100, webhookUrl := none, webhookSecret := none }

def userRow (tenantId : Uuid) : UserRow :=
  { id := c.userId, tenantId := tenantId, email := c.input.email, passwordHash := c.passwordHash, role := .admin }

/-- The input fits the columns. -/
def fits : Bool := c.tenantRow.fits && (c.userRow c.tenantId).fits

end Call

def insertAdmin (c : Call) (tenantId : Uuid) : Body (Option UserRow) :=
  tryCatch (do return (← statement (.insertUser (c.userRow tenantId))).head?) fun err =>
    if isUniqueViolation err "users_email_unique" then throw emailTaken else throw err

/-- What follows the insert of the tenant. -/
def insertedTenant (c : Call) (tenant : TenantRow) : Body Result := do
  let user ← insertAdmin c tenant.id
  return (⟨tenant.id, tenant.name, tenant.slug⟩, user.map fun u => ⟨u.id, u.email, u.role⟩)

/-- The callback that `register` passes to `withTenantContext`. -/
def registerTx (c : Call) : Body Result := do
  let tenant := (← statement (.insertTenant c.tenantRow)).head?
  match tenant with
  | none => throw (.app (.internal "Tenant creation failed"))
  | some tenant => insertedTenant c tenant

/-- The `catch` around the transaction. -/
def registerOutcome : Except Failure Result → Except Failure Result
  | .ok result => .ok result
  | .error err => if isUniqueViolation err "tenants_slug_unique" then .error slugTaken else .error err

/-- A statement that has been answered, and the rows committed when it was. -/
structure Resolved where
  event : Event Statement Statement.Resp Failure
  committed : Db

inductive Progress where
  | opened (rest : Body Result) (writes : List Write)
  | ended (result : Except Failure Result)

/-- A call, how far it is, and its statements so far, newest first. -/
structure Activity where
  call : Call
  progress : Progress
  transcript : List Resolved

/-- The row versions of the transaction that are not committed. -/
def Activity.writes (x : Activity) : List Write :=
  match x.progress with
  | .opened _ writes => writes
  | .ended _ => []

abbrev CallId := Nat

/-- `db` holds the committed rows. -/
structure State where
  db : Db
  calls : CallId → Option Activity
  locks : RowKey → Option CallId
  drawn : List Uuid

def initial : State := ⟨⟨[], [], [], [], [], [], 0⟩, fun _ => none, fun _ => none, []⟩

inductive Action where
  | start (id : CallId) (call : Call)
  | statement (id : CallId)
  | commit (id : CallId)
  | rollback (id : CallId)
  | abort (id : CallId) (message : String)
  deriving DecidableEq, Repr

/-- The row of an insert fits the columns. -/
def rowFits : Statement → Bool
  | .insertTenant row => row.fits
  | .insertUser row => row.fits
  | _ => true

def tooLong : Failure := .other "value too long for type character varying"

namespace State

/-- No other transaction holds one of the keys. -/
def free (s : State) (id : CallId) (keys : List RowKey) : Bool := keys.all fun key => (s.locks key).all (· == id)

/-- A statement is answered with `r` and has written `added`. -/
def answer (s : State) (id : CallId) (x : Activity) (writes : List Write) (q : Statement) (r : Except Failure q.Resp)
    (rest : Body Result) (added : List Write) : State :=
  { s with
    calls := Function.update s.calls id (some
      { x with progress := .opened rest (writes ++ added), transcript := ⟨⟨q, r⟩, s.db⟩ :: x.transcript })
    locks := fun key => if key ∈ added.flatMap Write.keys then some id else s.locks key }

/-- The transaction ends and releases its locks, and the call ends with its outcome. -/
def finish (s : State) (id : CallId) (x : Activity) (r : Except Failure Result) (db : Db) : State :=
  { s with
    db := db
    calls := Function.update s.calls id (some { x with progress := .ended (registerOutcome r) })
    locks := fun key => if s.locks key = some id then none else s.locks key }

end State

def step (s : State) : Action → Option State
  | .start id call =>
    if (s.calls id).isNone ∧ call.tenantId ∉ s.drawn ∧ call.userId ∉ s.drawn then
      some { s with
        calls := Function.update s.calls id (some ⟨call, .opened (registerTx call) [], []⟩)
        drawn := call.tenantId :: call.userId :: s.drawn }
    else none
  | .statement id =>
    match s.calls id with
    | some x =>
      match x.progress with
      | .opened (.call q k) writes =>
        let session : Session := ⟨true, x.call.tenantId⟩
        let view := applyAll s.db writes
        if !rowFits q then some (s.answer id x writes q (.error tooLong) (k (.error tooLong)) [])
        else if s.free id (q.touches session view) then
          some (s.answer id x writes q (q.exec session view).1 (k (q.exec session view).1) (q.writes session view))
        else none
      | _ => none
    | none => none
  | .commit id =>
    match s.calls id with
    | some x =>
      match x.progress with
      | .opened (.ret result) writes => some (s.finish id x (.ok result) (applyAll s.db writes))
      | _ => none
    | none => none
  | .rollback id =>
    match s.calls id with
    | some x =>
      match x.progress with
      | .opened (.throw e) _ => some (s.finish id x (.error e) s.db)
      | _ => none
    | none => none
  -- The connection is lost, or the server ends the transaction.
  | .abort id message =>
    match s.calls id with
    | some x =>
      match x.progress with
      | .opened (.throw _) _ | .ended _ => none
      | _ => some (s.finish id x (.error (.other message)) s.db)
    | none => none

end DocAuto.Registration
