import DocAuto.Database.Write
import DocAuto.Pipeline.Lifecycle

/-! The system statement by statement, under READ COMMITTED: a statement reads the rows
committed when it runs, and an update goes ahead once no other transaction holds the
rows its condition selects. -/
namespace DocAuto.ReadCommitted
open Process Database Pipeline

/-- A transaction in progress: what is left of its body, the row versions it has written,
and what its process does with the outcome. -/
structure Open where
  tx : Tx
  rest : Body tx.Result
  writes : List Write
  startedAt : Timestamp
  resume : Except Failure tx.Result → Proc Unit

/-- What the statements of the transaction see: the committed rows, and its own. -/
def Open.view (o : Open) (db : Db) : Db := { applyAll db o.writes with now := o.startedAt }

/-- `config.world.db` holds the committed rows. -/
structure State where
  config : Config
  opened : ProcId → Option Open
  locks : RowKey → Option ProcId

inductive Action where
  | outside (a : Pipeline.Action)
  | begin (id : ProcId)
  | statement (id : ProcId)
  | commit (id : ProcId)
  | rollback (id : ProcId)
  | abort (id : ProcId) (e : Failure)
  | crash (id : ProcId)
  deriving DecidableEq, Repr

namespace State

def db (c : State) : Db := c.config.world.db

/-- No other transaction holds one of the rows. -/
def free (c : State) (id : ProcId) (ks : List RowKey) : Bool := ks.all fun k => (c.locks k).all (· == id)

/-- The transaction of `id` ends and its locks are released. -/
def close (c : State) (id : ProcId) : State :=
  { c with
    opened := Function.update c.opened id none
    locks := fun k => if c.locks k = some id then none else c.locks k }

/-- The process of an ended transaction goes on with its outcome. -/
def answer (c : State) (id : ProcId) (o : Open) (r : Except Failure o.tx.Result) (db : Db) : State :=
  { c.close id with
    config := { c.config with
      world := { c.config.world with db := db }
      procs := Function.update c.config.procs id ((c.config.procs id).map fun p =>
        { p with program := o.resume r, transcript := ⟨.tx o.tx, r⟩ :: p.transcript }) } }

/-- One statement of the transaction `o` of `id`. -/
def execute (c : State) (id : ProcId) (o : Open) (q : Statement) (k : Except Failure q.Resp → Body o.tx.Result) :
    State :=
  let s : Session := ⟨true, o.tx.tenantId⟩
  let ws := q.writes s (o.view c.db)
  { c with
    opened := Function.update c.opened id (some
      { o with rest := k (q.exec s (o.view c.db)).1, writes := o.writes ++ ws })
    locks := fun key => if key ∈ ws.flatMap Write.keys then some id else c.locks key }

end State

/-- The next command of the process is a transaction. -/
def transacting (p : Activity) : Bool :=
  match p.program with
  | .call (.tx _) _ => true
  | _ => false

/-- What is not part of a transaction. -/
def State.outside (c : State) : Pipeline.Action → Bool
  | .step id answer => (c.opened id).isNone && (answer != .execute || !(c.config.procs id).any transacting)
  | .call id _ | .start id _ _ | .finish id => (c.opened id).isNone
  | .stall _ | .evict _ | .tick => true
  | .crash _ => false

def step (c : State) : Action → Option State
  | .outside a =>
    if c.outside a then (Pipeline.step c.config a).map fun config => { c with config := config } else none
  | .begin id =>
    match c.opened id, c.config.procs id with
    | none, some p =>
      match p.program with
      | .call (.tx t) k => some { c with opened := Function.update c.opened id (some ⟨t, t.body, [], c.db.now, k⟩) }
      | _ => none
    | _, _ => none
  | .statement id =>
    match c.opened id with
    | some o =>
      match o.rest with
      | .call q k =>
        if c.free id (q.touches ⟨true, o.tx.tenantId⟩ (o.view c.db)) then some (c.execute id o q k) else none
      | _ => none
    | none => none
  | .commit id =>
    match c.opened id with
    | some o =>
      match o.rest with
      | .ret x => some (c.answer id o (.ok x) (applyAll c.db o.writes))
      | _ => none
    | none => none
  | .rollback id =>
    match c.opened id with
    | some o =>
      match o.rest with
      | .throw e => some (c.answer id o (.error e) c.db)
      | _ => none
    | none => none
  -- A deadlock, a lost connection: the server rolls back in the middle of the body.
  | .abort id e => (c.opened id).map fun o => c.answer id o (.error e) c.db
  | .crash id =>
    if (c.config.procs id).isSome then some { c.close id with config := c.config.kill id } else none

/-- A fresh installation. -/
def initial (tenants : List TenantRow) (users : List UserRow) : State :=
  ⟨Pipeline.initial tenants users, fun _ => none, fun _ => none⟩

/-- The steps of the system, by what they do to the state. -/
inductive Move (c : State) : Action → State → Prop
  | outside {a config} : c.outside a → Pipeline.step c.config a = some config →
    Move c (.outside a) { c with config := config }
  | begin {id p t k} : c.opened id = none → c.config.procs id = some p → p.program = .call (.tx t) k →
    Move c (.begin id) { c with opened := Function.update c.opened id (some ⟨t, t.body, [], c.db.now, k⟩) }
  | statement {id o q k} : c.opened id = some o → o.rest = .call q k →
    c.free id (q.touches ⟨true, o.tx.tenantId⟩ (o.view c.db)) → Move c (.statement id) (c.execute id o q k)
  | commit {id o x} : c.opened id = some o → o.rest = .ret x →
    Move c (.commit id) (c.answer id o (.ok x) (applyAll c.db o.writes))
  | rollback {id o e} : c.opened id = some o → o.rest = .throw e →
    Move c (.rollback id) (c.answer id o (.error e) c.db)
  | abort {id o e} : c.opened id = some o → Move c (.abort id e) (c.answer id o (.error e) c.db)
  | crash {id} : Move c (.crash id) { c.close id with config := c.config.kill id }

theorem step_move {c c' : State} {a : Action} (h : step c a = some c') : Move c a c' := by
  cases a with
  | outside a =>
    simp only [step, Option.ite_none_right_eq_some, Option.map_eq_some_iff] at h
    obtain ⟨ho, config, hs, rfl⟩ := h
    exact .outside ho hs
  | begin id =>
    simp only [step] at h
    split at h
    · next ho hp =>
      split at h
      · next hk => exact Option.some.inj h ▸ .begin ho hp hk
      · cases h
    · cases h
  | statement id =>
    simp only [step] at h
    split at h
    · next ho =>
      split at h
      · next hr =>
        simp only [Option.ite_none_right_eq_some, Option.some.injEq] at h
        obtain ⟨hf, rfl⟩ := h
        exact .statement ho hr hf
      · cases h
    · cases h
  | commit id =>
    simp only [step] at h
    split at h
    · next ho =>
      split at h
      · next hr => exact Option.some.inj h ▸ .commit ho hr
      · cases h
    · cases h
  | rollback id =>
    simp only [step] at h
    split at h
    · next ho =>
      split at h
      · next hr => exact Option.some.inj h ▸ .rollback ho hr
      · cases h
    · cases h
  | abort id e =>
    simp only [step, Option.map_eq_some_iff] at h
    obtain ⟨o, ho, rfl⟩ := h
    exact .abort ho
  | crash id =>
    simp only [step, Option.ite_none_right_eq_some, Option.some.injEq] at h
    obtain ⟨-, rfl⟩ := h
    exact .crash

end DocAuto.ReadCommitted
