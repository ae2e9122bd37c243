import DocAuto.Auth.Identity
import DocAuto.Database.Policies
import DocAuto.Process.Run
import Mathlib.Logic.Function.Basic

/-! The connections of the pool and the `app.tenant_id` each of them is left with. Whatever
transactions and context-free statements a connection has served, a policy it evaluates
admits the rows of the tenant context it is in, and none outside. -/
namespace DocAuto.Database.Pool
open Process Sql Expr

/-- How far a connection is with `withTenantContext(tenantId, fn)`. -/
inductive Phase where
  | idle
  | begun (tenantId : Uuid)
  | inside (tenantId : Uuid)
  | aborted
  deriving DecidableEq, Repr

/-- `session` is the setting outside transactions, `txLocal` the one that `set_config(…, true)`
has made in the open transaction. -/
structure Connection where
  session : Option String := none
  txLocal : Option String := none
  phase : Phase := .idle
  deriving DecidableEq, Repr

/-- `statement db` is any statement that reads or writes rows of `db`, in a transaction or alone;
`fail` is an error that the transaction does not survive. -/
inductive Command where
  | begin (tenantId : Uuid)
  | setConfig
  | statement (db : Db)
  | fail
  | commit
  | rollback
  deriving DecidableEq, Repr

namespace Connection

/-- `current_setting('app.tenant_id', true)`. -/
def setting (c : Connection) : Option String := c.txLocal.or c.session

/-- The end of a transaction: a setting made in it reverts to the empty string. -/
def finish (c : Connection) : Connection := { session := if c.txLocal.isSome then some "" else c.session }

def exec (uuid : UuidType) (c : Connection) : Command → Option Connection
  | .begin tenantId => if c.phase = .idle then some { c with phase := .begun tenantId } else none
  | .setConfig =>
    match c.phase with
    | .begun tenantId => some { c with txLocal := some (uuid.text tenantId), phase := .inside tenantId }
    | _ => none
  | .statement _ =>
    match c.phase with
    | .idle | .inside _ => some c
    | _ => none
  | .fail =>
    match c.phase with
    | .begun _ | .inside _ => some { c with phase := .aborted }
    | _ => none
  -- a COMMIT of an aborted transaction rolls it back
  | .commit =>
    match c.phase with
    | .inside _ | .aborted => some c.finish
    | _ => none
  | .rollback => if c.phase = .idle then none else some c.finish

/-- Every order of evaluating a policy for `db` ends, none raises, and a row is admitted if and only
if the connection is inside the context of its tenant. -/
def Confined (uuid : UuidType) (db : Db) (c : Connection) : Prop :=
  ∀ row : Row, (∃ r, Evaluates (uuid.context c.setting) (row.policy db) r) ∧
    ∀ r, Evaluates (uuid.context c.setting) (row.policy db) r →
      r ≠ .error ∧ (r = .value (some true) ↔ ∃ tenantId, c.phase = .inside tenantId ∧ row.BelongsTo db tenantId)

/-- The same, the tenant being that of the context. -/
def Sees (uuid : UuidType) (db : Db) (c : Connection) (context : Option Uuid) : Prop :=
  ∀ row : Row, (∃ r, Evaluates (uuid.context c.setting) (row.policy db) r) ∧
    ∀ r, Evaluates (uuid.context c.setting) (row.policy db) r →
      r ≠ .error ∧ (r = .value (some true) ↔ ∃ tenantId, context = some tenantId ∧ row.BelongsTo db tenantId)

/-- Outside transactions the setting is unset or empty, and only `set_config` changes it inside. -/
structure Sane (uuid : UuidType) (c : Connection) : Prop where
  session : c.session = none ∨ c.session = some ""
  idle : c.phase = .idle → c.txLocal = none
  inside : ∀ tenantId, c.phase = .inside tenantId → c.txLocal = some (uuid.text tenantId)

variable {uuid : UuidType} {c d : Connection}

theorem sane_fresh : Sane uuid {} := ⟨.inl rfl, fun _ => rfl, nofun⟩

theorem Sane.finish (h : Sane uuid c) : Sane uuid c.finish := by
  refine ⟨?_, fun _ => rfl, nofun⟩
  cases hl : c.txLocal with
  | none => simpa [Connection.finish, hl] using h.session
  | some s => simp [Connection.finish, hl]

/-- What a command leaves of a connection: the same one, the end of its transaction, or one of the
three phases of an open transaction. -/
theorem exec_cases {command : Command} (h : c.exec uuid command = some d) :
    d = c ∨ d = c.finish ∨ (∃ t, c.phase = .idle ∧ d = { c with phase := .begun t }) ∨
      (∃ t, c.phase = .begun t ∧ d = { c with txLocal := some (uuid.text t), phase := .inside t }) ∨
      d = { c with phase := .aborted } := by
  cases command with
  | begin t =>
    simp only [exec] at h
    split at h
    · next hp => exact .inr (.inr (.inl ⟨t, hp, (Option.some.inj h).symm⟩))
    · cases h
  | setConfig =>
    simp only [exec] at h
    split at h
    · next t hp => exact .inr (.inr (.inr (.inl ⟨t, hp, (Option.some.inj h).symm⟩)))
    · cases h
  | statement db =>
    simp only [exec] at h
    split at h <;> first | exact .inl (Option.some.inj h).symm | cases h
  | fail =>
    simp only [exec] at h
    split at h <;> first | exact .inr (.inr (.inr (.inr (Option.some.inj h).symm))) | cases h
  | commit =>
    simp only [exec] at h
    split at h <;> first | exact .inr (.inl (Option.some.inj h).symm) | cases h
  | rollback =>
    simp only [exec] at h
    split at h <;> first | exact .inr (.inl (Option.some.inj h).symm) | cases h

theorem Sane.exec (h : Sane uuid c) {command : Command} (hd : c.exec uuid command = some d) : Sane uuid d := by
  rcases exec_cases hd with rfl | rfl | ⟨t, -, rfl⟩ | ⟨t, -, rfl⟩ | rfl
  · exact h
  · exact h.finish
  · exact ⟨h.session, nofun, nofun⟩
  · exact ⟨h.session, nofun, fun t' ht' => by obtain rfl := Phase.inside.inj ht'; rfl⟩
  · exact ⟨h.session, nofun, nofun⟩

theorem exec_statement {db : Db} (h : c.exec uuid (.statement db) = some d) :
    c.phase = .idle ∨ ∃ tenantId, c.phase = .inside tenantId := by
  simp only [Connection.exec] at h
  split at h
  · next hp => exact .inl hp
  · next t hp => exact .inr ⟨t, hp⟩
  · cases h

theorem Sane.readable (h : Sane uuid c) (hp : c.phase = .idle ∨ ∃ tenantId, c.phase = .inside tenantId) :
    Readable uuid c.setting ∧ ∀ t, namedTenant uuid c.setting = some t ↔ c.phase = .inside t := by
  rcases hp with hp | ⟨t, hp⟩
  · rcases h.session with hs | hs <;> simp [setting, h.idle hp, hs, hp, Readable, namedTenant]
  · simp [setting, h.inside t hp, hp, Readable, namedTenant, uuid.input_text, uuid.text_ne]

theorem Sane.confined (h : Sane uuid c) (hp : c.phase = .idle ∨ ∃ tenantId, c.phase = .inside tenantId) (db : Db) :
    c.Confined uuid db := by
  obtain ⟨hread, hnamed⟩ := h.readable hp
  intro row
  refine ⟨exists_evaluates _, fun r hr => ?_⟩
  obtain ⟨hne, hiff⟩ := evaluates_policy hread db row hr
  exact ⟨hne, hiff.trans (exists_congr fun t => and_congr_left' (hnamed t))⟩

theorem Confined.sees {db : Db} {context : Option Uuid} (h : c.Confined uuid db)
    (hc : ∀ t, c.phase = .inside t ↔ context = some t) : c.Sees uuid db context := by
  intro row
  obtain ⟨hends, hall⟩ := h row
  refine ⟨hends, fun r hr => ⟨(hall r hr).1, (hall r hr).2.trans ?_⟩⟩
  exact exists_congr fun t => and_congr_left' (hc t)

end Connection

/-- The pool: its connections by number. -/
abbrev State := Nat → Option Connection

def initial : State := fun _ => none

inductive Action where
  | connect (i : Nat)
  | issue (i : Nat) (command : Command)
  | close (i : Nat)
  deriving DecidableEq, Repr

def step (uuid : UuidType) (s : State) : Action → Option State
  | .connect i => if (s i).isSome then none else some (Function.update s i (some {}))
  | .issue i command => ((s i).bind (·.exec uuid command)).map fun c => Function.update s i (some c)
  | .close i => some (Function.update s i none)

def Sane (uuid : UuidType) (s : State) : Prop := ∀ i c, s i = some c → c.Sane uuid

variable {uuid : UuidType} {s t : State} {a : Action}

theorem Sane.update (h : Sane uuid s) {i : Nat} {o : Option Connection} (ho : ∀ c, o = some c → c.Sane uuid) :
    Sane uuid (Function.update s i o) := by
  intro j c hj
  by_cases hij : j = i
  · subst hij
    exact ho c (by simpa using hj)
  · exact h j c (by simpa [Function.update_of_ne hij] using hj)

theorem step_sane (h : Sane uuid s) (hs : step uuid s a = some t) : Sane uuid t := by
  cases a with
  | connect i =>
    simp only [step] at hs
    split at hs
    · cases hs
    · obtain rfl := Option.some.inj hs
      exact h.update fun c hc => Option.some.inj hc ▸ Connection.sane_fresh
  | issue i command =>
    simp only [step, Option.map_eq_some_iff, Option.bind_eq_some_iff] at hs
    obtain ⟨d, ⟨c, hc, hd⟩, rfl⟩ := hs
    exact h.update fun e he => Option.some.inj he ▸ (h i c hc).exec hd
  | close i =>
    obtain rfl := Option.some.inj hs
    exact h.update nofun

/-- Over every run of the pool, a statement inside `withTenantContext(tenantId)` sees exactly the rows of
that tenant, a statement outside sees none, and no policy raises. -/
theorem issued_confined (uuid : UuidType) (as : List Action) : Along (step uuid) (fun s a _ => ∀ i db,
    a = .issue i (.statement db) → ∃ c, s i = some c ∧ c.Confined uuid db) initial as := by
  refine along_of_inductive (I := Sane uuid) (fun _ _ _ => step_sane) ?_ nofun
  rintro s a t h hs i db rfl
  simp only [step, Option.map_eq_some_iff, Option.bind_eq_some_iff] at hs
  obtain ⟨d, ⟨c, hc, hd⟩, -⟩ := hs
  exact ⟨c, hc, (h i c hc).confined (Connection.exec_statement hd) db⟩

/-- How the body of a transaction ends: it returns, it throws, or one of its statements fails. -/
inductive Ending where
  | returns | throws | fails
  deriving DecidableEq, Repr

def Ending.commands : Ending → List Command
  | returns => [.commit]
  | throws => [.rollback]
  | fails => [.fail, .rollback]

theorem Ending.commands_ne_nil (ending : Ending) : ending.commands ≠ [] := by cases ending <;> exact List.cons_ne_nil _ _

/-- `withTenantContext(tenantId, fn)`, where `fn` has the database answer these statements. -/
def withTenantContext (tenantId : Uuid) (statements : List Db) (ending : Ending) : List Command :=
  .begin tenantId :: .setConfig :: (statements.map .statement ++ ending.commands)

/-- However it ends, the connection goes back to the pool with the empty string. -/
theorem run_withTenantContext {c : Connection} (h : c.phase = .idle) (tenantId : Uuid) (statements : List Db)
    (ending : Ending) : run (Connection.exec uuid) c (withTenantContext tenantId statements ending) =
      some { session := some "" } := by
  have hbody (d : Connection) (hd : d.phase = .inside tenantId) :
      run (Connection.exec uuid) d (statements.map .statement) = some d := by
    induction statements with
    | nil => rfl
    | cons db statements ih => simpa [run, Connection.exec, hd] using ih
  simp only [withTenantContext, run, Connection.exec, h, if_true, Option.bind_some]
  rw [run_append, hbody _ rfl]
  cases ending <;> simp [Ending.commands, run, Connection.exec, Connection.finish]

/-- A connection, with the call of `withTenantContext` that has it: its tenant and the commands to come. -/
structure Served where
  connection : Connection := {}
  call : Option (Uuid × List Command) := none
  deriving DecidableEq, Repr

/-- A call takes a connection that no call has, and gives it back after its last command; `fault` makes
its next command fail, and `alone` is a statement outside any context. -/
inductive Event where
  | connect (i : Nat)
  | call (i : Nat) (tenantId : Uuid) (statements : List Db) (ending : Ending)
  | proceed (i : Nat)
  | fault (i : Nat)
  | alone (i : Nat) (db : Db)
  | close (i : Nat)
  deriving DecidableEq, Repr

abbrev Callers := Nat → Option Served

namespace Callers

def step (uuid : UuidType) (s : Callers) : Event → Option Callers
  | .connect i => if (s i).isSome then none else some (Function.update s i (some {}))
  | .call i tenantId statements ending =>
    match s i with
    | some ⟨c, none⟩ => some (Function.update s i (some ⟨c, some (tenantId, withTenantContext tenantId statements ending)⟩))
    | _ => none
  | .proceed i =>
    match s i with
    | some ⟨c, some (tenantId, command :: rest)⟩ => (c.exec uuid command).map fun d =>
      Function.update s i (some ⟨d, if rest = [] then none else some (tenantId, rest)⟩)
    | _ => none
  | .fault i =>
    match s i with
    | some ⟨c, some (tenantId, _)⟩ => (c.exec uuid .fail).map fun d =>
      Function.update s i (some ⟨d, some (tenantId, [.rollback])⟩)
    | _ => none
  | .alone i db =>
    match s i with
    | some ⟨c, none⟩ => (c.exec uuid (.statement db)).map fun d => Function.update s i (some ⟨d, none⟩)
    | _ => none
  | .close i => some (Function.update s i none)

def initial : Callers := fun _ => none

/-- How far a connection is with its call. -/
def Progress (phase : Phase) : Option (Uuid × List Command) → Prop
  | none => phase = .idle
  | some (t, commands) => ∃ (statements : List Db) (ending : Ending),
    (phase = .idle ∧ commands = withTenantContext t statements ending) ∨
      (phase = .begun t ∧ commands = .setConfig :: (statements.map .statement ++ ending.commands)) ∨
      (phase = .inside t ∧ commands = statements.map .statement ++ ending.commands) ∨
      phase = .aborted ∧ commands = [.rollback]

structure Kept (uuid : UuidType) (x : Served) : Prop where
  sane : x.connection.Sane uuid
  progress : Progress x.connection.phase x.call

variable {c d : Connection} {t : Uuid} {command : Command} {rest : List Command}

theorem Kept.proceed (h : Kept uuid ⟨c, some (t, command :: rest)⟩) (hd : c.exec uuid command = some d) :
    Kept uuid ⟨d, if rest = [] then none else some (t, rest)⟩ := by
  refine ⟨h.sane.exec hd, ?_⟩
  obtain ⟨statements, ending, ⟨hp, hc⟩ | ⟨hp, hc⟩ | ⟨hp, hc⟩ | ⟨hp, hc⟩⟩ := h.progress
  · obtain ⟨rfl, rfl⟩ := List.cons.inj hc
    simp only [Connection.exec, show c.phase = _ from hp, if_true, Option.some.injEq] at hd
    subst hd
    rw [if_neg (List.cons_ne_nil _ _)]
    exact ⟨statements, ending, .inr (.inl ⟨rfl, rfl⟩)⟩
  · obtain ⟨rfl, rfl⟩ := List.cons.inj hc
    simp only [Connection.exec, show c.phase = _ from hp, Option.some.injEq] at hd
    subst hd
    rw [if_neg (List.append_ne_nil_of_right_ne_nil _ ending.commands_ne_nil)]
    exact ⟨statements, ending, .inr (.inr (.inl ⟨rfl, rfl⟩))⟩
  · cases statements with
    | cons db statements =>
      rw [List.map_cons, List.cons_append] at hc
      obtain ⟨rfl, rfl⟩ := List.cons.inj hc
      simp only [Connection.exec, show c.phase = _ from hp, Option.some.injEq] at hd
      subst hd
      rw [if_neg (List.append_ne_nil_of_right_ne_nil _ ending.commands_ne_nil)]
      exact ⟨statements, ending, .inr (.inr (.inl ⟨hp, rfl⟩))⟩
    | nil =>
      cases ending with
      | returns | throws =>
        obtain ⟨rfl, rfl⟩ := List.cons.inj hc
        simp only [Connection.exec, show c.phase = _ from hp, if_false, reduceCtorEq, Option.some.injEq] at hd
        subst hd
        rfl
      | fails =>
        obtain ⟨rfl, rfl⟩ := List.cons.inj hc
        simp only [Connection.exec, show c.phase = _ from hp, Option.some.injEq] at hd
        subst hd
        rw [if_neg (List.cons_ne_nil _ _)]
        exact ⟨[], .throws, .inr (.inr (.inr ⟨rfl, rfl⟩))⟩
  · obtain ⟨rfl, rfl⟩ := List.cons.inj hc
    simp only [Connection.exec, show c.phase = _ from hp, if_false, reduceCtorEq, Option.some.injEq] at hd
    subst hd
    rfl

theorem Kept.fault {call : Uuid × List Command} (h : Kept uuid ⟨c, some call⟩) (hd : c.exec uuid .fail = some d) :
    Kept uuid ⟨d, some (call.1, [.rollback])⟩ := by
  refine ⟨h.sane.exec hd, [], .throws, .inr (.inr (.inr ⟨?_, rfl⟩))⟩
  simp only [Connection.exec] at hd
  split at hd <;> cases hd <;> rfl

theorem Kept.alone (h : Kept uuid ⟨c, none⟩) {db : Db} (hd : c.exec uuid (.statement db) = some d) : Kept uuid ⟨d, none⟩ := by
  refine ⟨h.sane.exec hd, ?_⟩
  simp only [Connection.exec] at hd
  split at hd <;> cases hd <;> exact h.progress

theorem step_kept {s s' : Callers} {e : Event} (h : ∀ i x, s i = some x → Kept uuid x) (hs : step uuid s e = some s') :
    ∀ i x, s' i = some x → Kept uuid x := by
  have update (i : Nat) (o : Option Served) (ho : ∀ x, o = some x → Kept uuid x) (j : Nat) (x : Served)
      (hx : Function.update s i o j = some x) : Kept uuid x := by
    by_cases hij : j = i
    · subst hij
      exact ho x (by simpa using hx)
    · exact h j x (by simpa [Function.update_of_ne hij] using hx)
  cases e with
  | connect i =>
    simp only [step] at hs
    split at hs
    · cases hs
    · cases hs
      exact update i _ fun x hx => Option.some.inj hx ▸ ⟨Connection.sane_fresh, rfl⟩
  | call i t statements ending =>
    simp only [step] at hs
    split at hs
    · next c hi =>
      cases hs
      exact update i _ fun x hx => Option.some.inj hx ▸
        ⟨(h i _ hi).sane, statements, ending, .inl ⟨(h i _ hi).progress, rfl⟩⟩
    · cases hs
  | proceed i =>
    simp only [step] at hs
    split at hs
    · next c t command rest hi =>
      obtain ⟨d, hd, rfl⟩ := Option.map_eq_some_iff.1 hs
      exact update i _ fun x hx => Option.some.inj hx ▸ (h i _ hi).proceed hd
    · cases hs
  | fault i =>
    simp only [step] at hs
    split at hs
    · next c t commands hi =>
      obtain ⟨d, hd, rfl⟩ := Option.map_eq_some_iff.1 hs
      exact update i _ fun x hx => Option.some.inj hx ▸ (h i _ hi).fault hd
    · cases hs
  | alone i db =>
    simp only [step] at hs
    split at hs
    · next c hi =>
      obtain ⟨d, hd, rfl⟩ := Option.map_eq_some_iff.1 hs
      exact update i _ fun x hx => Option.some.inj hx ▸ (h i _ hi).alone hd
    · cases hs
  | close i =>
    cases hs
    exact update i _ nofun

/-- A call comes to its statements inside its own context only. -/
theorem Kept.sees {db : Db} (h : Kept uuid ⟨c, some (t, .statement db :: rest)⟩) : c.Sees uuid db (some t) := by
  obtain ⟨statements, ending, ⟨-, hc⟩ | ⟨-, hc⟩ | ⟨hp, -⟩ | ⟨-, hc⟩⟩ := h.progress
  · cases hc
  · cases hc
  · have hp : c.phase = .inside t := hp
    exact (h.sane.confined (.inr ⟨t, hp⟩) db).sees fun t' => by simp [hp]
  · cases hc

theorem Kept.sees_none (h : Kept uuid ⟨c, none⟩) (db : Db) : c.Sees uuid db none := by
  have hp : c.phase = .idle := h.progress
  exact (h.sane.confined (.inl hp) db).sees fun t' => by simp [hp]

end Callers

/-- However the statements on a pool of connections follow each other, one inside `withTenantContext(tenantId)` sees
exactly the rows of that tenant, one outside sees none, and no policy raises; and however calls of
`withTenantContext` and statements outside any context take turns on reused connections, each statement of a
call is inside the context of its own tenant. -/
theorem statements_confined (uuid : UuidType) :
    (∀ as, Along (step uuid) (fun s a _ => ∀ i db, a = .issue i (.statement db) → ∃ c, s i = some c ∧ c.Confined uuid db)
      initial as) ∧
    ∀ events, Along (Callers.step uuid) (fun s e _ => ∀ i x db, s i = some x →
      (∀ tenantId rest, e = .proceed i → x.call = some (tenantId, .statement db :: rest) →
        x.connection.Sees uuid db (some tenantId)) ∧
      (e = .alone i db → x.connection.Sees uuid db none)) Callers.initial events := by
  refine ⟨issued_confined uuid, fun events => ?_⟩
  refine along_of_inductive (I := fun s => ∀ i x, s i = some x → Callers.Kept uuid x) (fun _ _ _ => Callers.step_kept) ?_ nofun
  rintro s e s' h hs i ⟨c, call⟩ db hi
  refine ⟨?_, ?_⟩
  · rintro tenantId rest rfl hcall
    subst hcall
    exact (h i _ hi).sees
  · rintro rfl
    simp only [Callers.step, hi] at hs
    split at hs
    · next heq =>
      cases heq
      exact (h i _ hi).sees_none db
    · cases hs

/-- UUIDs as numerals. -/
def decimal : UuidType where
  text id := id.repr
  input s := if s = "" then none else some (Auth.uuidOfText s)
  input_text id := by simp [Auth.uuidOfText_repr]
  input_empty := by simp

private def twoTenants : Db := ⟨[], [], [⟨1, 7, 2, "7/1", "a.pdf", "application/pdf", .uploaded, none, none, 0⟩,
  ⟨3, 8, 4, "8/3", "b.pdf", "application/pdf", .uploaded, none, none, 0⟩], [], [], [], 0⟩

/-- One connection serves tenant 7, a call of tenant 9 that fails, a login, and then tenant 8. -/
private def reused : List Event :=
  [.connect 0, .call 0 7 [twoTenants] .returns, .proceed 0, .proceed 0, .proceed 0, .proceed 0, .call 0 9 [] .throws,
    .proceed 0, .fault 0, .proceed 0, .alone 0 twoTenants, .call 0 8 [twoTenants] .returns, .proceed 0, .proceed 0]

theorem statements_confined_reused : ∃ s x, run (Callers.step decimal) Callers.initial reused = some s ∧ s 0 = some x ∧
    x.connection.session = some "" ∧ x.connection.Sees decimal twoTenants (some 8) := by
  have hrun : (run (Callers.step decimal) Callers.initial reused).bind (· 0) =
      some ⟨⟨some "", some "8", .inside 8⟩, some (8, [.statement twoTenants, .commit])⟩ := by decide +kernel
  obtain ⟨s, hs, hx⟩ := Option.bind_eq_some_iff.1 hrun
  have hstep : Callers.step decimal s (.proceed 0) = some (Function.update s 0 (some
      ⟨⟨some "", some "8", .inside 8⟩, some (8, [.commit])⟩)) := by
    simp [Callers.step, hx, Connection.exec]
  exact ⟨s, _, hs, hx, rfl, (along_last ((statements_confined decimal).2 _) hs hstep 0 _ twoTenants hx).1 8 _ rfl rfl⟩

end DocAuto.Database.Pool
