import DocAuto.Pipeline.Conduct
import DocAuto.Pipeline.Follows

/-! The system as one document sees it: its record, the control points of the processes
and the jobs. Every step of the system is a move of this machine. -/
namespace DocAuto.Pipeline
open Process Database

/-- Whose process it is, and where it stands. -/
structure Position where
  owner : Owner
  point : Point
  deriving DecidableEq, Repr

structure View where
  record : Option Record
  positions : ProcId → Option Position
  jobs : JobId → Option Job
  issued : List Uuid

namespace View

def place (v : View) (id : ProcId) (pos : Option Position) : View :=
  { v with positions := Function.update v.positions id pos }

def setJob (v : View) (jobId : JobId) (job : Option Job) : View :=
  { v with jobs := Function.update v.jobs jobId job }

def add (v : View) (jobId : JobId) (data : JobData) : View :=
  if (v.jobs jobId).isSome then v else v.setJob jobId (some ⟨data, .waiting, 0⟩)

def fresh (v : View) (ids : List Uuid) : Prop := (∀ u ∈ ids, u ∉ v.issued) ∧ ids.Nodup

def draw (v : View) (ids : List Uuid) : View := { v with issued := ids ++ v.issued }

/-- What the queue makes of an execution that ended. -/
def settle (v : View) (id : ProcId) (owner : Owner) (failed : Bool) : View :=
  match owner with
  | .api _ => v
  | .job jobId _ =>
    match v.jobs jobId with
    | some job => if job.state = .active id then v.setJob jobId (some (job.settle failed)) else v
    | none => v

end View

/-- The effect of one command on the view of document `d`. -/
def Effect (d : Uuid) (v : View) : (c : Cmd) → Answer → Except Failure c.Resp → View → Prop
  | _, .throws e, r, w => r = .error e ∧ w = v
  | .tx t, answer, r, w => answer = .execute ∧ ∃ now rec, t.Outcome now d v.record r rec ∧ w = { v with record := rec }
  | .queueAdd data jobId, answer, r, w => answer = .execute ∧ r = .ok () ∧ w = v.add jobId data
  | .webhookQueueAdd d' t, answer, r, w =>
    answer = .execute ∧ r = .ok () ∧ ∃ n, w = v.add (.webhook n) { documentId := d', tenantId := t }
  | _, answer, r, w => answer ≠ .execute ∧ (∃ a, r = .ok a) ∧ w = v

/-- The moves of the machine. -/
inductive Move (d : Uuid) (v : View) : Action → View → Prop where
  | call {id call} : v.fresh (id :: call.draws) →
    Move d v (.call id call) ((v.place id (some ⟨.api call, (Owner.api call).start⟩)).draw (id :: call.draws))
  | start {id jobId draw job} : v.jobs jobId = some job → job.state = .waiting ∨ job.state = .delayed →
    v.fresh [id, draw] →
    Move d v (.start id jobId draw) (((v.place id (some ⟨.job jobId job.data, (Owner.job jobId job.data).start⟩)).draw
      [id, draw]).setJob jobId (some { job with state := .active id }))
  | step {id answer pos c r w} : v.positions id = some pos → pos.point.allows c → Effect d v c answer r w →
    Move d v (.step id answer) (w.place id (some ⟨pos.owner, pos.point.next c r⟩))
  | finish {id pos failed} : v.positions id = some pos →
    pos.point = .aside ∨ pos.point = .lost ∧ failed = true →
    Move d v (.finish id) ((v.place id none).settle id pos.owner failed)
  | crash {id pos} : v.positions id = some pos → Move d v (.crash id) (v.place id none)
  | stall {jobId job id} : v.jobs jobId = some job → job.state = .active id →
    Move d v (.stall jobId) (v.setJob jobId (some { job with state := .waiting }))
  | evict {jobId job} : v.jobs jobId = some job → job.state = .completed ∨ job.state = .failed →
    Move d v (.evict jobId) (v.setJob jobId none)
  | tick : Move d v .tick v

def Activity.position (p : Activity) : Position := ⟨p.owner, p.point⟩

/-- The view of document `d` in a configuration. -/
def Config.view (c : Config) (d : Uuid) : View where
  record := c.world.db.record d
  positions id := (c.procs id).map Activity.position
  jobs := c.world.jobs
  issued := c.issued

theorem Config.view_position {c : Config} {d : Uuid} {i : ProcId} {p : Activity} (hp : c.procs i = some p) :
    (c.view d).positions i = some p.position := congrArg (Option.map Activity.position) hp

/-- The database keeps its constraints and every program is where its point says. -/
structure Config.Valid (c : Config) : Prop where
  sound : c.world.db.Sound
  follows : ∀ id p, c.procs id = some p → control.wp Point.ends p.program p.point

theorem initial_valid (tenants : List TenantRow) (users : List UserRow) : (initial tenants users).Valid := by
  refine ⟨⟨List.nodup_nil, List.nodup_nil, ?_, ?_⟩, ?_⟩ <;> simp [initial]

theorem view_add (c : Config) (d : Uuid) (jobId : JobId) (data : JobData) :
    ({ c with world := c.world.add jobId data } : Config).view d = (c.view d).add jobId data := by
  unfold World.add View.add
  by_cases h : (c.world.jobs jobId).isSome
  · rw [if_pos h, if_pos (show ((c.view d).jobs jobId).isSome from h)]
  · rw [if_neg h, if_neg (show ¬ ((c.view d).jobs jobId).isSome from h)]
    rfl

theorem World.settle_db (w : World) (id : ProcId) (owner : Owner) (failed : Bool) :
    (w.settle id owner failed).db = w.db := by
  unfold World.settle
  split
  · rfl
  · split
    · split <;> rfl
    · rfl

/-- Only a transaction that runs changes the database. -/
theorem Cmd.exec_db {cmd : Cmd} {answer : Answer} {w w' : World} {r : Except Failure cmd.Resp}
    (h : cmd.exec answer w = some (r, w')) :
    (∃ t, cmd = .tx t ∧ answer = .execute ∧ w'.db = (t.run true w.db).2) ∨ w'.db = w.db := by
  unfold Cmd.exec at h
  split at h <;> simp only [Option.some.injEq, Prod.mk.injEq, reduceCtorEq] at h <;> obtain ⟨-, rfl⟩ := h
  case h_2 => exact .inl ⟨_, rfl, rfl, rfl⟩
  case h_3 => exact .inr (World.add_db _ _ _)
  case h_4 => exact .inr (World.add_db _ _ _)
  all_goals exact .inr rfl

theorem Cmd.exec_sound {cmd : Cmd} {answer : Answer} {w w' : World} {r : Except Failure cmd.Resp}
    (hs : w.db.Sound) (h : cmd.exec answer w = some (r, w')) : w'.db.Sound := by
  unfold Cmd.exec at h
  split at h <;> simp only [Option.some.injEq, Prod.mk.injEq, reduceCtorEq] at h <;> obtain ⟨-, rfl⟩ := h
  case h_2 => exact Tx.run_sound true _ hs
  case h_3 => rw [World.add_db]; exact hs
  case h_4 => rw [World.add_db]; exact hs
  all_goals exact hs

theorem Cmd.exec_effect (d : Uuid) (procs : ProcId → Option Activity) (issued : List Uuid) {cmd : Cmd}
    {answer : Answer} {r : Except Failure cmd.Resp} {w w' : World} (hs : w.db.Sound)
    (h : cmd.exec answer w = some (r, w')) :
    Effect d (Config.view ⟨w, procs, issued⟩ d) cmd answer r (Config.view ⟨w', procs, issued⟩ d) := by
  unfold Cmd.exec at h
  split at h <;> simp only [Option.some.injEq, Prod.mk.injEq, reduceCtorEq] at h <;> obtain ⟨rfl, rfl⟩ := h
  case h_1 cmd e w => cases cmd <;> exact ⟨rfl, rfl⟩
  case h_2 => exact ⟨rfl, _, _, Tx.run_outcome hs _, rfl⟩
  case h_3 => exact ⟨rfl, rfl, view_add ⟨_, procs, issued⟩ d _ _⟩
  case h_4 => exact ⟨rfl, rfl, _, view_add ⟨_, procs, issued⟩ d _ _⟩
  all_goals exact ⟨nofun, ⟨_, rfl⟩, rfl⟩

theorem Effect.answered {d : Uuid} {v w : View} {c : Cmd} {answer : Answer} {r : Except Failure c.Resp}
    (h : Effect d v c answer r w) : answered c r := by
  cases r with
  | error e => cases c with
    | tx t => cases t <;> trivial
    | _ => trivial
  | ok a => cases c with
    | tx t =>
      cases t with
      | insertDocument p id =>
        cases answer with
        | throws e => cases h.1
        | _ =>
          obtain ⟨-, now, rec, ⟨-, -, row, rfl, hid⟩, -⟩ := h
          exact hid
      | _ => trivial
    | _ => trivial

theorem positions_update (procs : ProcId → Option Activity) (id : ProcId) (p : Option Activity) :
    (fun i => (Function.update procs id p i).map Activity.position) =
      Function.update (fun i => (procs i).map Activity.position) id (p.map Activity.position) := by
  funext i
  by_cases h : i = id
  · subst h; simp
  · simp [h]

theorem ended_point {p : Activity} {failed : Bool} (hf : control.wp Point.ends p.program p.point)
    (h : p.ended = some failed) : p.point = .aside ∨ p.point = .lost ∧ failed = true := by
  unfold Activity.ended at h
  cases hp : p.program with
  | ret a =>
    rw [hp] at hf
    exact hf.imp_right fun ⟨_, _, he⟩ => nomatch he
  | throw e =>
    rw [hp] at h hf
    exact hf.imp_right fun hl => ⟨hl.1, (Option.some.inj h).symm⟩
  | call c k => simp [hp] at h

theorem fresh_iff {c : Config} (d : Uuid) {ids : List Uuid} : c.fresh ids = true ↔ (c.view d).fresh ids := by
  simp [Config.fresh, View.fresh, Config.view]

theorem view_settle (c : Config) (d : Uuid) (id : ProcId) (owner : Owner) (failed : Bool) :
    ({ c with world := c.world.settle id owner failed } : Config).view d = (c.view d).settle id owner failed := by
  cases owner with
  | api _ => rfl
  | job jobId data =>
    have hv : (c.view d).jobs jobId = c.world.jobs jobId := rfl
    cases hj : c.world.jobs jobId with
    | none => simp only [World.settle, View.settle, hv, hj]
    | some job => simp only [World.settle, View.settle, hv, hj]; split <;> rfl

/-- Every step of the system is a move of the machine. -/
theorem step_move {c c' : Config} {a : Action} (d : Uuid) (hv : c.Valid) (h : step c a = some c') :
    Move d (c.view d) a (c'.view d) := by
  cases step_turn h with
  | @call id call hfresh =>
    have hm := Move.call (d := d) ((fresh_iff d).1 hfresh)
    simp only [View.place, View.draw, Config.view, Config.spawn, positions_update] at hm ⊢
    exact hm
  | start hj hst hfresh =>
    have hm := Move.start (d := d) (v := c.view d) hj hst ((fresh_iff d).1 hfresh)
    simp only [View.place, View.draw, View.setJob, Config.view, Config.spawn, World.setJob, positions_update] at hm ⊢
    exact hm
  | @step id answer p cmd k r w hp hc he =>
    have hpos : (c.view d).positions id = some p.position := Config.view_position hp
    have hf := hv.follows id p hp
    rw [hc] at hf
    have hm := Move.step hpos hf.1 (Cmd.exec_effect d c.procs c.issued hv.sound he)
    simp only [View.place, Config.view, positions_update] at hm ⊢
    exact hm
  | @finish id p failed hp he =>
    have hpos : (c.view d).positions id = some p.position := Config.view_position hp
    have hm := Move.finish (d := d) hpos (ended_point (hv.follows id p hp) he)
    have hw := view_settle (c.kill id) d id p.owner failed
    rw [show (c.kill id).view d = (c.view d).place id none by
      simp only [View.place, Config.view, Config.kill, positions_update, Option.map_none]] at hw
    exact hw ▸ hm
  | @crash id p hp =>
    have hm : Move d (c.view d) (.crash id) _ := .crash (Config.view_position hp)
    simpa only [View.place, Config.view, Config.kill, positions_update, Option.map_none] using hm
  | stall hj hst => exact Move.stall (v := c.view d) hj hst
  | evict hj hst => exact Move.evict (v := c.view d) hj hst
  | tick => exact .tick

/-- The control points, owner by owner. -/
def controlled : Conduct := ⟨fun _ => control, Owner.start, fun _ => Point.ends⟩

/-- A step of a process runs the command its program has come to, and goes on from the answer. -/
theorem step_advance {c c' : Config} {i : ProcId} {answer : Answer} (h : step c (.step i answer) = some c') :
    ∃ p cmd k r w, c.procs i = some p ∧ p.program = .call cmd k ∧ cmd.exec answer c.world = some (r, w) ∧
      c' = { c with
        world := w
        procs := Function.update c.procs i
          (some { p with program := k r, transcript := ⟨cmd, r⟩ :: p.transcript }) } := by
  cases step_turn h with
  | step hp hc he => exact ⟨_, _, _, _, _, hp, hc, he, rfl⟩

theorem step_inv {c c' : Config} {i : ProcId} {answer : Answer} (h : step c (.step i answer) = some c') :
    ∃ p cmd k r w, c.procs i = some p ∧ p.program = .call cmd k ∧ cmd.exec answer c.world = some (r, w) ∧
      c'.world = w := by
  obtain ⟨p, cmd, k, r, w, hp, hc, he, rfl⟩ := step_advance h
  exact ⟨p, cmd, k, r, w, hp, hc, he, rfl⟩

/-- A transaction whose turn it is runs on the database. -/
theorem step_tx {c c' : Config} {i : ProcId} {t : Tx} (h : step c (.step i .execute) = some c')
    (hc : c.command i = some (.tx t)) : c'.world.db = (t.run true c.world.db).2 := by
  obtain ⟨p, cmd, k, r, w, hp, hprog, he, rfl⟩ := step_inv h
  cases (Config.command_of hp hprog).symm.trans hc
  simp only [Cmd.exec, Option.some.injEq, Prod.mk.injEq] at he
  exact he.2 ▸ rfl

/-- The process an action belongs to. -/
def Action.actor : Action → Option ProcId
  | .call id _ | .start id _ _ | .step id _ | .finish id | .crash id => some id
  | .stall _ | .evict _ | .tick => none

theorem step_procs {c c' : Config} {a : Action} (h : step c a = some c') {i : ProcId} (hi : a.actor ≠ some i) :
    c'.procs i = c.procs i := by
  have other : ∀ {id : ProcId} {q : Option Activity}, (some id : Option ProcId) ≠ some i →
      Function.update c.procs id q i = c.procs i := fun hne => Function.update_of_ne (fun he => hne (congrArg some he.symm)) _ _
  cases step_turn h with
  | call _ | start _ _ _ | step _ _ _ | finish _ _ | crash _ => exact other hi
  | stall _ _ | evict _ _ | tick => rfl

/-- Only a command of a process, run by a step, changes the rows of the database. -/
theorem step_tables {c c' : Config} {a : Action} (h : step c a = some c') :
    (∃ i answer, a = .step i answer) ∨ c'.world.db.tables = c.world.db.tables := by
  cases step_turn h with
  | @step id answer _ _ _ _ _ _ _ _ => exact .inl ⟨id, answer, rfl⟩
  | finish _ _ => exact .inr (congrArg Db.tables (World.settle_db _ _ _ _))
  | _ => exact .inr rfl

/-- Every step keeps the programs where their points say, when the answers to commands are proper. -/
theorem step_follows {c c' : Config} {a : Action}
    (hf : ∀ i p, c.procs i = some p → control.wp Point.ends p.program p.point)
    (ha : ∀ i answer p cmd k r w, a = .step i answer → c.procs i = some p → p.program = .call cmd k →
      cmd.exec answer c.world = some (r, w) → answered cmd r)
    (h : step c a = some c') (i : ProcId) (p : Activity) (hp : c'.procs i = some p) :
    control.wp Point.ends p.program p.point :=
  Conduct.step_holds (K := controlled) ⟨call_follows, processor_follows⟩ hf ha h i p hp

theorem step_valid {c c' : Config} {a : Action} (hv : c.Valid) (h : step c a = some c') : c'.Valid := by
  refine ⟨?_, step_follows hv.follows (fun i _ _ _ _ _ _ _ _ _ he =>
    (Cmd.exec_effect 0 c.procs c.issued hv.sound he).answered) h⟩
  rcases step_tables h with ⟨i, answer, rfl⟩ | ht
  · obtain ⟨p, cmd, k, r, w, -, -, he, rfl⟩ := step_inv h
    exact Cmd.exec_sound hv.sound he
  · exact hv.sound.of_tables ht

theorem Config.Valid.allows {c : Config} (hv : c.Valid) {i : ProcId} {p : Activity} {cmd : Cmd}
    {k : Except Failure cmd.Resp → Proc Unit} (hp : c.procs i = some p) (hc : p.program = .call cmd k) :
    p.point.allows cmd := by
  have hf := hv.follows i p hp
  rw [hc] at hf
  exact hf.1

theorem status_eq (c : Config) (d : Uuid) : c.status d = (c.view d).record.map (·.row.status) := by
  simp only [Config.status, Config.view, Db.record, Db.document, Table.lookup, Option.map_map]
  rfl

end DocAuto.Pipeline
