import DocAuto.ReadCommitted.Invariant

/-! Approvals, rejections and reprocesses under READ COMMITTED: each consumes a status the
document has entered, and logs exactly one row. -/
namespace DocAuto.ReadCommitted
open Process Database Pipeline

/-- The transaction an action commits. -/
def Action.committing (c : State) : Action → Option Tx
  | .commit id => (c.opened id).map (·.tx)
  | _ => none

def commits (p : Tx → Bool) (c : State) (a : Action) (_ : State) : Bool := (a.committing c).any p

def approves (d : Uuid) : Tx → Bool
  | .approve _ d' _ => d' == d
  | _ => false

def rejects (d : Uuid) : Tx → Bool
  | .reject _ d' _ _ => d' == d
  | _ => false

def reprocesses (d : Uuid) : Tx → Bool
  | .reprocess _ d' _ => d' == d
  | _ => false

/-- The committed status of `d` is one of `statuses`. -/
def State.among (c : State) (d : Uuid) (statuses : List DocumentStatus) : Bool :=
  (c.config.status d).any (· ∈ statuses)

def enters (d : Uuid) (statuses : List DocumentStatus) (c : State) (_ : Action) (c' : State) : Bool :=
  !c.among d statuses && c'.among d statuses

/-- The committed audit rows of `d` with an event. -/
def State.audited (c : State) (d : Uuid) (event : AuditEvent) : Nat :=
  c.db.documentAuditLog.countP fun r => r.documentId == d && r.event == event

/-- A commit ends a transaction whose body has returned; no other step changes a table. -/
def Contained (c : State) (a : Action) (c' : State) : Prop :=
  match a with
  | .commit id => ∃ o x, c.opened id = some o ∧ o.rest = .ret x
  | _ => c'.db.tables = c.db.tables

section Commit
variable {c c' : State} {id : ProcId} {o : Open} {x : o.tx.Result} {r : Review} {d : Uuid} {event : AuditEvent}

private theorem committing_review (hs : c.Sane) (ho : c.opened id = some o) (hx : o.rest = .ret x)
    (hr : review o.tx = some r) : r.ready c.db ∧ ∃ row, row.documentId = r.documentId ∧ row.event = r.event ∧
      o.writes.filter notable = [.updateDocument r.set r.documentId, .insertAuditLog row] := by
  have ht := hs.staged id o ho
  unfold Open.Staged at ht
  simp only [hr, hx] at ht
  obtain ⟨st, hwp, hw, hready⟩ := ht
  cases hwp x rfl
  exact ⟨hready nofun, hw⟩

private theorem committing_status (hs : c.Sane) (ho : c.opened id = some o) (hx : o.rest = .ret x)
    (hr : review o.tx = some r) : ∃ status ∈ r.allowed, c.config.status r.documentId = some status ∧
      (c.answer id o (.ok x) (applyAll c.db o.writes)).config.status r.documentId =
        some (r.set.status.getD status) := by
  obtain ⟨⟨row, hrow, hal⟩, log, -, -, hf⟩ := committing_review hs ho hx hr
  refine ⟨row.status, hal, congrArg (Option.map _) hrow, ?_⟩
  have hdoc : (applyAll c.db o.writes).document r.documentId = some (r.set.apply row) := by
    refine (congrArg (Table.lookup _ _) (applyAll_documents c.db o.writes)).trans ?_
    rw [hf]
    exact (document_updated c.db r.set r.documentId).trans (congrArg (Option.map _) hrow)
  exact congrArg (Option.map _) hdoc

private theorem committing_audit (hs : c.Sane) (ho : c.opened id = some o) (hx : o.rest = .ret x)
    (he : event ∈ reviewEvents) :
    (c.answer id o (.ok x) (applyAll c.db o.writes)).audited d event = c.audited d event +
      if (review o.tx).any fun r => r.documentId == d && r.event == event then 1 else 0 := by
  refine (congrArg (List.countP _) (applyAll_audit c.db o.writes)).trans (List.countP_append.trans ?_)
  refine congrArg (c.audited d event + ·) ?_
  cases hr : review o.tx with
  | some r =>
    obtain ⟨-, row, hd, hev, hf⟩ := committing_review hs ho hx hr
    rw [← logged_notable, hf]
    simp [Write.logged, List.filterMap_cons, List.countP_cons, hd, hev]
  | none =>
    have ht := hs.staged id o ho
    unfold Open.Staged at ht
    simp only [hr] at ht
    refine List.countP_eq_zero.2 fun row hrow => ?_
    obtain ⟨w, hw, hlog⟩ := List.mem_filterMap.1 hrow
    have : w = .insertAuditLog row := by cases w <;> cases hlog; rfl
    have hne : row.event ≠ event := fun h => ht.2 row (this ▸ hw) (h ▸ he)
    simp [hne]

end Commit

section Step
variable {c c' : State} {a : Action} {d : Uuid}

theorem uncommitted_tables (h : step c a = some c') (ha : a.committing c = none) : c'.db.tables = c.db.tables := by
  cases step_move h with
  | outside ho hc => exact outside_tables ho hc
  | commit ho hx => simp [Action.committing, ho] at ha
  | _ => rfl

private theorem audited_step {event : AuditEvent} {p : Tx → Bool} (he : event ∈ reviewEvents)
    (hp : ∀ t, p t = (review t).any fun r => r.documentId == d && r.event == event) (hs : c.Sane)
    (h : step c a = some c') : c'.audited d event = c.audited d event + if commits p c a c' then 1 else 0 := by
  cases hc : a.committing c with
  | none =>
    have ht := uncommitted_tables h hc
    simp only [Db.tables, Db.mk.injEq] at ht
    simp [commits, hc, State.audited, ht.2.2.2.2.1]
  | some t =>
    cases step_move h with
    | commit ho hx =>
      obtain rfl : _ = t := by simpa [Action.committing, ho] using hc
      rw [committing_audit hs ho hx he]
      simp [commits, Action.committing, ho, hp]
    | _ => cases hc

private theorem consumes_step {statuses : List DocumentStatus} {p : Tx → Bool}
    (hp : ∀ t, p t → ∃ r, review t = some r ∧ r.documentId = d ∧ r.allowed = statuses ∧
      ∃ status, r.set.status = some status ∧ status ∉ statuses)
    (hs : c.Sane) (h : step c a = some c') (ha : commits p c a c') : c.among d statuses ∧ c'.among d statuses = false := by
  cases step_move h with
  | commit ho hx =>
    obtain ⟨r, hr, rfl, rfl, status, hst, hout⟩ := hp _ (by simpa [commits, Action.committing, ho] using ha)
    obtain ⟨old, hold, hc, hc'⟩ := committing_status hs ho hx hr
    rw [hst] at hc'
    exact ⟨by simpa [State.among, hc] using hold, by simpa [State.among, hc'] using hout⟩
  | _ => simp [commits, Action.committing] at ha

private theorem step_contained (h : step c a = some c') : Contained c a c' := by
  cases step_move h with
  | outside ho hc => exact outside_tables ho hc
  | @commit _ o x ho hx => exact ⟨o, x, ho, hx⟩
  | _ => rfl

end Step

/-- What a run that ends in `c` has made of the review actions on `d`. -/
structure ConsumedOnce (d : Uuid) (start : State) (actions : List Action) (c : State) : Prop where
  decisions : tally step (commits fun t => approves d t || rejects d t) start actions ≤
    tally step (enters d [.pendingReview]) start actions
  resets : tally step (commits (reprocesses d)) start actions ≤ tally step (enters d [.failed, .rejected]) start actions
  approved : c.audited d .approved = tally step (commits (approves d)) start actions
  rejected : c.audited d .rejected = tally step (commits (rejects d)) start actions
  reprocessed : c.audited d .reprocessed = tally step (commits (reprocesses d)) start actions
  contained : Along step Contained start actions

section Run
variable {tenants : List TenantRow} {users : List UserRow} {actions : List Action} {c : State} {d : Uuid}

private theorem consumed {statuses : List DocumentStatus} {p : Tx → Bool}
    (hp : ∀ t, p t → ∃ r, review t = some r ∧ r.documentId = d ∧ r.allowed = statuses ∧
      ∃ status, r.set.status = some status ∧ status ∉ statuses) :
    tally step (commits p) (initial tenants users) actions ≤
      tally step (enters d statuses) (initial tenants users) actions :=
  tally_le_entries (S := fun c => c.among d statuses) (fun _ _ _ => step_sane)
    (fun _ _ _ hs h ha => consumes_step hp hs h ha) (initial_sane tenants users)

private theorem audited {event : AuditEvent} {p : Tx → Bool} (he : event ∈ reviewEvents)
    (hp : ∀ t, p t = (review t).any fun r => r.documentId == d && r.event == event)
    (h : run step (initial tenants users) actions = some c) :
    c.audited d event = tally step (commits p) (initial tenants users) actions := by
  have := tally_eq (f := fun c : State => c.audited d event) (fun _ _ _ => step_sane)
    (fun _ _ _ hs h => audited_step he hp hs h) (initial_sane tenants users) h
  exact this.trans (Nat.zero_add _)

/-- Whatever the interleaving of statements: no approval or rejection without an entry into
review of its own, no reprocess without a failure or rejection, one audit row for each
committed action, and no trace of an action that was refused. -/
theorem reviews_consumed_once (h : run step (initial tenants users) actions = some c) (d : Uuid) :
    ConsumedOnce d (initial tenants users) actions c where
  decisions := consumed fun t ht => by
    cases t with
    | approve tid d' actorId => exact ⟨_, rfl, by simpa [approves, rejects] using ht, rfl, _, rfl, by decide⟩
    | reject tid d' actorId reason => exact ⟨_, rfl, by simpa [approves, rejects] using ht, rfl, _, rfl, by decide⟩
    | _ => cases ht
  resets := consumed fun t ht => by
    cases t with
    | reprocess tid d' actorId => exact ⟨_, rfl, by simpa [reprocesses] using ht, rfl, _, rfl, by decide⟩
    | _ => cases ht
  approved := audited (by decide) (fun t => by cases t <;> simp [approves, review]) h
  rejected := audited (by decide) (fun t => by cases t <;> simp [rejects, review]) h
  reprocessed := audited (by decide) (fun t => by cases t <;> simp [reprocesses, review]) h
  contained := along_of_inductive (fun _ _ _ _ _ => trivial) (fun _ _ _ (_ : True) h => step_contained h) trivial

end Run

/-- One transaction of a single statement. -/
def demoTx (id : ProcId) : List Action := [.begin id, .statement id, .commit id]

/-- Document 3 is sent to review. -/
def demoReview : List Action :=
  [.outside (.call 10 (.upload ⟨1, 2, "invoice.pdf", "application/pdf", []⟩ 3))] ++ demoTx 10 ++
    [.outside (.step 10 (.text "1/3"))] ++ demoTx 10 ++ demoTx 10 ++
    [.outside (.step 10 .execute), .outside (.finish 10), .outside (.start 20 (.ocr 3 .initial) 21)] ++
    demoTx 20 ++ demoTx 20 ++ [.outside (.step 20 (.bytes [])), .outside (.step 20 (.ocr ⟨"text", 1⟩))] ++
    demoTx 20 ++ demoTx 20 ++
    [.outside (.step 20 .execute), .outside (.finish 20), .outside (.start 30 (.extraction 3 .initial) 31)] ++
    demoTx 30 ++ demoTx 30 ++ demoTx 30 ++ [.outside (.step 30 (.classification ⟨.unknown, 1⟩))] ++
    demoTx 30 ++ demoTx 30 ++ [.outside (.finish 30)]

/-- Two approvals have read the document, and the first has updated it. -/
def demoContention : List Action :=
  demoReview ++ [.outside (.call 40 (.approve 1 3 2)), .outside (.call 41 (.approve 1 3 2)), .begin 40, .begin 41,
    .statement 40, .statement 41, .statement 40]

def demoRace : List Action := demoContention ++ [.statement 40, .commit 40, .statement 41, .rollback 41]

def demo : State := initial [⟨1, "Acme", "acme", 85 / 100, some "https://acme.test/hook", some "secret"⟩]
  [⟨2, 1, "alice@acme.test", "hash", .admin⟩]

theorem reviews_consumed_once_race : ∃ c, run step demo demoRace = some c ∧ ConsumedOnce 3 demo demoRace c := by
  obtain ⟨c, hc⟩ := Option.isSome_iff_exists.1 (by decide +kernel : (run step demo demoRace).isSome = true)
  exact ⟨c, hc, reviews_consumed_once hc 3⟩

/-- The update of the second approval waits for the first to commit, and then finds nothing to approve. -/
example : (run step demo (demoContention ++ [.statement 41])).isNone ∧
    (run step demo demoRace).map (·.audited 3 .approved) = some 1 := by
  decide +kernel

end DocAuto.ReadCommitted
