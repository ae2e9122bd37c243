import DocAuto.Auth.Registration

/-! Registrations that race: slugs and emails stay distinct, every tenant has its one admin, and a
call that throws leaves nothing and says which of the two was taken. -/
namespace DocAuto.Registration
open Process Database Table

/-- The slug is held by a committed tenant when the insert of the tenant is answered. -/
def SlugHeld (c : Call) (transcript : List Resolved) : Prop :=
  ∃ y ∈ transcript, y.event.1 = .insertTenant c.tenantRow ∧ ∃ t ∈ y.committed.tenants, t.slug = c.input.tenantSlug

/-- The tenant is inserted, and the email is held by a committed user when the insert of the user
is answered. -/
def EmailHeld (c : Call) (transcript : List Resolved) : Prop :=
  (∃ y ∈ transcript, y.event = ⟨.insertTenant c.tenantRow, .ok [c.tenantRow]⟩) ∧
    ∃ y ∈ transcript, y.event.1 = .insertUser (c.userRow c.tenantId) ∧ ∃ u ∈ y.committed.users, u.email = c.input.email

/-- The error code tells what was taken. -/
def Explained (c : Call) (transcript : List Resolved) (r : Except Failure Result) : Prop :=
  c.fits → (r = .error slugTaken ↔ SlugHeld c transcript) ∧ (r = .error emailTaken ↔ EmailHeld c transcript)

/-- The rows of a call. -/
def Call.result (c : Call) : Result :=
  (⟨c.tenantId, c.input.tenantName, c.input.tenantSlug⟩, some ⟨c.userId, c.input.email, .admin⟩)

structure Registry (s : State) : Prop where
  slugs : (s.db.tenants.map (·.slug)).Nodup
  emails : (s.db.users.map (·.email)).Nodup
  /-- The one admin of a tenant comes from the call that created the tenant. -/
  admin : ∀ t ∈ s.db.tenants, ∃ id x, s.calls id = some x ∧ x.progress = .ended (.ok x.call.result) ∧ t = x.call.tenantRow ∧
    s.db.users.filter (fun u => u.role == .admin && u.tenantId == t.id) = [x.call.userRow t.id]
  /-- Tenants and users are committed in pairs. -/
  paired : s.db.tenants.map (·.id) = s.db.users.map (·.tenantId)
  thrown : ∀ id x e, s.calls id = some x → x.progress = .ended (.error e) →
    (∀ t ∈ s.db.tenants, t.id ≠ x.call.tenantId) ∧ ∀ u ∈ s.db.users, u.id ≠ x.call.userId ∧ u.tenantId ≠ x.call.tenantId
  explained : ∀ id x r, s.calls id = some x → x.progress = .ended r → Explained x.call x.transcript r

/-- The keys of the committed tenants and users. -/
def Occupied (db : Db) : RowKey → Prop
  | .tenant id => id ∈ db.tenants.map (·.id)
  | .slug slug => slug ∈ db.tenants.map (·.slug)
  | .user id => id ∈ db.users.map (·.id)
  | .email email => email ∈ db.users.map (·.email)
  | _ => False

section Statements
variable {c : Call} {db : Db} {key : RowKey}

theorem registerTx_call (c : Call) : ∃ k, registerTx c = .call (.insertTenant c.tenantRow) k ∧
    k (.ok [c.tenantRow]) = insertedTenant c c.tenantRow ∧ ∀ e, k (.error e) = .throw e :=
  ⟨_, rfl, rfl, fun _ => rfl⟩

theorem insertedTenant_call (c : Call) : ∃ k, insertedTenant c c.tenantRow = .call (.insertUser (c.userRow c.tenantId)) k ∧
    k (.ok [c.userRow c.tenantId]) = .ret c.result ∧
    ∀ e, k (.error e) = .throw (if isUniqueViolation e "users_email_unique" then emailTaken else e) := by
  refine ⟨_, rfl, rfl, fun e => ?_⟩
  change Program.bind (if isUniqueViolation e "users_email_unique" then .throw emailTaken else .throw e) _ = _
  split <;> rfl

/-- The answer of a statement on rows that it sees, and what it writes. -/
def Answers (c : Call) (q : Statement) (view : Db) (r : Except Failure q.Resp) (writes : List Write) : Prop :=
  (q.exec ⟨true, c.tenantId⟩ view).1 = r ∧ q.writes ⟨true, c.tenantId⟩ view = writes

/-- The insert of a tenant under a new id. -/
theorem insertTenant_answer (hid : ¬ Occupied db (.tenant c.tenantId)) :
    (Occupied db (.slug c.input.tenantSlug) ∧
        Answers c (.insertTenant c.tenantRow) db (.error (.uniqueViolation "tenants_slug_unique")) []) ∨
      ¬ Occupied db (.slug c.input.tenantSlug) ∧
        Answers c (.insertTenant c.tenantRow) db (.ok [c.tenantRow]) [.insertTenant c.tenantRow] := by
  have hadmits : (Session.mk true c.tenantId).admitsTenant c.tenantRow.id = true := beq_self_eq_true c.tenantId
  have hpkey : (db.tenants.any fun r => r.id == c.tenantRow.id) = false := by
    simpa [Occupied, Call.tenantRow] using hid
  by_cases hslug : Occupied db (.slug c.input.tenantSlug)
  · have htaken : (db.tenants.any fun r => r.slug == c.tenantRow.slug) = true := by
      simpa [Occupied, Call.tenantRow] using hslug
    have hexec : ((Statement.insertTenant c.tenantRow).exec ⟨true, c.tenantId⟩ db).1 =
        .error (.uniqueViolation "tenants_slug_unique") := by
      simp [Statement.exec, hadmits, hpkey, htaken]
    exact .inl ⟨hslug, hexec, congrArg (Statement.ifAdded · _) hexec⟩
  · have hfree : (db.tenants.any fun r => r.slug == c.tenantRow.slug) = false := by
      simpa [Occupied, Call.tenantRow] using hslug
    have hexec : ((Statement.insertTenant c.tenantRow).exec ⟨true, c.tenantId⟩ db).1 = .ok [c.tenantRow] := by
      simp [Statement.exec, hadmits, hpkey, hfree]
    exact .inr ⟨hslug, hexec, congrArg (Statement.ifAdded · _) hexec⟩

/-- The insert of the admin, which sees the tenant of its transaction. -/
theorem insertUser_answer (hid : ¬ Occupied db (.user c.userId)) :
    (Occupied db (.email c.input.email) ∧ Answers c (.insertUser (c.userRow c.tenantId))
        (applyAll db [.insertTenant c.tenantRow]) (.error (.uniqueViolation "users_email_unique")) []) ∨
      ¬ Occupied db (.email c.input.email) ∧ Answers c (.insertUser (c.userRow c.tenantId))
        (applyAll db [.insertTenant c.tenantRow]) (.ok [c.userRow c.tenantId]) [.insertUser (c.userRow c.tenantId)] := by
  have hview : applyAll db [.insertTenant c.tenantRow] = { db with tenants := db.tenants ++ [c.tenantRow] } := rfl
  rw [hview]
  have hadmits : (Session.mk true c.tenantId).admitsTenant (c.userRow c.tenantId).tenantId = true :=
    beq_self_eq_true c.tenantId
  have hpkey : (db.users.any fun r => r.id == (c.userRow c.tenantId).id) = false := by
    simpa [Occupied, Call.userRow] using hid
  have htenant : ((db.tenants ++ [c.tenantRow]).any fun r => r.id == (c.userRow c.tenantId).tenantId) = true := by
    simp [Call.userRow, Call.tenantRow]
  by_cases hemail : Occupied db (.email c.input.email)
  · have htaken : (db.users.any fun r => r.email == (c.userRow c.tenantId).email) = true := by
      simpa [Occupied, Call.userRow] using hemail
    have hexec : ((Statement.insertUser (c.userRow c.tenantId)).exec ⟨true, c.tenantId⟩
        { db with tenants := db.tenants ++ [c.tenantRow] }).1 = .error (.uniqueViolation "users_email_unique") := by
      simp [Statement.exec, hadmits, hpkey, htaken]
    exact .inl ⟨hemail, hexec, congrArg (Statement.ifAdded · _) hexec⟩
  · have hfree : (db.users.any fun r => r.email == (c.userRow c.tenantId).email) = false := by
      simpa [Occupied, Call.userRow] using hemail
    have hexec : ((Statement.insertUser (c.userRow c.tenantId)).exec ⟨true, c.tenantId⟩
        { db with tenants := db.tenants ++ [c.tenantRow] }).1 = .ok [c.userRow c.tenantId] := by
      simp only [Statement.exec, hadmits, hpkey, hfree, htenant, Bool.not_true, Bool.false_eq_true, if_false]
    exact .inr ⟨hemail, hexec, congrArg (Statement.ifAdded · _) hexec⟩

end Statements

/-- How far a call is, by what is left of its transaction. -/
inductive Stage (c : Call) : Progress → List Resolved → Prop
  | begun : Stage c (.opened (registerTx c) []) []
  | tenant {db} : ¬ Occupied db (.slug c.input.tenantSlug) →
    Stage c (.opened (insertedTenant c c.tenantRow) [.insertTenant c.tenantRow])
      [⟨⟨.insertTenant c.tenantRow, .ok [c.tenantRow]⟩, db⟩]
  | admin {db db'} : ¬ Occupied db (.slug c.input.tenantSlug) → ¬ Occupied db' (.email c.input.email) →
    Stage c (.opened (.ret c.result) [.insertTenant c.tenantRow, .insertUser (c.userRow c.tenantId)])
      [⟨⟨.insertUser (c.userRow c.tenantId), .ok [c.userRow c.tenantId]⟩, db'⟩,
        ⟨⟨.insertTenant c.tenantRow, .ok [c.tenantRow]⟩, db⟩]
  | failing {e writes transcript} : Explained c transcript (registerOutcome (.error e)) →
    Stage c (.opened (.throw e) writes) transcript
  | ended {r transcript} : Explained c transcript r → Stage c (.ended r) transcript

section Stages
variable {c : Call} {db db' : Db} {x : Activity} {e : Failure} {message : String} {transcript : List Resolved}

theorem slugHeld_iff {r : Except Failure (List TenantRow)} :
    SlugHeld c [⟨⟨.insertTenant c.tenantRow, r⟩, db⟩] ↔ Occupied db (.slug c.input.tenantSlug) := by
  simp [SlugHeld, Occupied]

theorem not_slugHeld_user {r : Except Failure (List UserRow)} {y : Resolved} :
    SlugHeld c [⟨⟨.insertUser (c.userRow c.tenantId), r⟩, db⟩, y] ↔ SlugHeld c [y] := by
  simp [SlugHeld]

theorem not_emailHeld {y : Resolved} (h : y.event.1 = .insertTenant c.tenantRow) : ¬ EmailHeld c [y] := by
  rintro ⟨-, z, hz, hz', -⟩
  rw [List.mem_singleton.1 hz, h] at hz'
  cases hz'

theorem emailHeld_iff {r : Except Failure (List UserRow)} :
    EmailHeld c [⟨⟨.insertUser (c.userRow c.tenantId), r⟩, db'⟩, ⟨⟨.insertTenant c.tenantRow, .ok [c.tenantRow]⟩, db⟩] ↔
      Occupied db' (.email c.input.email) := by
  simp [EmailHeld, Occupied]

theorem slugTaken_ne : slugTaken ≠ emailTaken := by decide

theorem outcome_slug : registerOutcome (.error (.uniqueViolation "tenants_slug_unique")) = .error slugTaken := by
  simp [registerOutcome, isUniqueViolation]

theorem outcome_email : registerOutcome (.error (if isUniqueViolation (.uniqueViolation "users_email_unique") "users_email_unique"
    then emailTaken else .uniqueViolation "users_email_unique")) = .error emailTaken := by
  simp [registerOutcome, isUniqueViolation, emailTaken]

/-- As long as nothing fails, nothing was taken. -/
theorem Stage.quiet {rest : Body Result} {writes : List Write} (h : Stage c (.opened rest writes) transcript)
    (hr : ∀ e, rest ≠ .throw e) : ¬ SlugHeld c transcript ∧ ¬ EmailHeld c transcript := by
  cases h with
  | begun => exact ⟨by rintro ⟨_, ⟨⟩, _⟩, by rintro ⟨⟨_, ⟨⟩, _⟩, _⟩⟩
  | tenant hslug => exact ⟨fun h => hslug (slugHeld_iff.1 h), not_emailHeld rfl⟩
  | admin hslug hemail =>
    exact ⟨fun h => hslug (slugHeld_iff.1 (not_slugHeld_user.1 h)), fun h => hemail (emailHeld_iff.1 h)⟩
  | failing => exact absurd rfl (hr _)

/-- An outcome without one of the two codes. -/
theorem Explained.other {r : Except Failure Result} (hslug : r ≠ .error slugTaken) (hemail : r ≠ .error emailTaken)
    (h : ¬ SlugHeld c transcript ∧ ¬ EmailHeld c transcript) : Explained c transcript r :=
  fun _ => ⟨iff_of_false hslug h.1, iff_of_false hemail h.2⟩

/-- The codes are about rows that fit their columns. -/
theorem Explained.unfit {r : Except Failure Result} (h : ¬ c.fits) : Explained c transcript r := fun hf => absurd hf h

theorem rows_fit (h : c.fits) : rowFits (.insertTenant c.tenantRow) ∧ rowFits (.insertUser (c.userRow c.tenantId)) := by
  unfold Call.fits at h
  exact Bool.and_eq_true_iff.1 h

/-- The next statement of a call, which is answered while `db` is committed. -/
theorem Stage.statement {rest : Body Result} {writes : List Write} {q : Statement} {k : Except Failure q.Resp → Body Result}
    (h : Stage c (.opened rest writes) transcript) (hr : rest = .call q k)
    (hids : ¬ Occupied db (.tenant c.tenantId) ∧ ¬ Occupied db (.user c.userId)) :
    (¬ rowFits q → Stage c (.opened (k (.error tooLong)) writes) (⟨⟨q, .error tooLong⟩, db⟩ :: transcript)) ∧
      ∃ r added, Answers c q (applyAll db writes) r added ∧
        Stage c (.opened (k r) (writes ++ added)) (⟨⟨q, r⟩, db⟩ :: transcript) ∧
        ∀ w ∈ added, ∀ key ∈ w.keys, ¬ Occupied db key := by
  cases h with
  | begun =>
    obtain ⟨k', hk, hok, herr⟩ := registerTx_call c
    rw [hk] at hr
    cases hr
    refine ⟨fun hfits => ?_, ?_⟩
    · rw [herr]
      exact .failing (.unfit fun h => hfits (rows_fit h).1)
    · rcases insertTenant_answer hids.1 with ⟨hslug, hanswer⟩ | ⟨hslug, hanswer⟩
      · refine ⟨_, _, hanswer, herr _ ▸ .failing fun _ => ?_, fun w hw => absurd hw List.not_mem_nil⟩
        rw [outcome_slug]
        exact ⟨iff_of_true rfl (slugHeld_iff.2 hslug),
          iff_of_false (fun h => slugTaken_ne (Except.error.inj h)) (not_emailHeld rfl)⟩
      · refine ⟨_, _, hanswer, hok ▸ .tenant hslug, fun w hw key hkey => ?_⟩
        obtain rfl := List.mem_singleton.1 hw
        rcases List.mem_pair.1 hkey with rfl | rfl
        · exact hids.1
        · exact hslug
  | @tenant db₀ hslug =>
    obtain ⟨k', hk, hok, herr⟩ := insertedTenant_call c
    rw [hk] at hr
    cases hr
    refine ⟨fun hfits => ?_, ?_⟩
    · rw [herr]
      exact .failing (.unfit fun h => hfits (rows_fit h).2)
    · rcases insertUser_answer hids.2 with ⟨hemail, hanswer⟩ | ⟨hemail, hanswer⟩
      · refine ⟨_, _, hanswer, herr _ ▸ .failing fun _ => ?_, fun w hw => absurd hw List.not_mem_nil⟩
        rw [outcome_email]
        exact ⟨iff_of_false (fun h => slugTaken_ne (Except.error.inj h).symm) fun h =>
          hslug (slugHeld_iff.1 (not_slugHeld_user.1 h)), iff_of_true rfl (emailHeld_iff.2 hemail)⟩
      · refine ⟨_, _, hanswer, hok ▸ .admin hslug hemail, fun w hw key hkey => ?_⟩
        obtain rfl := List.mem_singleton.1 hw
        rcases List.mem_pair.1 hkey with rfl | rfl
        · exact hids.2
        · exact hemail
  | admin => cases hr
  | failing => cases hr

/-- A transaction returns after both inserts. -/
theorem Stage.returned {rest : Body Result} {writes : List Write} {result : Result}
    (h : Stage c (.opened rest writes) transcript) (hr : rest = .ret result) : result = c.result ∧
      writes = [.insertTenant c.tenantRow, .insertUser (c.userRow c.tenantId)] ∧ Explained c transcript (.ok c.result) := by
  have hquiet := h.quiet (by rw [hr]; exact nofun)
  cases h with
  | begun =>
    obtain ⟨k, hk, -⟩ := registerTx_call c
    cases hk.symm.trans hr
  | tenant =>
    obtain ⟨k, hk, -⟩ := insertedTenant_call c
    cases hk.symm.trans hr
  | admin =>
    obtain rfl := Program.ret.inj hr
    exact ⟨rfl, rfl, .other nofun nofun hquiet⟩
  | failing => cases hr

theorem Stage.thrown {rest : Body Result} {writes : List Write} (h : Stage c (.opened rest writes) transcript)
    (hr : rest = .throw e) : Explained c transcript (registerOutcome (.error e)) := by
  cases h with
  | begun =>
    obtain ⟨k, hk, -⟩ := registerTx_call c
    cases hk.symm.trans hr
  | tenant =>
    obtain ⟨k, hk, -⟩ := insertedTenant_call c
    cases hk.symm.trans hr
  | admin => cases hr
  | failing hs =>
    obtain rfl := Program.throw.inj hr
    exact hs

end Stages

/-- The steps, by what they do to the state. -/
inductive Move (s : State) : State → Prop
  | start {id call} : s.calls id = none → call.tenantId ∉ s.drawn → call.userId ∉ s.drawn →
    Move s { s with
      calls := Function.update s.calls id (some ⟨call, .opened (registerTx call) [], []⟩)
      drawn := call.tenantId :: call.userId :: s.drawn }
  | unfit {id x q k writes} : s.calls id = some x → x.progress = .opened (.call q k) writes → ¬ rowFits q →
    Move s (s.answer id x writes q (.error tooLong) (k (.error tooLong)) [])
  | answer {id x q k writes r added} : s.calls id = some x → x.progress = .opened (.call q k) writes →
    Answers x.call q (applyAll s.db writes) r added → s.free id (added.flatMap Write.keys) →
    Move s (s.answer id x writes q r (k r) added)
  | commit {id x result writes} : s.calls id = some x → x.progress = .opened (.ret result) writes →
    Move s (s.finish id x (.ok result) (applyAll s.db writes))
  | rollback {id x e writes} : s.calls id = some x → x.progress = .opened (.throw e) writes →
    Move s (s.finish id x (.error e) s.db)
  | abort {id x rest writes message} : s.calls id = some x → x.progress = .opened rest writes → (∀ e, rest ≠ .throw e) →
    Move s (s.finish id x (.error (.other message)) s.db)

theorem step_move {s s' : State} {a : Action} (h : step s a = some s') : Move s s' := by
  cases a with
  | start id call =>
    simp only [step, Option.ite_none_right_eq_some, Option.some.injEq, Option.isNone_iff_eq_none] at h
    obtain ⟨⟨hid, htenant, huser⟩, rfl⟩ := h
    exact .start hid htenant huser
  | statement id =>
    simp only [step] at h
    split at h
    · next x hx =>
      split at h
      · next q k writes hp =>
        split at h
        · next hfits => exact Option.some.inj h ▸ .unfit hx hp (by simpa using hfits)
        · simp only [Option.ite_none_right_eq_some, Option.some.injEq] at h
          obtain ⟨hfree, rfl⟩ := h
          refine .answer hx hp ⟨rfl, rfl⟩ ?_
          unfold State.free at hfree ⊢
          unfold Statement.touches at hfree
          rw [List.all_append] at hfree
          exact (Bool.and_eq_true_iff.1 hfree).1
      · cases h
    · cases h
  | commit id =>
    simp only [step] at h
    split at h
    · next x hx =>
      split at h
      · next hp => exact Option.some.inj h ▸ .commit hx hp
      · cases h
    · cases h
  | rollback id =>
    simp only [step] at h
    split at h
    · next x hx =>
      split at h
      · next hp => exact Option.some.inj h ▸ .rollback hx hp
      · cases h
    · cases h
  | abort id message =>
    simp only [step] at h
    split at h
    · next x hx =>
      split at h
      · cases h
      · cases h
      · next hthrow hended =>
        rcases hp : x.progress with ⟨rest, writes⟩ | r
        · exact Option.some.inj h ▸ .abort hx hp fun e he => hthrow e writes (he ▸ hp)
        · exact absurd hp (hended r)
    · cases h

/-- The call of an id, however far it is. -/
def State.call (s : State) (id : CallId) : Option Call := (s.calls id).map (·.call)

/-- No two calls have drawn the same UUID. -/
structure Idents (s : State) : Prop where
  drawn : ∀ id c, s.call id = some c → c.tenantId ∈ s.drawn ∧ c.userId ∈ s.drawn
  tenant : ∀ i j c d, s.call i = some c → s.call j = some d → c.tenantId = d.tenantId → i = j
  user : ∀ i j c d, s.call i = some c → s.call j = some d → c.userId = d.userId → i = j

/-- The call has committed its rows. -/
def Committed (s : State) (c : Call) : Prop :=
  ∃ id x, s.calls id = some x ∧ x.call = c ∧ x.progress = .ended (.ok c.result)

structure Inv (s : State) : Prop where
  stage : ∀ id x, s.calls id = some x → Stage x.call x.progress x.transcript
  held : ∀ id x, s.calls id = some x → ∀ key ∈ x.writes.flatMap Write.keys, s.locks key = some id ∧ ¬ Occupied s.db key
  rows : ∃ cs : List Call, s.db.tenants = cs.map Call.tenantRow ∧ s.db.users = cs.map (fun c => c.userRow c.tenantId) ∧
    ∀ c ∈ cs, Committed s c
  tenants : Keyed TenantRow.id s.db.tenants
  slugs : Keyed TenantRow.slug s.db.tenants
  emails : Keyed UserRow.email s.db.users
  idents : Idents s

section Steps
variable {s s' : State} {id : CallId} {x : Activity} {y : Activity} {rest : Body Result} {writes : List Write} {db : Db}
  {r : Except Failure Result}

theorem Idents.congr (h : Idents s) (hc : s'.call = s.call) (hd : s'.drawn = s.drawn) : Idents s' := by
  refine ⟨fun id c => ?_, fun i j c d => ?_, fun i j c d => ?_⟩ <;> rw [hc]
  · rw [hd]
    exact h.drawn id c
  · exact h.tenant i j c d
  · exact h.user i j c d

/-- A call begins under UUIDs of its own. -/
theorem Idents.start {call : Call} (h : Idents s) (htenant : call.tenantId ∉ s.drawn) (huser : call.userId ∉ s.drawn)
    (hcall : ∀ j c, s'.call j = some c → j = id ∧ c = call ∨ s.call j = some c)
    (hd : s'.drawn = call.tenantId :: call.userId :: s.drawn) : Idents s' := by
  have apart : ∀ f : Call → Uuid, f call ∉ s.drawn → (∀ j c, s.call j = some c → f c ∈ s.drawn) →
      (∀ i j c d, s.call i = some c → s.call j = some d → f c = f d → i = j) →
      ∀ i j c d, s'.call i = some c → s'.call j = some d → f c = f d → i = j := by
    intro f hnew hdrawn hf i j c d hi hj he
    rcases hcall i c hi with ⟨rfl, rfl⟩ | hi <;> rcases hcall j d hj with ⟨rfl, rfl⟩ | hj
    · rfl
    · exact absurd (he ▸ hdrawn j d hj) hnew
    · exact absurd (he ▸ hdrawn i c hi) hnew
    · exact hf i j c d hi hj he
  refine ⟨fun j c hj => ?_, apart Call.tenantId htenant (fun j c hj => (h.drawn j c hj).1) h.tenant,
    apart Call.userId huser (fun j c hj => (h.drawn j c hj).2) h.user⟩
  rw [hd]
  rcases hcall j c hj with ⟨-, rfl⟩ | hj
  · exact ⟨.head _, .tail _ (.head _)⟩
  · exact ⟨.tail _ (.tail _ (h.drawn j c hj).1), .tail _ (.tail _ (h.drawn j c hj).2)⟩

theorem updated {calls : CallId → Option Activity} {j : CallId} {z : Activity}
    (h : Function.update calls id (some y) j = some z) : j = id ∧ z = y ∨ j ≠ id ∧ calls j = some z := by
  by_cases hj : j = id
  · subst hj
    rw [Function.update_self] at h
    exact .inl ⟨rfl, (Option.some.inj h).symm⟩
  · rw [Function.update_of_ne hj] at h
    exact .inr ⟨hj, h⟩

/-- A step of a call leaves the calls. -/
theorem Inv.stage_update (hi : Inv s) (hy : Stage y.call y.progress y.transcript) {j : CallId} {z : Activity}
    (hz : Function.update s.calls id (some y) j = some z) : Stage z.call z.progress z.transcript := by
  rcases updated hz with ⟨rfl, rfl⟩ | ⟨-, hz⟩
  · exact hy
  · exact hi.stage j z hz

theorem call_update (hx : s.calls id = some x) (hc : s'.calls = Function.update s.calls id (some y)) (hy : y.call = x.call) :
    s'.call = s.call := by
  funext j
  unfold State.call
  by_cases hj : j = id
  · rw [hc, hj, Function.update_self, hx, Option.map_some, Option.map_some, hy]
  · rw [hc, Function.update_of_ne hj]

/-- The rows of a call are not there before it commits. -/
theorem Inv.absent (hi : Inv s) (hx : s.calls id = some x) (h : x.progress ≠ .ended (.ok x.call.result)) :
    (∀ t ∈ s.db.tenants, t.id ≠ x.call.tenantId) ∧ ∀ u ∈ s.db.users, u.id ≠ x.call.userId ∧ u.tenantId ≠ x.call.tenantId := by
  obtain ⟨cs, htenants, husers, hcommitted⟩ := hi.rows
  have hcall : ∀ {i y}, s.calls i = some y → s.call i = some y.call := fun hy => congrArg (Option.map _) hy
  -- the call that committed a row with one of the ids is the call itself
  have hother : ∀ c ∈ cs, c.tenantId ≠ x.call.tenantId ∧ c.userId ≠ x.call.userId := by
    intro c hc
    obtain ⟨j, y, hy, rfl, hended⟩ := hcommitted c hc
    have hne : j ≠ id := by
      rintro rfl
      obtain rfl := Option.some.inj (hy.symm.trans hx)
      exact h hended
    exact ⟨fun he => hne (hi.idents.tenant j id _ _ (hcall hy) (hcall hx) he),
      fun he => hne (hi.idents.user j id _ _ (hcall hy) (hcall hx) he)⟩
  constructor
  · intro t ht
    rw [htenants] at ht
    obtain ⟨c, hc, rfl⟩ := List.mem_map.1 ht
    exact (hother c hc).1
  · intro u hu
    rw [husers] at hu
    obtain ⟨c, hc, rfl⟩ := List.mem_map.1 hu
    exact ⟨(hother c hc).2, (hother c hc).1⟩

theorem Inv.unused (hi : Inv s) (hx : s.calls id = some x) (hp : x.progress = .opened rest writes) :
    ¬ Occupied s.db (.tenant x.call.tenantId) ∧ ¬ Occupied s.db (.user x.call.userId) := by
  obtain ⟨htenants, husers⟩ := hi.absent hx (by rw [hp]; exact nofun)
  constructor
  · intro h
    obtain ⟨t, ht, he⟩ := List.mem_map.1 h
    exact htenants t ht he
  · intro h
    obtain ⟨u, hu, he⟩ := List.mem_map.1 h
    exact (husers u hu).1 he

/-- A committed call stays one. -/
theorem Committed.update {c : Call} (h : Committed s c) (hx : s.calls id = some x) (hp : x.progress = .opened rest writes)
    (hc : s'.calls = Function.update s.calls id (some y)) : Committed s' c := by
  obtain ⟨j, z, hz, hcall, hended⟩ := h
  refine ⟨j, z, ?_, hcall, hended⟩
  have hj : j ≠ id := by
    rintro rfl
    obtain rfl := Option.some.inj (hz.symm.trans hx)
    cases hp.symm.trans hended
  rw [hc, Function.update_of_ne hj, hz]

/-- A transaction in progress has a statement answered. -/
theorem Inv.answer {q : Statement} {a : Except Failure q.Resp} {added : List Write} (hi : Inv s) (hx : s.calls id = some x)
    (hp : x.progress = .opened rest writes) {next : Body Result}
    (hs : Stage x.call (.opened next (writes ++ added)) (⟨⟨q, a⟩, s.db⟩ :: x.transcript))
    (hfree : s.free id (added.flatMap Write.keys)) (hnew : ∀ key ∈ added.flatMap Write.keys, ¬ Occupied s.db key) :
    Inv (s.answer id x writes q a next added) := by
  obtain ⟨cs, htenants, husers, hcommitted⟩ := hi.rows
  have hlock : ∀ key ∈ added.flatMap Write.keys, ∀ j, s.locks key = some j → j = id := by
    intro key hkey j hj
    have := List.all_eq_true.1 hfree key hkey
    rw [hj] at this
    simpa using this
  refine ⟨fun j z hz => hi.stage_update hs hz, ?_, ⟨cs, htenants, husers, fun c hc => (hcommitted c hc).update hx hp rfl⟩,
    hi.tenants, hi.slugs, hi.emails, hi.idents.congr (call_update hx rfl rfl) rfl⟩
  intro j z hz key hkey
  rcases updated hz with ⟨rfl, rfl⟩ | ⟨hj, hz⟩
  · have hkey : key ∈ (writes ++ added).flatMap Write.keys := hkey
    rw [List.flatMap_append, List.mem_append] at hkey
    by_cases hin : key ∈ added.flatMap Write.keys
    · exact ⟨if_pos hin, hnew key hin⟩
    · have hold := hi.held j x hx key (by rw [Activity.writes, hp]; exact hkey.resolve_right hin)
      exact ⟨(if_neg hin).trans hold.1, hold.2⟩
  · obtain ⟨hl, ho⟩ := hi.held j z hz key hkey
    exact ⟨(if_neg fun hin => hj (hlock key hin j hl)).trans hl, ho⟩

/-- The keys of a call in progress are locked for it alone. -/
theorem Inv.exclusive (hi : Inv s) (hx : s.calls id = some x) {j : CallId} (hy : s.calls j = some y) (hj : j ≠ id) {key : RowKey}
    (hkey : key ∈ y.writes.flatMap Write.keys) : key ∉ x.writes.flatMap Write.keys ∧ s.locks key ≠ some id := by
  have hl := (hi.held j y hy key hkey).1
  have hne : s.locks key ≠ some id := by
    rw [hl]
    exact fun he => hj (Option.some.inj he)
  exact ⟨fun hin => hne (hi.held id x hx key hin).1, hne⟩

/-- The keys of the other calls are not touched when a call ends. -/
theorem Inv.held_finish (hi : Inv s) (hx : s.calls id = some x)
    (hnew : ∀ key, Occupied db key → Occupied s.db key ∨ key ∈ x.writes.flatMap Write.keys) (j : CallId) (z : Activity)
    (hz : (s.finish id x r db).calls j = some z) :
    ∀ key ∈ z.writes.flatMap Write.keys, (s.finish id x r db).locks key = some j ∧ ¬ Occupied db key := by
  intro key hkey
  rcases updated hz with ⟨rfl, rfl⟩ | ⟨hj, hz⟩
  · exact absurd hkey List.not_mem_nil
  · obtain ⟨hl, ho⟩ := hi.held j z hz key hkey
    obtain ⟨hown, hne⟩ := hi.exclusive hx hz hj hkey
    exact ⟨(if_neg hne).trans hl, fun h => (hnew key h).elim ho hown⟩

/-- A call ends whose rows are kept out. -/
theorem Inv.dropped {e : Failure} (hi : Inv s) (hx : s.calls id = some x) (hp : x.progress = .opened rest writes)
    (hs : Explained x.call x.transcript (registerOutcome (.error e))) : Inv (s.finish id x (.error e) s.db) := by
  obtain ⟨cs, htenants, husers, hcommitted⟩ := hi.rows
  exact ⟨fun j z hz => hi.stage_update (.ended hs) hz, hi.held_finish hx fun key h => .inl h,
    ⟨cs, htenants, husers, fun c hc => (hcommitted c hc).update hx hp rfl⟩, hi.tenants, hi.slugs, hi.emails,
    hi.idents.congr (call_update hx rfl rfl) rfl⟩

/-- The keys that a commit occupies. -/
theorem occupied_commit {c : Call} {key : RowKey}
    (h : Occupied (applyAll db [.insertTenant c.tenantRow, .insertUser (c.userRow c.tenantId)]) key) :
    Occupied db key ∨ key ∈ [RowKey.tenant c.tenantId, .slug c.input.tenantSlug, .user c.userId, .email c.input.email] := by
  have hdb : applyAll db [.insertTenant c.tenantRow, .insertUser (c.userRow c.tenantId)] =
    { db with tenants := db.tenants ++ [c.tenantRow], users := db.users ++ [c.userRow c.tenantId] } := rfl
  rw [hdb] at h
  cases key <;> simp only [Occupied, List.map_append, List.map_singleton, List.mem_append, List.mem_singleton] at h
  · exact h.imp_right fun he => by simp [he, Call.tenantRow]
  · exact h.imp_right fun he => by simp [he, Call.tenantRow]
  · exact h.imp_right fun he => by simp [he, Call.userRow]
  · exact h.imp_right fun he => by simp [he, Call.userRow]

/-- The rows of a call are committed together. -/
theorem Inv.committed (hi : Inv s) (hx : s.calls id = some x)
    (hp : x.progress = .opened (.ret x.call.result) [.insertTenant x.call.tenantRow, .insertUser (x.call.userRow x.call.tenantId)])
    (hs : Explained x.call x.transcript (.ok x.call.result)) :
    Inv (s.finish id x (.ok x.call.result)
      (applyAll s.db [.insertTenant x.call.tenantRow, .insertUser (x.call.userRow x.call.tenantId)])) := by
  obtain ⟨cs, htenants, husers, hcommitted⟩ := hi.rows
  have hown : x.writes.flatMap Write.keys = [.tenant x.call.tenantId, .slug x.call.input.tenantSlug, .user x.call.userId,
      .email x.call.input.email] := by
    rw [Activity.writes, hp]
    rfl
  have hfree : ∀ key ∈ [RowKey.tenant x.call.tenantId, .slug x.call.input.tenantSlug, .email x.call.input.email],
      ¬ Occupied s.db key := by
    intro key hkey
    refine (hi.held id x hx key ?_).2
    rw [hown]
    simp only [List.mem_cons, List.not_mem_nil, or_false] at hkey ⊢
    tauto
  refine ⟨fun j z hz => hi.stage_update (.ended hs) hz, hi.held_finish hx fun key h => hown ▸ occupied_commit h,
    ⟨cs ++ [x.call], ?_, ?_, ?_⟩, ?_, ?_, ?_, hi.idents.congr (call_update hx rfl rfl) rfl⟩
  · rw [List.map_append, ← htenants]
    rfl
  · rw [List.map_append, ← husers]
    rfl
  · intro c hc
    rcases List.mem_append.1 hc with hc | hc
    · exact (hcommitted c hc).update hx hp rfl
    · obtain rfl := List.mem_singleton.1 hc
      exact ⟨id, _, Function.update_self .., rfl, rfl⟩
  · exact hi.tenants.concat (lookup_eq_none.2 fun t ht he => hfree _ (.head _) (List.mem_map.2 ⟨t, ht, he⟩))
  · exact hi.slugs.concat (lookup_eq_none.2 fun t ht he => hfree _ (.tail _ (.head _)) (List.mem_map.2 ⟨t, ht, he⟩))
  · exact hi.emails.concat (lookup_eq_none.2 fun u hu he => hfree _ (.tail _ (.tail _ (.head _))) (List.mem_map.2 ⟨u, hu, he⟩))

theorem Inv.start {call : Call} (hi : Inv s) (hid : s.calls id = none) (htenant : call.tenantId ∉ s.drawn)
    (huser : call.userId ∉ s.drawn) (hc : s'.calls = Function.update s.calls id (some ⟨call, .opened (registerTx call) [], []⟩))
    (hdb : s'.db = s.db) (hl : s'.locks = s.locks) (hd : s'.drawn = call.tenantId :: call.userId :: s.drawn) : Inv s' := by
  have hcall : ∀ j c, s'.call j = some c → j = id ∧ c = call ∨ s.call j = some c := by
    intro j c hj
    unfold State.call at hj
    rw [hc] at hj
    obtain ⟨z, hz, rfl⟩ := Option.map_eq_some_iff.1 hj
    rcases updated hz with ⟨rfl, rfl⟩ | ⟨-, hz⟩
    · exact .inl ⟨rfl, rfl⟩
    · exact .inr (congrArg (Option.map _) hz)
  obtain ⟨cs, htenants, husers, hcommitted⟩ := hi.rows
  refine ⟨?_, ?_, ⟨cs, hdb ▸ htenants, hdb ▸ husers, ?_⟩, hdb ▸ hi.tenants, hdb ▸ hi.slugs, hdb ▸ hi.emails,
    hi.idents.start htenant huser hcall hd⟩
  · intro j z hz
    rw [hc] at hz
    exact hi.stage_update .begun hz
  · intro j z hz key hkey
    rw [hc] at hz
    rw [hl, hdb]
    rcases updated hz with ⟨rfl, rfl⟩ | ⟨-, hz⟩
    · exact absurd hkey List.not_mem_nil
    · exact hi.held j z hz key hkey
  · intro c hin
    obtain ⟨j, z, hz, hrest⟩ := hcommitted c hin
    have hj : j ≠ id := fun he => by cases hz.symm.trans (he ▸ hid)
    exact ⟨j, z, by rw [hc, Function.update_of_ne hj, hz], hrest⟩

theorem step_inv {a : Action} (hi : Inv s) (h : step s a = some s') : Inv s' := by
  have hstage : ∀ {id x rest writes}, s.calls id = some x → x.progress = .opened rest writes →
      Stage x.call (.opened rest writes) x.transcript := fun hx hp => hp ▸ hi.stage _ _ hx
  cases step_move h with
  | start hid htenant huser => exact hi.start hid htenant huser rfl rfl rfl rfl
  | unfit hx hp hfits =>
    obtain ⟨hnext, -⟩ := (hstage hx hp).statement rfl (hi.unused hx hp)
    exact hi.answer hx hp (by rw [List.append_nil]; exact hnext hfits) rfl fun _ hk => absurd hk List.not_mem_nil
  | answer hx hp ha hfree =>
    obtain ⟨-, r, added, hanswer, hnext, hnew⟩ := (hstage hx hp).statement rfl (hi.unused hx hp)
    obtain ⟨rfl, rfl⟩ : _ = r ∧ _ = added := ⟨ha.1.symm.trans hanswer.1, ha.2.symm.trans hanswer.2⟩
    refine hi.answer hx hp hnext hfree fun key hk => ?_
    obtain ⟨w, hw, hk⟩ := List.mem_flatMap.1 hk
    exact hnew w hw key hk
  | commit hx hp =>
    obtain ⟨rfl, rfl, hs⟩ := (hstage hx hp).returned rfl
    exact hi.committed hx hp hs
  | rollback hx hp => exact hi.dropped hx hp ((hstage hx hp).thrown rfl)
  | abort hx hp hr => exact hi.dropped hx hp (.other nofun nofun ((hstage hx hp).quiet hr))

theorem initial_inv : Inv initial where
  stage _ _ h := by cases h
  held _ _ h := by cases h
  rows := ⟨[], rfl, rfl, fun _ h => absurd h List.not_mem_nil⟩
  tenants := List.nodup_nil
  slugs := List.nodup_nil
  emails := List.nodup_nil
  idents := by
    refine ⟨fun id c h => ?_, fun i j c d h => ?_, fun i j c d h => ?_⟩
    · cases h
    · cases h
    · cases h

theorem Inv.registry (hi : Inv s) : Registry s := by
  obtain ⟨cs, htenants, husers, hcommitted⟩ := hi.rows
  have hpaired : s.db.tenants.map (·.id) = s.db.users.map (·.tenantId) := by
    rw [htenants, husers, List.map_map, List.map_map]
    rfl
  have hkeyed : Keyed UserRow.tenantId s.db.users := Eq.subst (motive := List.Nodup) hpaired hi.tenants
  refine ⟨hi.slugs, hi.emails, fun t ht => ?_, hpaired, fun id x e hx hp => ?_, fun id x r hx hp => ?_⟩
  · rw [htenants] at ht
    obtain ⟨c, hc, rfl⟩ := List.mem_map.1 ht
    obtain ⟨id, x, hx, rfl, hended⟩ := hcommitted c hc
    have huser : x.call.userRow x.call.tenantId ∈ s.db.users := husers ▸ List.mem_map.2 ⟨x.call, hc, rfl⟩
    refine ⟨id, x, hx, hended, rfl, (filter_key hkeyed _).trans ?_⟩
    rw [show x.call.tenantRow.id = (x.call.userRow x.call.tenantId).tenantId from rfl, lookup_of_mem hkeyed huser]
    rfl
  · exact hi.absent hx (by rw [hp]; exact nofun)
  · have hs := hi.stage id x hx
    rw [hp] at hs
    cases hs with
    | ended hs => exact hs

end Steps

/-- Registrations in any order: distinct slugs and emails, one admin for each tenant, no rows of a
call that throws, and the code that says what was taken. -/
theorem registration_unique (actions : List Action) (s : State) (h : run step initial actions = some s) : Registry s :=
  (run_inductive (fun _ _ _ hi hs => step_inv hi hs) initial_inv h).registry

section Demo

private def acme (name email : String) (n : Uuid) : Call := ⟨⟨name, "acme", email, "correct horse"⟩, "$2b$12$hash", n, n + 1⟩

/-- Two calls race for a slug; the second waits, and fails when the first has committed. A third
call has a slug of its own and the email of the first. -/
private def race : List Action :=
  [.start 1 (acme "Acme" "alice@acme.test" 10), .start 2 (acme "Another" "bob@acme.test" 20), .statement 1, .statement 1,
    .commit 1, .statement 2, .rollback 2,
    .start 3 ⟨⟨"Other", "other", "alice@acme.test", "correct horse"⟩, "$2b$12$hash", 30, 31⟩, .statement 3, .statement 3, .rollback 3]

theorem registration_unique_race : ∃ s, run step initial race = some s ∧ Registry s ∧ s.db.tenants.map (·.id) = [10] := by
  have hrun : (run step initial race).map (fun s => s.db.tenants.map (·.id)) = some [10] := by decide +kernel
  obtain ⟨s, hs, htenants⟩ := Option.map_eq_some_iff.1 hrun
  exact ⟨s, hs, registration_unique race s hs, htenants⟩

end Demo
end DocAuto.Registration
