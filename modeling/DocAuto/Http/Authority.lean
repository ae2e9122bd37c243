import DocAuto.Http.Server

/-! Who stands behind what the API has done. -/
namespace DocAuto
open Process

private theorem update_some {β : Type} {f : Nat → Option β} {i id : Nat} {b b' : β}
    (h : Function.update f id (some b) i = some b') : i = id ∧ b = b' ∨ i ≠ id ∧ f i = some b' := by
  by_cases hi : i = id
  · subst hi
    rw [Function.update_self] at h
    exact .inl ⟨rfl, Option.some.inj h⟩
  · rw [Function.update_of_ne hi] at h
    exact .inr ⟨hi, h⟩

namespace Auth.Sessions
variable {s s' : State} {a : Action}

/-- A finished login or refresh has handed out the access token. -/
def Granted (s : State) (access : AccessToken) : Prop :=
  ∃ id call tokenId, s.calls id = some (call, .ret (some (access, tokenId)))

/-- Every login, finished or not, is that of a user of whom `P` holds. -/
structure Entered (P : RefreshTokenData → Prop) (s : State) : Prop where
  calls : ∀ id user p, s.calls id = some (.login user, p) → P user
  logins : ∀ login ∈ s.logins, P login.2

theorem Entered.mono {P Q : RefreshTokenData → Prop} (h : Entered P s) (hPQ : ∀ user, P user → Q user) : Entered Q s :=
  ⟨fun id user p hp => hPQ user (h.calls id user p hp), fun login hl => hPQ _ (h.logins login hl)⟩

theorem step_entered {P : RefreshTokenData → Prop} (he : Entered P s) (hcall : ∀ id user, a = .call id (.login user) → P user)
    (h : step s a = some s') : Entered P s' := by
  cases a with
  | call id call =>
    simp only [step] at h
    split at h
    · cases h
    · obtain rfl := Option.some.inj h
      refine ⟨fun i user p hp => ?_, he.logins⟩
      rcases update_some hp with ⟨rfl, hq⟩ | ⟨-, hq⟩
      · obtain ⟨rfl, -⟩ := Prod.mk.inj hq
        exact hcall i user rfl
      · exact he.calls i user p hq
  | step id draw =>
    obtain ⟨call, c, k, r, s₁, hc, -, hcalls, -, hlogins, -, -⟩ := step_cases h
    refine ⟨fun i user p hp => ?_, fun login hl => ?_⟩
    · rw [hcalls] at hp
      rcases update_some hp with ⟨rfl, hq⟩ | ⟨-, hq⟩
      · obtain ⟨rfl, -⟩ := Prod.mk.inj hq
        exact he.calls i user _ hc
      · exact he.calls i user p hq
    · rw [hlogins] at hl
      rcases List.mem_append.1 hl with hl | hl
      · unfold loggedIn at hl
        split at hl
        · obtain rfl := List.mem_singleton.1 hl
          exact he.calls id _ _ hc
        · cases hl
      · exact he.logins login hl
  | expire tokenId =>
    obtain rfl := Option.some.inj h
    exact ⟨he.calls, he.logins⟩

/-- The claims of an access token are those of a user who has logged in. -/
theorem Entered.granted {P : RefreshTokenData → Prop} (he : Entered P s) (hi : Inv s) {access : AccessToken}
    (hg : Granted s access) : ∃ user, P user ∧ access = signAccessToken user := by
  obtain ⟨id, call, tokenId, hc⟩ := hg
  have hdescends : ∀ user, Descends s tokenId user → P user := by
    rintro user ⟨first, -, hl⟩
    exact he.logins _ hl
  cases hi.progress id call _ hc with
  | minted hnew => exact ⟨_, hdescends _ hnew, rfl⟩
  | rotated _ hnew => exact ⟨_, hdescends _ hnew, rfl⟩

end Auth.Sessions

namespace Pipeline
open Database
variable {c c' : Config} {a : Action}

/-- The process of a call was there, or the call begins. -/
theorem caller_origin (h : step c a = some c') {i : ProcId} {p' : Activity} {call : ApiCall} (hp' : c'.procs i = some p')
    (ho : p'.owner = .api call) : (∃ p, c.procs i = some p ∧ p.owner = .api call) ∨ a = .call i call := by
  by_cases hi : a.actor = some i
  swap
  · exact .inl ⟨p', (step_procs h hi).symm.trans hp', ho⟩
  cases step_turn h with
  | @call id call' hfresh =>
    obtain rfl := Option.some.inj hi
    obtain rfl : ⟨.api call', call'.program, []⟩ = p' := by simpa [Config.spawn] using hp'
    obtain rfl := Owner.api.inj ho
    exact .inr rfl
  | @start id jobId draw job hj hst hfresh =>
    obtain rfl := Option.some.inj hi
    obtain rfl : (⟨.job jobId job.data, processor jobId job.data draw, []⟩ : Activity) = p' := by
      simpa [Config.spawn] using hp'
    cases ho
  | @step id answer p cmd next r w hp hc he =>
    obtain rfl := Option.some.inj hi
    obtain rfl : { p with program := next r, transcript := ⟨cmd, r⟩ :: p.transcript } = p' := by simpa using hp'
    exact .inl ⟨p, hp, ho⟩
  | finish _ _ | crash _ =>
    obtain rfl := Option.some.inj hi
    simp [Config.kill] at hp'
  | stall _ _ | evict _ _ | tick => cases hi

end Pipeline

namespace Http
open Json Auth Pipeline

/-- An access token that verifies has been handed out. -/
def Unforged (A : App) (s : State) (a : Action) (_ : State) : Prop :=
  ∀ id route req draws token user, a = .request id route req draws → bearer req = some token →
    A.verifyAccessToken s.db.now token = .ok user → Sessions.Granted s.sessions user

/-- The user is on record, and the email and the password have come in with one of the logins `S`. -/
structure Authenticated (A : App) (S : State → Action → Prop) (db : Db) (user : RefreshTokenData) : Prop where
  onRecord : ∃ row ∈ db.users, row.id = user.userId ∧ row.tenantId = user.tenantId ∧ row.email = user.email ∧
    row.role = user.role
  loggedIn : ∃ x id req, S x (.login id req) ∧ loginUser A x.db req = .ok user

/-- An entry of a trail is a worker's, or that of a user of the document's tenant, who may make it. -/
def Attributed (A : App) (S : State → Action → Prop) (db : Db) (entry : AuditRow) : Prop :=
  entry.actorId = none ∧ entry.event ∈ workerEvents ∨
  ∃ user doc, Authenticated A S db user ∧ entry.actorId = some user.userId ∧ doc ∈ db.documents ∧
    doc.id = entry.documentId ∧ doc.tenantId = user.tenantId ∧ (entry.event = .uploaded ∨
      entry.event ∈ [.approved, .rejected, .fieldEdited, .reprocessed] ∧ user.role ∈ [.admin, .reviewer])

/-- A document has been uploaded by a user of its tenant. -/
def Uploaded (A : App) (S : State → Action → Prop) (db : Db) (doc : DocumentRow) : Prop :=
  ∃ user, Authenticated A S db user ∧ doc.uploadedBy = user.userId ∧ doc.tenantId = user.tenantId

/-- The tenants are as they were, but for columns of the tenant of an admin who has logged in. -/
def Administered (A : App) (S : State → Action → Prop) (db : Db) (tenants : List TenantRow) : Prop :=
  ∃ admin, ∃ set : Database.TenantsSet, Authenticated A S db admin ∧ admin.role = .admin ∧
    tenants = db.tenants.map fun r => if r.id = admin.tenantId then set.apply r else r

section Mono
variable {A : App} {S S' : State → Action → Prop} {db db' : Db}

theorem Authenticated.mono {user : RefreshTokenData} (h : Authenticated A S db user) (hS : ∀ x a, S x a → S' x a)
    (hu : db'.users = db.users) : Authenticated A S' db' user := by
  obtain ⟨hrow, x, id, req, hx, hl⟩ := h
  exact ⟨hu ▸ hrow, x, id, req, hS _ _ hx, hl⟩

theorem Attributed.mono {entry : AuditRow} (h : Attributed A S db entry) (hS : ∀ x a, S x a → S' x a)
    (hx : db.Extends db') (hk : db.Sound) : Attributed A S' db' entry := by
  rcases h with h | ⟨user, doc, ha, hactor, hdoc, hid, htenant, hrole⟩
  · exact .inl h
  · have hrec : db.record doc.id = some ⟨doc, db.extraction doc.id, db.audit doc.id⟩ :=
      congrArg (Option.map _) (Table.lookup_of_mem hk.documents hdoc)
    obtain ⟨r', hr', ho, -⟩ := hx.documents _ _ hrec
    obtain ⟨row, hrow, rfl⟩ := Option.map_eq_some_iff.1 hr'
    refine .inr ⟨user, row, ha.mono hS hx.users, hactor, Table.mem_of_lookup hrow, ?_, ?_, hrole⟩
    · exact (congrArg Origin.id ho).trans hid
    · exact (congrArg Origin.tenantId ho).trans htenant

end Mono

/-- What every configuration of the server satisfies, `S` being the steps taken so far. -/
structure Inv (A : App) (S : State → Action → Prop) (s : State) : Prop where
  reachable : Pipeline.Reachable s.pipeline
  sessions : Sessions.Inv s.sessions
  entered : Sessions.Entered (Authenticated A S s.db) s.sessions
  calls : ∀ i p call, s.pipeline.procs i = some p → p.owner = .api call →
    ∃ user, Authenticated A S s.db user ∧ Permitted (signAccessToken user) call
  documents : ∀ doc ∈ s.db.documents, Uploaded A S s.db doc
  trail : ∀ entry ∈ s.db.documentAuditLog, Attributed A S s.db entry

section Step
variable {A : App} {S S' : State → Action → Prop} {s s' : State} {a : Action}

/-- What a call signs is what the user it is made for may do. -/
theorem Permitted.signs {user : RefreshTokenData} {call : ApiCall} {entry : AuditRow}
    (hp : Permitted (signAccessToken user) call) (hs : (Owner.api call).signs entry) :
    entry.actorId = some user.userId ∧ (entry.event = .uploaded ∨
      entry.event ∈ [.approved, .rejected, .fieldEdited, .reprocessed] ∧ user.role ∈ [.admin, .reviewer]) := by
  obtain ⟨hactor, hevent, -⟩ := hs
  have hown : ∀ a, call.actorId = some a → entry.actorId = some user.userId := fun a ha =>
    (hactor.trans ha).trans (congrArg some (hp.actor a ha))
  have hrole := hp.role
  cases call with
  | upload up id => exact ⟨hown _ rfl, .inl (Option.some.inj hevent).symm⟩
  | approve t d a | reject t d a reason | edit t d a changes | reprocess t d a run =>
    refine ⟨hown _ rfl, .inr ⟨?_, hrole⟩⟩
    rw [← Option.some.inj hevent]
    decide
  | list _ _ _ _ | get _ _ | fileUrl _ _ | getTenant _ | updateTenant _ _ | rotateSecret _ _ => cases hevent

/-- A step of the pipeline, in which only users who may begin calls. -/
theorem Inv.pipeline {c : Pipeline.Config} {b : Pipeline.Action} (hi : Inv A S s) (hS : ∀ x a, S x a → S' x a)
    (hcall : ∀ id call, b = .call id call → ∃ user, Authenticated A S s.db user ∧ Permitted (signAccessToken user) call)
    (h : Pipeline.step s.pipeline b = some c) : Inv A S' { s with pipeline := c } := by
  have hext : s.db.Extends c.world.db := step_extends hi.reachable.coherent.served h
  have hsound : s.db.Sound := hi.reachable.regular.valid.sound
  have hauth : ∀ user, Authenticated A S s.db user → Authenticated A S' c.world.db user := fun user hu =>
    hu.mono hS hext.users
  refine ⟨hi.reachable.step h, hi.sessions, hi.entered.mono hauth, fun i p call hp ho => ?_, fun doc hdoc => ?_,
    fun entry he => ?_⟩
  · obtain ⟨user, hu, hpermitted⟩ : ∃ user, Authenticated A S s.db user ∧ Permitted (signAccessToken user) call := by
      rcases caller_origin h hp ho with ⟨p', hp', ho'⟩ | rfl
      · exact hi.calls i p' call hp' ho'
      · exact hcall i call rfl
    exact ⟨user, hauth user hu, hpermitted⟩
  · rcases document_uploaded hi.reachable h hdoc with ⟨old, hold, horigin⟩ | ⟨i, p, up, id, now, hp, ho, rfl⟩
    · obtain ⟨user, hu, huploader, htenant⟩ := hi.documents old hold
      exact ⟨user, hauth user hu, (congrArg Origin.uploadedBy horigin).symm.trans huploader,
        (congrArg Origin.tenantId horigin).symm.trans htenant⟩
    · obtain ⟨user, hu, hpermitted⟩ := hi.calls i p _ hp ho
      exact ⟨user, hauth user hu, hpermitted.actor _ rfl, hpermitted.tenant⟩
  · rcases entry_signed hi.reachable h he with hold | ⟨i, p, hp, hsigns, hdoc⟩
    · exact (hi.trail entry hold).mono hS hext hsound
    · cases ho : p.owner with
      | job j data =>
        rw [ho] at hsigns
        exact .inl hsigns
      | api call =>
        obtain ⟨user, hu, hpermitted⟩ := hi.calls i p call hp ho
        obtain ⟨doc, hmem, hid, htenant⟩ := hdoc call ho
        rw [ho] at hsigns
        obtain ⟨hactor, hrole⟩ := hpermitted.signs hsigns
        exact .inr ⟨user, doc, hauth user hu, hactor, hmem, hid, htenant.trans hpermitted.tenant, hrole⟩

/-- Whoever comes through the middleware of a route has logged in. -/
theorem Inv.requested {id : ProcId} {route : Route} {req : Request} {draws : Draws} {user : AccessToken} {call : ApiCall}
    (hi : Inv A S s) (hu : Unforged A s (.request id route req draws) s') (h : route.call A s.db.now draws req = .ok (user, call)) :
    ∃ user, Authenticated A S s.db user ∧ Permitted (signAccessToken user) call := by
  obtain ⟨⟨token, ht, hv⟩, hpermitted⟩ := Route.call_permitted h
  obtain ⟨data, hd, rfl⟩ := hi.entered.granted hi.sessions (hu id route req draws token user rfl ht hv)
  exact ⟨data, hd, hpermitted⟩

/-- Whom `loginUser` finds is on record. -/
theorem loginUser_onRecord {db : Db} {req : Request} {user : RefreshTokenData} (h : loginUser A db req = .ok user) :
    ∃ row ∈ db.users, row.id = user.userId ∧ row.tenantId = user.tenantId ∧ row.email = user.email ∧ row.role = user.role := by
  obtain ⟨r, -, h⟩ := bind_ok h
  obtain ⟨email, -, h⟩ := bind_ok h
  obtain ⟨password, -, h⟩ := bind_ok h
  dsimp only at h
  split at h
  · cases h
  · next row hrow =>
    split at h
    · obtain rfl := Except.ok.inj h
      exact ⟨row, List.mem_of_find?_eq_some hrow, rfl, rfl, rfl, rfl⟩
    · cases h

theorem step_authorized (hi : Inv A S s) (hu : Unforged A s a s') (h : step A s a = some s') (ha : S' s a)
    (hS : ∀ x a, S x a → S' x a) : Inv A S' s' := by
  have hself : Inv A S' s := by
    have hauth : ∀ user, Authenticated A S s.db user → Authenticated A S' s.db user := fun user hx => hx.mono hS rfl
    refine ⟨hi.reachable, hi.sessions, hi.entered.mono hauth, fun i p call hp ho => ?_, fun doc hdoc => ?_, fun entry he => ?_⟩
    · obtain ⟨user, hx, hpermitted⟩ := hi.calls i p call hp ho
      exact ⟨user, hauth user hx, hpermitted⟩
    · obtain ⟨user, hx, hdoc⟩ := hi.documents doc hdoc
      exact ⟨user, hauth user hx, hdoc⟩
    · exact (hi.trail entry he).mono hS (.refl _) hi.reachable.regular.valid.sound
  cases step_turn h with
  | request hcall hc =>
    refine hi.pipeline hS ?_ hc
    rintro id call ⟨⟩
    exact hi.requested hu hcall
  | pipeline hb hc => exact hi.pipeline hS (fun id call he => absurd he (hb id call)) hc
  | @login id req user t huser ht =>
    refine { hself with sessions := Sessions.step_inv hi.sessions ht, entered := Sessions.step_entered hself.entered ?_ ht }
    rintro id' user' ⟨⟩
    exact ⟨loginUser_onRecord huser, s, id, req, ha, huser⟩
  | @sessions b t hb ht =>
    exact { hself with
      sessions := Sessions.step_inv hi.sessions ht
      entered := Sessions.step_entered hself.entered (fun id user he => absurd he (hb id user)) ht }
  | refused => exact hself

end Step

theorem initial_inv (A : App) (tenants : List TenantRow) (users : List UserRow) :
    Inv A (fun _ _ => False) (initial tenants users) where
  reachable := ⟨tenants, users, [], rfl⟩
  sessions := Sessions.initial_inv
  entered := ⟨by rintro _ _ _ ⟨⟩, by rintro _ ⟨⟩⟩
  calls _ _ _ hp := by cases hp
  documents _ hdoc := by cases hdoc
  trail _ he := by cases he

theorem run_inv {A : App} {tenants : List TenantRow} {users : List UserRow} {actions : List Action} {s : State}
    (hu : Along (step A) (Unforged A) (initial tenants users) actions) (h : run (step A) (initial tenants users) actions = some s) :
    Inv A (Takes (step A) (initial tenants users) actions) s :=
  run_traced (I := fun S s => Inv A S s) (fun _ _ _ _ hi hp h _ ha hS => step_authorized hi hp h ha hS)
    (initial_inv A tenants users) hu h

/-- In every run in which nobody forges an access token: every document has been uploaded by a user of its tenant,
and every entry of a trail is a worker's or that of a user of the document's tenant, of a reviewer or an admin where
it is a review. The user's email and password have come in with a login of the run. -/
theorem trails_authorized {A : App} {tenants : List TenantRow} {users : List UserRow} {actions : List Action} {s : State}
    (hu : Along (step A) (Unforged A) (initial tenants users) actions) (h : run (step A) (initial tenants users) actions = some s) :
    (∀ doc ∈ s.db.documents, Uploaded A (Takes (step A) (initial tenants users) actions) s.db doc) ∧
    ∀ entry ∈ s.db.documentAuditLog, Attributed A (Takes (step A) (initial tenants users) actions) s.db entry :=
  ⟨(run_inv hu h).documents, (run_inv hu h).trail⟩

section Demo

/-- One token verifies, which carries the claims of Alice. -/
def demoApp : App where
  verifyAccessToken _ token :=
    if token = "alice" then .ok ⟨2, 1, "alice@acme.test", .admin⟩ else .error .jsonWebToken
  comparePassword plaintext hash := plaintext == hash
  formats := ⟨fun _ => true, fun _ => true⟩
  maxUploadBytes := 1000

def demoRequest (body : List (String × Value)) : Request where
  authorization := some "Bearer alice"
  correlationId := "demo"
  body := some (.object body)
  params := some (.object [("id", .string "00000000-0000-0000-0000-000000000003")])
  multipart := .file ⟨"invoice.pdf", "application/pdf", []⟩ false

/-- Alice logs in, uploads document 3 and, after a doubtful extraction, rejects it. -/
def demoSession : List Action :=
  [.login 1 (demoRequest [("email", .string "alice@acme.test"), ("password", .string "hash")]), .sessions (.step 1 5),
    .request 10 .uploadDocument (demoRequest []) ⟨3, ""⟩] ++
  (demoUpload.drop 1 ++ demoOcr .initial 20 "text" ++ [Pipeline.Action.finish 20] ++
    demoExtraction .initial 30 (demoResult 10 (1 / 2))).map .pipeline ++
  [.request 40 .rejectDocument (demoRequest [("reason", .string " blurred ")]) ⟨0, ""⟩, .pipeline (.step 40 .execute)]

def demoUsers : List UserRow := [⟨2, 1, "alice@acme.test", "hash", .admin⟩]

/-- The session of call `i` has handed out the claims. -/
def State.handedOut (s : State) (i : CallId) (user : AccessToken) : Bool :=
  match s.sessions.calls i with
  | some (_, .ret (some (access, _))) => access == user
  | _ => false

theorem State.granted_of_handedOut {s : State} {i : CallId} {user : AccessToken} (h : s.handedOut i user) :
    Sessions.Granted s.sessions user := by
  unfold State.handedOut at h
  split at h
  · next call access tokenId hc =>
    rw [beq_iff_eq] at h
    exact ⟨i, call, tokenId, h ▸ hc⟩
  · cases h

/-- The session of the demo has handed out Alice's claims before a request shows them. -/
def granted (s : State) (a : Action) (_ : State) : Bool :=
  match a with
  | .request _ _ _ _ => s.handedOut 1 ⟨2, 1, "alice@acme.test", .admin⟩
  | _ => true

theorem granted_unforged (s : State) (a : Action) (s' : State) (h : granted s a s') : Unforged demoApp s a s' := by
  rintro id route req draws token user rfl - hv
  obtain ⟨-, rfl⟩ : token = "alice" ∧ user = ⟨2, 1, "alice@acme.test", .admin⟩ := by
    simp only [demoApp] at hv
    split at hv
    · next ht => exact ⟨ht, (Except.ok.inj hv).symm⟩
    · cases hv
  exact State.granted_of_handedOut h

theorem trails_authorized_session : ∃ s entry, run (step demoApp) (initial registered demoUsers) demoSession = some s ∧
    entry ∈ s.db.documentAuditLog ∧ entry.event = .rejected ∧
    Attributed demoApp (Takes (step demoApp) (initial registered demoUsers) demoSession) s.db entry := by
  have hrun : (run (step demoApp) (initial registered demoUsers) demoSession).map
      (fun s => (s.db.documentAuditLog.map (·.event)).getLast?) = some (some .rejected) := by decide +kernel
  have hgranted : Along (step demoApp) (fun s a s' => granted s a s') (initial registered demoUsers) demoSession := by
    decide +kernel
  obtain ⟨s, hs, hlast⟩ := Option.map_eq_some_iff.1 hrun
  obtain ⟨entry, he, hevent⟩ := List.mem_map.1 (List.mem_of_getLast? hlast)
  exact ⟨s, entry, hs, he, hevent, (trails_authorized (along_mono granted_unforged hgranted) hs).2 entry he⟩

/-- Alice logs in and renames her tenant. -/
def demoRename : List Action :=
  [.login 1 (demoRequest [("email", .string "alice@acme.test"), ("password", .string "hash")]), .sessions (.step 1 5),
    .request 10 .updateTenant (demoRequest [("name", .string "Acme Ltd"), ("tenantId", .string "7")]) ⟨0, ""⟩]

end Demo

end Http

end DocAuto
