import DocAuto.Http.Authority
import DocAuto.Tenancy.Separation

/-! The server as one of its tenants sees it. -/
namespace DocAuto.Http
open Json Process Pipeline Tenancy

/-- The actions of a tenant's own pipeline that stand for actions of the server: its calls are those
that the routes make of the requests. -/
def Stands (A : App) : Pipeline.Action → Action → Prop
  | .call id call, .request id' route req draws => id = id' ∧ ∃ now user, route.call A now draws req = .ok (user, call)
  | b, .pipeline a => Matches b a
  | _, _ => False

section Step
variable {A : App} {t : Uuid}

/-- Whatever the server does for others, the pipeline of the one tenant waits. -/
theorem server_simulates (A : App) (t : Uuid) : Simulates (step A) Pipeline.step (Unforged A) (Stands A)
    fun s d => (∃ S, Inv A S s) ∧ (∃ draw k, Residents s.pipeline draw k) ∧ ∃ ρ, Separate t ρ s.pipeline d := by
  rintro s a s' d ⟨⟨S, hi⟩, hres, hsep⟩ hu h
  have hinv : ∃ S', Inv A S' s' :=
    ⟨fun x b => S x b ∨ x = s ∧ b = a, step_authorized hi hu h (.inr ⟨rfl, rfl⟩) fun _ _ => .inl⟩
  have hpipeline : ∀ {b c}, Employed s.pipeline b c → Pipeline.step s.pipeline b = some c →
      ((∃ draw k, Residents c draw k) ∧ ∃ ρ, Separate t ρ c d) ∨
        ∃ b' d', Matches b' b ∧ Pipeline.step d b' = some d' ∧ (∃ draw k, Residents c draw k) ∧ ∃ ρ, Separate t ρ c d' := by
    intro b c he hc
    rcases separate_simulates t _ _ _ _ ⟨hi.reachable, hres, hsep⟩ he hc with ⟨-, hr, hs⟩ | ⟨b', d', hb, hd, -, hr, hs⟩
    · exact .inl ⟨hr, hs⟩
    · exact .inr ⟨b', d', hb, hd, hr, hs⟩
  cases step_turn h with
  | @request id route req draws user call c hcall hc =>
    have he : Employed s.pipeline (.call id call) c := by
      rintro _ _ u ⟨⟩ hactor
      obtain ⟨data, hdata, hpermitted⟩ := hi.requested hu hcall
      obtain ⟨row, hrow, hid, htenant, -⟩ := hdata.onRecord
      exact ⟨row, hrow, hid.trans (hpermitted.actor u hactor).symm, htenant.trans hpermitted.tenant.symm⟩
    rcases hpipeline he hc with ⟨hr, hs⟩ | ⟨b', d', ⟨ρ, hb⟩, hd, hr, hs⟩
    · exact .inl ⟨hinv, hr, hs⟩
    · refine .inr ⟨b', d', ?_, hd, hinv, hr, hs⟩
      cases b' <;> cases hb
      exact ⟨rfl, _, user, hcall⟩
  | @pipeline b c hb hc =>
    have he : Employed s.pipeline b c := fun id call _ hcall => absurd hcall (hb id call)
    rcases hpipeline he hc with ⟨hr, hs⟩ | ⟨b', d', hmatch, hd, hr, hs⟩
    · exact .inl ⟨hinv, hr, hs⟩
    · refine .inr ⟨b', d', ?_, hd, hinv, hr, hs⟩
      cases b' <;> exact hmatch
  | login _ _ | sessions _ _ | refused => exact .inl ⟨hinv, hres, hsep⟩

end Step

/-- Tenants share the server as if each had a pipeline of its own. Take any run in which nobody forges an access token, and
any tenant: some of the actions, in their order, are a run of a pipeline whose database has been set up with that tenant and
its users only, and which ends with the tenant's rows, jobs and processes as they are on the server, after the same commands
and answers. -/
theorem tenants_separate {A : App} {tenants : List TenantRow} {users : List UserRow} {actions : List Action} {s : State} (t : Uuid)
    (hu : Along (step A) (Unforged A) (initial tenants users) actions) (h : run (step A) (initial tenants users) actions = some s) :
    ∃ own d ρ, List.SublistForall₂ (Stands A) own actions ∧ run Pipeline.step
      (Pipeline.initial (tenants.filter (·.id == t)) (users.filter (·.tenantId == t))) own = some d ∧ Separate t ρ s.pipeline d := by
  obtain ⟨own, d, hsub, hd, -, -, ρ, hsep⟩ := (server_simulates A t).run
    ⟨⟨_, initial_inv A tenants users⟩, initial_residents tenants users, id, initial_separate tenants users t⟩ hu h
  exact ⟨own, d, ρ, hsub, hd, hsep⟩

section Demo

/-- The tokens of Alice and of Bob verify. -/
def sharedApp : App :=
  { demoApp with verifyAccessToken := fun now token =>
      if token = "bob" then .ok ⟨6, 5, "bob@globex.test", .admin⟩ else demoApp.verifyAccessToken now token }

def sharedTenants : List TenantRow := ⟨5, "Globex", "globex", 85 / 100, none, none⟩ :: registered

def sharedUsers : List UserRow := ⟨6, 5, "bob@globex.test", "hash", .admin⟩ :: demoUsers

private def bobRequest (body : List (String × Json.Value)) : Request := { demoRequest body with authorization := some "Bearer bob" }

/-- Alice and Bob upload a document each, Alice's is extracted, Bob asks for it and cannot reject it, and Alice does. -/
def sharedSession : List Action :=
  [.login 1 (demoRequest [("email", .string "alice@acme.test"), ("password", .string "hash")]), .sessions (.step 1 5),
    .login 2 (demoRequest [("email", .string "bob@globex.test"), ("password", .string "hash")]), .sessions (.step 2 7),
    .request 10 .uploadDocument (demoRequest []) ⟨3, ""⟩, .request 11 .uploadDocument (bobRequest []) ⟨4, ""⟩] ++
  [.step 11 .execute, .step 10 .execute, .step 10 (.text "1/3"), .step 11 (.text "5/4"), .step 10 .execute, .step 11 .execute,
    .step 11 .execute, .step 10 .execute, .step 10 .execute, .finish 10, .step 11 .execute, .finish 11].map .pipeline ++
  (demoOcr .initial 20 "text" ++ [Pipeline.Action.finish 20] ++ demoExtraction .initial 30 (demoResult 10 (1 / 2))).map .pipeline ++
  [.request 41 .rejectDocument (bobRequest [("reason", .string "not mine")]) ⟨0, ""⟩, .pipeline (.step 41 .execute),
    .pipeline (.finish 41), .request 40 .rejectDocument (demoRequest [("reason", .string "blurred")]) ⟨0, ""⟩,
    .pipeline (.step 40 .execute)]

private def bothGranted (s : State) (a : Action) (_ : State) : Bool :=
  match a with
  | .request _ _ _ _ =>
    s.handedOut 1 ⟨2, 1, "alice@acme.test", .admin⟩ && s.handedOut 2 ⟨6, 5, "bob@globex.test", .admin⟩
  | _ => true

private theorem bothGranted_unforged (s : State) (a : Action) (s' : State) (h : bothGranted s a s') : Unforged sharedApp s a s' := by
  rintro id route req draws token user rfl - hv
  obtain ⟨halice, hbob⟩ := Bool.and_eq_true_iff.1 h
  simp only [sharedApp] at hv
  split at hv
  · cases hv
    exact State.granted_of_handedOut hbob
  · simp only [demoApp] at hv
    split at hv
    · cases hv
      exact State.granted_of_handedOut halice
    · cases hv

/-- Of what Alice and Bob do on one server, Alice's part is a run of a pipeline of Acme's. -/
theorem tenants_separate_session : ∃ s own d, run (step sharedApp) (initial sharedTenants sharedUsers) sharedSession = some s ∧
    s.db.documents.map (fun r => (r.tenantId, r.status)) = [(5, .uploaded), (1, .rejected)] ∧
    run Pipeline.step (Pipeline.initial registered demoUsers) own = some d ∧ d.world.db = Tenancy.own 1 s.db := by
  have hrun : (run (step sharedApp) (initial sharedTenants sharedUsers) sharedSession).map
      (fun s => s.db.documents.map fun r => (r.tenantId, r.status)) = some [(5, .uploaded), (1, .rejected)] := by decide +kernel
  have hgranted : Along (step sharedApp) (fun s a s' => bothGranted s a s') (initial sharedTenants sharedUsers) sharedSession := by
    decide +kernel
  obtain ⟨s, hs, hdocuments⟩ := Option.map_eq_some_iff.1 hrun
  obtain ⟨own, d, ρ, -, hd, hsep⟩ := tenants_separate 1 (along_mono bothGranted_unforged hgranted) hs
  exact ⟨s, own, d, hs, hdocuments, hd, hsep.world.db⟩

end Demo
end DocAuto.Http
