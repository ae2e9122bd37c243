import DocAuto.Decision.Rounding
import DocAuto.Http.Authority
import DocAuto.Http.Validated

/-! What the API lets into the database. -/
namespace DocAuto.Http
open Process Json Auth Validators Pipeline Database

/-- The settings of a tenant are within the bounds of the schemas of registrations and updates. -/
def WithinBounds (F : Formats) (t : TenantRow) : Prop :=
  (2 ≤ Text.length t.name ∧ Text.length t.name ≤ 255) ∧ (0 ≤ t.extractionThreshold ∧ t.extractionThreshold ≤ 1) ∧
    ∀ url, t.webhookUrl = some url → F.url url

/-- An entry of a trail holds what the schemas of the reviews accept. -/
def Documented (entry : AuditRow) : Prop :=
  (entry.event = .rejected → ∃ reason, entry.payload = some (.rejection reason) ∧ trim reason = reason ∧
    1 ≤ Text.length reason ∧ Text.length reason ≤ 1000) ∧
  (entry.event = .fieldEdited → ∃ changes, entry.payload = some (.edit changes) ∧
    editExtractionSchema changes = some changes)

/-- What the database holds has come through the validators. -/
structure Stored (F : Formats) (db : Db) : Prop where
  tenants : ∀ t ∈ db.tenants, WithinBounds F t
  documents : ∀ doc ∈ db.documents, doc.mimeType ∈ allowedMimeTypes
  trail : ∀ entry ∈ db.documentAuditLog, Documented entry

section Calls
variable {F : Formats} {call : ApiCall}

theorem updates_bounded {params : TenantUpdate} {tenantId : Uuid} (h : (ApiCall.updateTenant tenantId params).Validated F)
    {t : TenantRow} (ht : WithinBounds F t) : WithinBounds F (params.updates.apply t) := by
  obtain ⟨-, hname, hthreshold, hurl⟩ := h
  obtain ⟨htn, htt, htu⟩ := ht
  refine ⟨?_, ?_, fun url hu => ?_⟩
  · cases hn : params.name with
    | none => simpa [TenantsSet.apply, TenantUpdate.updates, hn] using htn
    | some name => simpa [TenantsSet.apply, TenantUpdate.updates, hn] using (hname name hn).2
  · cases hx : params.extractionThreshold with
    | none => simpa [TenantsSet.apply, TenantUpdate.updates, hx] using htt
    | some x =>
      obtain ⟨h0, h1⟩ := hthreshold x hx
      have hz : IsCents 0 := ⟨0, by norm_num⟩
      have ho : IsCents 1 := ⟨100, by norm_num⟩
      simpa [TenantsSet.apply, TenantUpdate.updates, hx] using And.intro (le_toFixed2 hz h0) (toFixed2_le ho h1)
  · cases hw : params.webhookUrl with
    | none => exact htu url (by simpa [TenantsSet.apply, TenantUpdate.updates, hw] using hu)
    | some w =>
      obtain rfl : w = some url := by simpa [TenantsSet.apply, TenantUpdate.updates, hw] using hu
      exact (hurl url hw).2

/-- Whatever columns a call sets, it keeps them within bounds. -/
theorem settings_bounded {set : TenantsSet} (h : call.Validated F) (hset : call.settings = some set) {t : TenantRow}
    (ht : WithinBounds F t) : WithinBounds F (set.apply t) := by
  cases call with
  | updateTenant tenantId params =>
    obtain rfl := Option.some.inj hset
    exact updates_bounded h ht
  | rotateSecret tenantId secret =>
    obtain rfl := Option.some.inj hset
    exact ht
  | _ => cases hset

/-- What is signed is documented. -/
theorem signed_documented {owner : Owner} {entry : AuditRow} (hcall : ∀ call, owner = .api call → call.Validated F)
    (h : owner.signs entry) : Documented entry := by
  cases owner with
  | job j data =>
    have hevent := h.2
    constructor <;> intro he <;> rw [he] at hevent <;> simp [workerEvents] at hevent
  | api call =>
    obtain ⟨-, hevent, hpayload⟩ := h
    have hv := hcall call rfl
    cases call with
    | reject t d a reason =>
      refine ⟨fun _ => ⟨reason, hpayload, hv⟩, fun he => ?_⟩
      rw [he] at hevent
      cases hevent
    | edit t d a changes =>
      refine ⟨fun he => ?_, fun _ => ⟨changes, hpayload, hv⟩⟩
      rw [he] at hevent
      cases hevent
    | _ => constructor <;> intro he <;> rw [he] at hevent <;> cases hevent

end Calls

/-- The calls in flight have validated arguments, and so has what they have stored. -/
structure Clean (A : App) (s : State) : Prop where
  reachable : Pipeline.Reachable s.pipeline
  calls : ∀ i p call, s.pipeline.procs i = some p → p.owner = .api call → call.Validated A.formats
  stored : Stored A.formats s.db

section Step
variable {A : App} {s s' : State} {a : Action}

theorem Clean.pipeline {c : Pipeline.Config} {b : Pipeline.Action} (hs : Clean A s)
    (hcall : ∀ id call, b = .call id call → call.Validated A.formats) (h : Pipeline.step s.pipeline b = some c) :
    Clean A { s with pipeline := c } := by
  refine ⟨hs.reachable.step h, fun i p call hp ho => ?_, fun t ht => ?_, fun doc hdoc => ?_, fun entry he => ?_⟩
  · rcases caller_origin h hp ho with ⟨p', hp', ho'⟩ | rfl
    · exact hs.calls i p' call hp' ho'
    · exact hcall i call rfl
  · rcases tenants_set hs.reachable h with hsame | ⟨i, p, call, set, hp, ho, hset, htenants⟩
    · exact hs.stored.tenants t (hsame ▸ ht)
    · rw [show State.db _ = c.world.db from rfl, htenants] at ht
      obtain ⟨r, hr, rfl⟩ := List.mem_map.1 ht
      split
      · exact settings_bounded (hs.calls i p call hp ho) hset (hs.stored.tenants r hr)
      · exact hs.stored.tenants r hr
  · rcases document_uploaded hs.reachable h hdoc with ⟨old, hold, horigin⟩ | ⟨i, p, up, id, now, hp, ho, rfl⟩
    · have hmime : old.mimeType = doc.mimeType := congrArg Origin.mimeType horigin
      exact hmime ▸ hs.stored.documents old hold
    · exact hs.calls i p _ hp ho
  · rcases entry_signed hs.reachable h he with hold | ⟨i, p, hp, hsigns, -⟩
    · exact hs.stored.trail entry hold
    · exact signed_documented (fun call ho => hs.calls i p call hp ho) hsigns

theorem step_clean (hs : Clean A s) (h : step A s a = some s') : Clean A s' := by
  cases step_turn h with
  | request hcall hc =>
    refine hs.pipeline ?_ hc
    rintro id call ⟨⟩
    exact calls_validated hcall
  | pipeline hb hc => exact hs.pipeline (fun id call he => absurd he (hb id call)) hc
  | login _ _ | sessions _ _ => exact ⟨hs.reachable, hs.calls, hs.stored⟩
  | refused => exact hs

end Step

theorem initial_clean {A : App} {tenants : List TenantRow} {users : List UserRow} (ht : ∀ t ∈ tenants, WithinBounds A.formats t) :
    Clean A (initial tenants users) :=
  ⟨⟨tenants, users, [], rfl⟩, by rintro _ _ _ ⟨⟩, ht, by rintro _ ⟨⟩, by rintro _ ⟨⟩⟩

/-- In every run, whatever bodies the requests have: settings of tenants stay within the bounds of the schemas,
documents have an allowed type, and the trails hold only reasons and changes that the schemas accept. -/
theorem stored_validated {A : App} {tenants : List TenantRow} {users : List UserRow} {actions : List Action} {s : State}
    (ht : ∀ t ∈ tenants, WithinBounds A.formats t) (h : run (step A) (initial tenants users) actions = some s) :
    Stored A.formats s.db :=
  (run_inductive (fun _ _ _ hs h => step_clean hs h) (initial_clean ht) h).stored

theorem stored_validated_session : ∃ s, run (step demoApp) (initial registered demoUsers) demoSession = some s ∧
    s.db.documentAuditLog.any (·.event == .rejected) ∧ Stored demoApp.formats s.db := by
  have hrun : (run (step demoApp) (initial registered demoUsers) demoSession).map
      (fun s => s.db.documentAuditLog.any (·.event == .rejected)) = some true := by decide +kernel
  obtain ⟨s, hs, hany⟩ := Option.map_eq_some_iff.1 hrun
  refine ⟨s, hs, hany, stored_validated (fun t ht => ?_) hs⟩
  obtain rfl := List.mem_singleton.1 ht
  exact ⟨by decide +kernel, ⟨by norm_num, by norm_num⟩, nofun⟩

end DocAuto.Http
