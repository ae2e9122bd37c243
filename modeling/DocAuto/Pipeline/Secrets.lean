import DocAuto.Database.Frame
import DocAuto.Pipeline.Footprint
import DocAuto.Pipeline.Lifecycle

/-! Webhook URLs and signing secrets of the tenants. A rotation checks the URL in one
transaction and writes the secret in another. -/
namespace DocAuto.Pipeline
open Process Database

/-- No tenant has a secret without a URL to sign for. -/
def Config.Configured (c : Config) : Prop :=
  ∀ r ∈ c.world.db.tenants, r.webhookSecret.isSome → r.webhookUrl.isSome

/-- A rotation that writes its secret finds the URL it has checked still set. -/
def Secured (c : Config) (a : Action) (_ : Config) : Prop :=
  ∀ i t secret, a = .step i .execute → c.command i = some (.tx (.updateTenant t { webhookSecret := some (some secret) })) →
    ∀ r ∈ c.world.db.tenants, r.id = t → r.webhookUrl.isSome

section Tenants
variable {c d : Config} {a : Action} {t : Uuid} {set : TenantsSet} {db : Db}

theorem updateTenant_tenants :
    ((Tx.updateTenant t set).run true db).2.tenants = db.tenants.map fun r => if r.id = t then set.apply r else r := by
  rw [Tx.run]
  by_cases hs : set = {}
  · subst hs
    have hid : (db.tenants.map fun r => if r.id = t then TenantsSet.apply {} r else r) = db.tenants :=
      (List.map_congr_left fun r _ => ite_self r).trans (List.map_id _)
    rw [hid]
    rfl
  · simp only [Tx.body, updateTenantTx, if_neg hs]
    refine List.map_congr_left fun r _ => if_congr ?_ rfl rfl
    simp [Session.admitsTenant, Tx.tenantId]

/-- Tenants change by their own update only. -/
theorem step_tenants (h : step c a = some d) : d.world.db.tenants = c.world.db.tenants ∨
    ∃ i t set, a = .step i .execute ∧ c.command i = some (.tx (.updateTenant t set)) ∧
      d.world.db.tenants = c.world.db.tenants.map fun r => if r.id = t then set.apply r else r := by
  rcases step_tables h with ⟨i, answer, rfl⟩ | ht
  · obtain ⟨p, cmd, k, r, w, hp, hc, he, rfl⟩ := step_inv h
    have hcmd := Config.command_of hp hc
    rcases Cmd.exec_db he with ⟨x, rfl, rfl, hw⟩ | hw
    · cases x with
      | updateTenant t set => exact .inr ⟨i, t, set, rfl, hcmd, hw ▸ updateTenant_tenants⟩
      | _ => exact .inl (hw ▸ Tx.run_same (T := .tenants) true (by simp [Tx.tables]))
    · exact .inl (congrArg Db.tenants hw)
  · exact .inl (show d.world.db.tables.tenants = c.world.db.tables.tenants from congrArg Db.tenants ht)

private theorem updates_configured (params : TenantUpdate) (r : TenantRow)
    (h : r.webhookSecret.isSome → r.webhookUrl.isSome) :
    (params.updates.apply r).webhookSecret.isSome → (params.updates.apply r).webhookUrl.isSome := by
  obtain ⟨name, threshold, url⟩ := params
  rcases url with _ | _ | url <;> simp [TenantUpdate.updates, TenantsSet.apply]
  exact h

theorem step_configured (hf : c.Footprints) (hc : c.Configured) (h : step c a = some d) :
    d.Configured ↔ Secured c a d := by
  constructor
  · rintro hd i t secret rfl hcmd r hr rfl
    have hmem : TenantsSet.apply { webhookSecret := some (some secret) } r ∈ d.world.db.tenants := by
      rw [step_tx h hcmd, updateTenant_tenants]
      exact List.mem_map.2 ⟨r, hr, if_pos rfl⟩
    have hurl : (TenantsSet.apply { webhookSecret := some (some secret) } r).webhookUrl.isSome := hd _ hmem rfl
    exact hurl
  · intro hs r hr
    rcases step_tenants h with ht | ⟨i, t, set, rfl, hcmd, ht⟩
    · exact hc r (ht ▸ hr)
    rw [ht] at hr
    obtain ⟨s, hmem, rfl⟩ := List.mem_map.1 hr
    split
    · next hid =>
      obtain ⟨p, -, hi⟩ := hf.issues hcmd
      unfold Owner.issues at hi
      dsimp only at hi
      split at hi
      · obtain ⟨-, rfl⟩ := hi
        exact updates_configured _ s (hc s hmem)
      · obtain ⟨-, rfl⟩ := hi
        exact fun _ => hs i t _ rfl hcmd s hmem hid
      · exact hi.elim
    · exact hc s hmem

end Tenants

/-- Every state of a run has a URL for every secret exactly when every rotation writes its
secret while the URL it has checked is still set. -/
theorem secrets_configured_iff {tenants : List TenantRow} {users : List UserRow} {actions : List Action}
    (hfresh : ∀ t ∈ tenants, t.webhookUrl = none ∧ t.webhookSecret = none) :
    Along step (fun _ _ d => d.Configured) (initial tenants users) actions ↔
      Along step Secured (initial tenants users) actions := by
  refine along_iff (I := fun c => c.Footprints ∧ c.Configured) (fun _ _ _ hc hd h => ⟨step_footprints hc.1 h, hd⟩)
    (fun _ _ _ hc h => step_configured hc.1 hc.2 h) ⟨initial_footprints tenants users, fun r hr hs => ?_⟩
  rw [(hfresh r hr).2] at hs
  cases hs

section Demo

instance (c : Config) : Decidable c.Configured :=
  inferInstanceAs (Decidable (∀ r ∈ c.world.db.tenants, _))

/-- A tenant that has just been registered. -/
def registered : List TenantRow := [⟨1, "Acme", "acme", 85 / 100, none, none⟩]

/-- The URL is cleared between the check of a rotation and its write. -/
def clearedMeanwhile : List Action :=
  [.call 10 (.updateTenant 1 { webhookUrl := some (some "https://acme.test/hook") }), .step 10 .execute,
    .call 11 (.rotateSecret 1 "secret"), .step 11 .execute,
    .call 12 (.updateTenant 1 { webhookUrl := some none }), .step 12 .execute, .step 11 .execute]

/-- The rotation leaves a secret with nothing to sign for. -/
theorem secret_orphaned :
    (run step (initial registered []) clearedMeanwhile).map (·.world.db.tenants) =
        some [⟨1, "Acme", "acme", 85 / 100, none, some "secret"⟩] ∧
      ¬ Along step (fun _ _ d => d.Configured) (initial registered []) clearedMeanwhile := by
  decide +kernel

/-- Its write is not the write of a secured rotation. -/
theorem cleared_not_secured : ¬ Along step Secured (initial registered []) clearedMeanwhile :=
  (not_congr (secrets_configured_iff (by decide))).1 (by decide +kernel)

end Demo
end DocAuto.Pipeline
