import DocAuto.RateLimit.AuthEndpoints

/-! All requests of one client under the three mount points. Each of them passes
`apiRateLimit`, which counts under the method and the path relative to the mount. -/
namespace DocAuto.RateLimit
open Process

inductive Mount where
  | auth | documents | tenant
  deriving DecidableEq, Repr

/-- `path` is what follows the mount point, the `req.path` of the middleware. -/
structure Visit where
  mount : Mount
  method : String
  path : String
  arrival : Arrival
  deriving DecidableEq, Repr

namespace Visit

/-- `router.post('/register', authRateLimit, ...)` and `router.post('/login', authRateLimit, ...)`;
routes match in any case and with a slash at the end. -/
def authLimited (v : Visit) : Bool :=
  v.mount == .auth && v.method == "POST" &&
    ["/register", "/register/", "/login", "/login/"].contains v.path.toLower

/-- No user is set before `requireAuth`. -/
def request (ip : Option String) (v : Visit) : Request := ⟨v.method, v.path, ip, none⟩

end Visit

/-- `app.use(mount, apiRateLimit, router)`: whether `apiRateLimit` and, where it is reached,
`authRateLimit` let the request pass, both checks being made at one instant and with no
other request in between. -/
def Visit.limiters (ip : Option String) (v : Visit) (redis : Redis) : (Bool × Bool) × Redis :=
  let (api, redis) := apiRateLimit (v.request ip) v.arrival.now v.arrival.apiSuffix redis
  if api.passes && v.authLimited then
    let (auth, redis) := authRateLimit (v.request ip) v.arrival.now v.arrival.authSuffix redis
    ((true, auth.passes), redis)
  else ((api.passes, false), redis)

/-- A time at which a limiter let a request through, and the key it counted it under. -/
structure Pass where
  key : RateKey
  now : Nat
  deriving DecidableEq, Repr

/-- `apiPassed` and `authPassed` are the requests each limiter let through, newest first. -/
structure Client where
  redis : Redis
  now : Nat
  drawn : List Member
  apiPassed : List Pass
  authPassed : List Pass

namespace Client

def initial : Client := ⟨fun _ => .empty, 0, [], [], []⟩

/-- The next request of the client, which comes when the one before it has been handled.
Times do not decrease, and no member is drawn twice. -/
def step (ip : Option String) (s : Client) (v : Visit) : Option Client :=
  if s.now ≤ v.arrival.now ∧ ⟨v.arrival.now, v.arrival.apiSuffix⟩ ∉ s.drawn ∧
      ⟨v.arrival.now, v.arrival.authSuffix⟩ ∉ s.drawn ∧ v.arrival.apiSuffix ≠ v.arrival.authSuffix then
    let ((api, auth), redis) := v.limiters ip s.redis
    let pass : Pass := ⟨(v.request ip).key, v.arrival.now⟩
    some {
      redis := redis, now := v.arrival.now
      drawn := ⟨v.arrival.now, v.arrival.authSuffix⟩ :: ⟨v.arrival.now, v.arrival.apiSuffix⟩ :: s.drawn
      apiPassed := if api then pass :: s.apiPassed else s.apiPassed
      authPassed := if auth then pass :: s.authPassed else s.authPassed }
  else none

/-- What `apiRateLimit` has let through in the last minute, on all routes together. -/
def total (s : Client) (t : Nat) : Nat := (within 60000 t (s.apiPassed.map (·.now))).length

/-- What the two limiters have let through under one key. -/
def under (s : Client) (key : RateKey) : State where
  redis := s.redis
  now := s.now
  drawn := s.drawn
  apiPassed := (s.apiPassed.filter (·.key == key)).map (·.now)
  authPassed := (s.authPassed.filter (·.key == key)).map (·.now)

/-- At most 120 requests in any minute. -/
def Spanned (s : Client) : Prop := ∀ t, s.total t ≤ 120

end Client

/-- A request that finds room under its own key finds room on all routes together. -/
def Roomy (ip : Option String) (s : Client) (v : Visit) (_ : Client) : Prop :=
  (s.under (v.request ip).key).load v.arrival.now < 120 → s.total v.arrival.now < 120

/-- The sorted set under every key has what was let through under it in the last minute. -/
structure Tracked (s : Client) : Prop where
  records : ∀ key, Records 60000 ((s.under key).apiPassed ++ (s.under key).authPassed) s.drawn s.now (s.redis key)
  past : ∀ x ∈ s.apiPassed ++ s.authPassed, x.now ≤ s.now

section Step
variable {ip : Option String} {s s' : Client} {v : Visit} {key : RateKey} {redis : Redis}

theorem initial_tracked : Tracked .initial := ⟨fun _ => .empty, nofun⟩

theorem Tracked.shared (hs : Tracked s) (ip : Option String) (v : Visit) : Shared (v.request ip) (s.under (v.request ip).key) where
  records := hs.records _
  past t ht := by
    obtain ⟨x, hx, rfl⟩ := List.mem_map.1 ht
    exact hs.past x (List.mem_append_right _ (List.mem_filter.1 hx).1)

/-- A request touches the set under its own key only. -/
theorem limiters_other (h : key ≠ (v.request ip).key) : (v.limiters ip redis).2 key = redis key := by
  unfold Visit.limiters apiRateLimit authRateLimit rateLimiter
  dsimp only
  split <;> simp [Function.update_of_ne h]

/-- On `/login` and `/register` the two limiters are as `handle` runs them. -/
theorem limiters_handle (hl : v.authLimited = true) : v.limiters ip redis =
    (((handle (v.request ip) v.arrival redis).1 != .refusedByApi, (handle (v.request ip) v.arrival redis).1 == .handled),
      (handle (v.request ip) v.arrival redis).2) := by
  unfold Visit.limiters handle
  rw [hl]
  dsimp only
  cases (apiRateLimit (v.request ip) v.arrival.now v.arrival.apiSuffix redis).1.passes with
  | false => rfl
  | true =>
    simp only [Bool.and_self, if_true]
    cases (authRateLimit (v.request ip) v.arrival.now v.arrival.authSuffix _).1.passes <;> rfl

/-- Elsewhere `apiRateLimit` is the only one. -/
theorem limiters_api (hl : v.authLimited = false) : v.limiters ip redis =
    (((apiRateLimit (v.request ip) v.arrival.now v.arrival.apiSuffix redis).1.passes, false),
      (apiRateLimit (v.request ip) v.arrival.now v.arrival.apiSuffix redis).2) := by
  unfold Visit.limiters
  rw [hl]
  simp

/-- Which limiters let a request through, by what its key has seen, and what its set has afterwards. -/
theorem admit_cases (hs : Tracked s) (hn : s.now ≤ v.arrival.now) (hapi : ⟨v.arrival.now, v.arrival.apiSuffix⟩ ∉ s.drawn)
    (hauth : ⟨v.arrival.now, v.arrival.authSuffix⟩ ∉ s.drawn) (hne : v.arrival.apiSuffix ≠ v.arrival.authSuffix) :
    let u := s.under (v.request ip).key
    ((v.limiters ip s.redis).1 = (false, false) ∧ 120 ≤ u.load v.arrival.now ∧
        Records 60000 (u.apiPassed ++ u.authPassed) s.drawn v.arrival.now ((v.limiters ip s.redis).2 (v.request ip).key)) ∨
      ((v.limiters ip s.redis).1 = (true, false) ∧ u.load v.arrival.now < 120 ∧
        Records 60000 (v.arrival.now :: u.apiPassed ++ u.authPassed) (⟨v.arrival.now, v.arrival.apiSuffix⟩ :: s.drawn)
          v.arrival.now ((v.limiters ip s.redis).2 (v.request ip).key)) ∨
      ((v.limiters ip s.redis).1 = (true, true) ∧ u.load v.arrival.now < 120 ∧
        Records 60000 (v.arrival.now :: v.arrival.now :: u.apiPassed ++ u.authPassed)
          (⟨v.arrival.now, v.arrival.authSuffix⟩ :: ⟨v.arrival.now, v.arrival.apiSuffix⟩ :: s.drawn) v.arrival.now
          ((v.limiters ip s.redis).2 (v.request ip).key)) := by
  intro u
  have hshared : Shared (v.request ip) u := hs.shared ip v
  cases hl : v.authLimited with
  | true =>
    rw [limiters_handle hl]
    rcases handle_cases hshared hn hapi hauth hne with ⟨ho, hload, hr⟩ | ⟨ho, hload, -, hr⟩ | ⟨ho, hload, hr⟩ <;>
      rw [show handle (v.request ip) v.arrival s.redis = handle (v.request ip) v.arrival u.redis from rfl, ho]
    · exact .inl ⟨rfl, hload, hr⟩
    · exact .inr (.inl ⟨rfl, hload, hr⟩)
    · exact .inr (.inr ⟨rfl, by omega, hr⟩)
  | false =>
    have hload : ((s.redis (v.request ip).key).counted 60000 v.arrival.now).length = u.load v.arrival.now :=
      (hshared.records.counted hn).trans (load_eq u v.arrival.now)
    rw [limiters_api hl, apiRateLimit, ← hload]
    by_cases hfull : 120 ≤ ((s.redis (v.request ip).key).counted 60000 v.arrival.now).length
    · obtain ⟨hv, hr⟩ := @rateLimiter_refused _ _ v.arrival.apiSuffix _ _ _ hfull
      rw [hv]
      exact .inl ⟨rfl, hfull, hr ▸ hshared.records.refused hn (Nat.le_refl _)⟩
    · obtain ⟨hv, hr⟩ := rateLimiter_allowed (Nat.not_le.1 hfull) (hshared.records.unseen hapi)
      rw [hv]
      exact .inr (.inl ⟨rfl, Nat.not_le.1 hfull, hr ▸ hshared.records.allowed hn (Nat.le_refl _)⟩)

theorem client_inv (h : Client.step ip s v = some s') :
    (s.now ≤ v.arrival.now ∧ ⟨v.arrival.now, v.arrival.apiSuffix⟩ ∉ s.drawn ∧
        ⟨v.arrival.now, v.arrival.authSuffix⟩ ∉ s.drawn ∧ v.arrival.apiSuffix ≠ v.arrival.authSuffix) ∧
      s' = {
        redis := (v.limiters ip s.redis).2, now := v.arrival.now
        drawn := ⟨v.arrival.now, v.arrival.authSuffix⟩ :: ⟨v.arrival.now, v.arrival.apiSuffix⟩ :: s.drawn
        apiPassed := if (v.limiters ip s.redis).1.1 then ⟨(v.request ip).key, v.arrival.now⟩ :: s.apiPassed else s.apiPassed
        authPassed := if (v.limiters ip s.redis).1.2 then ⟨(v.request ip).key, v.arrival.now⟩ :: s.authPassed else s.authPassed } := by
  unfold Client.step at h
  split at h
  · next hc => exact ⟨hc, (Option.some.inj h).symm⟩
  · cases h

theorem under_cons (pass : Pass) (passes : List Pass) (key : RateKey) :
    ((pass :: passes).filter (·.key == key)).map (·.now) =
      if pass.key = key then pass.now :: (passes.filter (·.key == key)).map (·.now)
      else (passes.filter (·.key == key)).map (·.now) := by
  by_cases h : pass.key = key <;> simp [h]

theorem step_tracked (hs : Tracked s) (h : Client.step ip s v = some s') : Tracked s' := by
  obtain ⟨⟨hn, hapi, hauth, hne⟩, rfl⟩ := client_inv h
  constructor
  · intro key
    by_cases hk : key = (v.request ip).key
    · subst hk
      rcases admit_cases hs hn hapi hauth hne with ⟨ho, -, hr⟩ | ⟨ho, -, hr⟩ | ⟨ho, -, hr⟩ <;>
        dsimp only [Client.under] <;> rw [ho] <;>
        simp only [if_true, Bool.false_eq_true, if_false, under_cons] <;>
        refine hr.congr (fun u => ?_) fun m hm => ?_
      · rfl
      · exact List.mem_cons_of_mem _ (List.mem_cons_of_mem _ hm)
      · rfl
      · exact List.mem_cons_of_mem _ hm
      · exact (List.Perm.filter _ (List.perm_middle.symm.cons _)).length_eq
      · exact hm
    · have hr := (hs.records key).later hn
      have hother : ∀ passes : List Pass, ∀ b : Bool,
          ((if b then (⟨(v.request ip).key, v.arrival.now⟩ : Pass) :: passes else passes).filter (·.key == key)).map (·.now) =
            (passes.filter (·.key == key)).map (·.now) := by
        intro passes b
        cases b with
        | true => exact (under_cons _ _ _).trans (if_neg fun he => hk he.symm)
        | false => rfl
      simp only [Client.under, hother, limiters_other hk]
      exact hr.congr (fun _ => rfl) fun m hm => List.mem_cons_of_mem _ (List.mem_cons_of_mem _ hm)
  · have hpast : ∀ x ∈ s.apiPassed ++ s.authPassed, x.now ≤ v.arrival.now := fun x hx => Nat.le_trans (hs.past x hx) hn
    have hgrow : ∀ passes : List Pass, ∀ b : Bool, (∀ x ∈ passes, x.now ≤ v.arrival.now) →
        ∀ x ∈ (if b then (⟨(v.request ip).key, v.arrival.now⟩ : Pass) :: passes else passes), x.now ≤ v.arrival.now := by
      intro passes b hp x hx
      cases b with
      | true => exact (List.mem_cons.1 hx).elim (fun he => he ▸ Nat.le_refl _) (hp x)
      | false => exact hp x hx
    intro x hx
    rcases List.mem_append.1 hx with hx | hx
    · exact hgrow _ _ (fun x hx => hpast x (List.mem_append_left _ hx)) x hx
    · exact hgrow _ _ (fun x hx => hpast x (List.mem_append_right _ hx)) x hx

/-- A step keeps the bound exactly when a request that has room under its key has room altogether. -/
theorem spanned_step (hs : Tracked s) (hc : s.Spanned) (h : Client.step ip s v = some s') :
    s'.Spanned ↔ Roomy ip s v s' := by
  obtain ⟨⟨hn, hapi, hauth, hne⟩, rfl⟩ := client_inv h
  have hpast : ∀ t ∈ s.apiPassed.map (·.now), t ≤ v.arrival.now := by
    intro t ht
    obtain ⟨x, hx, rfl⟩ := List.mem_map.1 ht
    exact Nat.le_trans (hs.past x (List.mem_append_left _ hx)) hn
  have hpass : (∀ t, (within 60000 t (v.arrival.now :: s.apiPassed.map (·.now))).length ≤ 120) ↔
      s.total v.arrival.now < 120 :=
    (within_cons_iff (by decide) hpast).trans (and_iff_right hc)
  unfold Client.Spanned Client.total Roomy
  rcases admit_cases hs hn hapi hauth hne with ⟨ho, hload, -⟩ | ⟨ho, hload, -⟩ | ⟨ho, hload, -⟩ <;> rw [ho]
  · exact iff_of_true hc fun hlt => absurd hlt (Nat.not_lt.2 hload)
  · exact hpass.trans ⟨fun ht _ => ht, fun ht => ht hload⟩
  · exact hpass.trans ⟨fun ht _ => ht, fun ht => ht hload⟩

end Step

/-- The requests of a client keep the limit over all routes exactly when each of them that finds
room under its own key finds room on all routes together. -/
theorem client_wide_iff (ip : Option String) (visits : List Visit) :
    Along (Client.step ip) (fun _ _ s' => s'.Spanned) .initial visits ↔ Along (Client.step ip) (Roomy ip) .initial visits :=
  along_iff (I := fun s => Tracked s ∧ s.Spanned) (fun _ _ _ hi hp h => ⟨step_tracked hi.1 h, hp⟩)
    (fun _ _ _ hi h => spanned_step hi.1 hi.2 h) ⟨initial_tracked, fun _ => Nat.zero_le _⟩

section Demo

/-- The `i`-th request of a client within one instant, for a document. -/
private def reading (documentId : String) (i : Nat) : Visit := ⟨.documents, "GET", "/" ++ documentId, ⟨0, 2 * i, 2 * i + 1⟩⟩

/-- 61 requests for one document and 60 for another. -/
def twoDocuments : List Visit :=
  (List.range 61).map (reading "6f1c1f4e-0000-4000-8000-000000000001") ++
    (List.range' 61 60).map (reading "6f1c1f4e-0000-4000-8000-000000000002")

/-- All 121 pass `apiRateLimit`. -/
theorem limit_per_route : ¬ Along (Client.step (some "203.0.113.7")) (fun _ _ s' => s'.Spanned) .initial twoDocuments := by
  intro hclaim
  have hrun : (run (Client.step (some "203.0.113.7")) .initial twoDocuments).map (fun s => s.total 0) = some 121 := by
    decide +kernel
  obtain ⟨s, hs, htotal⟩ := Option.map_eq_some_iff.1 hrun
  have hspan : s.Spanned := run_invariant (I := Client.Spanned) (fun _ _ _ _ hp _ => hp) (fun _ => Nat.zero_le _) hclaim hs
  have hle := hspan 0
  omega

end Demo
end DocAuto.RateLimit
