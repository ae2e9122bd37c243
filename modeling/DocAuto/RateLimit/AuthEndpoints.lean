import DocAuto.Process.Run
import DocAuto.RateLimit.SlidingWindow

/-! The two limiters of `/login` and `/register`. Both see the path relative to the mount
point `/api/v1/auth`, so both count in one sorted set. -/
namespace DocAuto.RateLimit
open Process

inductive AuthRoute where
  | register | login
  deriving DecidableEq, Repr

def AuthRoute.path : AuthRoute → String
  | register => "/register"
  | login => "/login"

/-- The request both limiters see. No user is set before `requireAuth`. -/
def AuthRoute.request (route : AuthRoute) (ip : String) : Request := ⟨"POST", route.path, some ip, none⟩

/-- A request of one client: its time, and the random suffixes its checks draw. -/
structure Arrival where
  now : Nat
  apiSuffix : Nat
  authSuffix : Nat
  deriving DecidableEq, Repr

inductive Outcome where
  | refusedByApi | refusedByAuth | handled
  deriving DecidableEq, Repr

/-- `app.use('/api/v1/auth', apiRateLimit, authRouter)`, then `router.post(path, authRateLimit, ...)`. -/
def handle (req : Request) (a : Arrival) (redis : Redis) : Outcome × Redis :=
  let (api, redis) := apiRateLimit req a.now a.apiSuffix redis
  if api.passes then
    let (auth, redis) := authRateLimit req a.now a.authSuffix redis
    (if auth.passes then .handled else .refusedByAuth, redis)
  else (.refusedByApi, redis)

/-- `apiPassed` and `authPassed` are the times of the requests each limiter let through,
newest first. -/
structure State where
  redis : Redis
  now : Nat
  drawn : List Member
  apiPassed : List Nat
  authPassed : List Nat

def initial : State := ⟨fun _ => .empty, 0, [], [], []⟩

/-- The next request of the client. Times do not decrease, and no member is drawn twice. -/
def step (req : Request) (s : State) (a : Arrival) : Option State :=
  if s.now ≤ a.now ∧ ⟨a.now, a.apiSuffix⟩ ∉ s.drawn ∧ ⟨a.now, a.authSuffix⟩ ∉ s.drawn ∧ a.apiSuffix ≠ a.authSuffix then
    let (outcome, redis) := handle req a s.redis
    some {
      redis := redis, now := a.now, drawn := ⟨a.now, a.authSuffix⟩ :: ⟨a.now, a.apiSuffix⟩ :: s.drawn
      apiPassed := if outcome = .refusedByApi then s.apiPassed else a.now :: s.apiPassed
      authPassed := if outcome = .handled then a.now :: s.authPassed else s.authPassed }
  else none

/-- One of the two windows is full. -/
def State.exhausted (s : State) (t : Nat) : Prop :=
  120 ≤ (within 60000 t s.apiPassed).length ∨ 10 ≤ (within (15 * 60000) t s.authPassed).length

instance (s : State) (t : Nat) : Decidable (s.exhausted t) := inferInstanceAs (Decidable (_ ∨ _))

/-- What both limiters have let through in the last minute. -/
def State.load (s : State) (t : Nat) : Nat :=
  (within 60000 t s.apiPassed).length + (within 60000 t s.authPassed).length

/-- The two limiters act as two independent windows: no 15 minutes see more than ten requests
handled, and only a full window refuses one. -/
structure Conjoined (req : Request) (arrivals : List Arrival) (s : State) : Prop where
  capped : ∀ t, (within (15 * 60000) t s.authPassed).length ≤ 10
  justified : Along (step req) (fun s a _ => (handle req a s.redis).1 ≠ .handled → s.exhausted a.now) initial arrivals

/-- The limiters have let nine requests through in the last minute, both together, exactly
when one of the windows is full. -/
def Fitting (s : State) (a : Arrival) (_ : State) : Prop := 9 ≤ s.load a.now ↔ s.exhausted a.now

section Handle
variable {req : Request} {a : Arrival} {s s' : State}

/-- The sorted set has what both limiters let through in the last minute. -/
structure Shared (req : Request) (s : State) : Prop where
  records : Records 60000 (s.apiPassed ++ s.authPassed) s.drawn s.now (s.redis req.key)
  past : ∀ t ∈ s.authPassed, t ≤ s.now

theorem initial_shared : Shared req initial := ⟨.empty, nofun⟩

theorem load_eq (s : State) (t : Nat) : (within 60000 t (s.apiPassed ++ s.authPassed)).length = s.load t := by
  rw [within, List.filter_append, List.length_append]
  rfl

/-- The outcome of a request by the load of the shared set, and what the set has afterwards. -/
theorem handle_cases (hs : Shared req s) (hn : s.now ≤ a.now) (hapi : ⟨a.now, a.apiSuffix⟩ ∉ s.drawn)
    (hauth : ⟨a.now, a.authSuffix⟩ ∉ s.drawn) (hne : a.apiSuffix ≠ a.authSuffix) :
    ((handle req a s.redis).1 = .refusedByApi ∧ 120 ≤ s.load a.now ∧
        Records 60000 (s.apiPassed ++ s.authPassed) s.drawn a.now ((handle req a s.redis).2 req.key)) ∨
      ((handle req a s.redis).1 = .refusedByAuth ∧ s.load a.now < 120 ∧ 9 ≤ s.load a.now ∧
        Records 60000 (a.now :: s.apiPassed ++ s.authPassed) (⟨a.now, a.apiSuffix⟩ :: s.drawn) a.now
          ((handle req a s.redis).2 req.key)) ∨
      ((handle req a s.redis).1 = .handled ∧ s.load a.now < 9 ∧
        Records 60000 (a.now :: a.now :: s.apiPassed ++ s.authPassed)
          (⟨a.now, a.authSuffix⟩ :: ⟨a.now, a.apiSuffix⟩ :: s.drawn) a.now ((handle req a s.redis).2 req.key)) := by
  have hload : ((s.redis req.key).counted 60000 a.now).length = s.load a.now :=
    (hs.records.counted hn).trans (load_eq s a.now)
  rw [← hload]
  by_cases hfull : 120 ≤ ((s.redis req.key).counted 60000 a.now).length
  · obtain ⟨hv, hr⟩ := @rateLimiter_refused _ _ a.apiSuffix _ _ _ hfull
    refine .inl ⟨?_, hfull, ?_⟩
    · simp only [handle, apiRateLimit, hv]
      rfl
    · simp only [handle, apiRateLimit, hv]
      exact hr ▸ hs.records.refused hn (Nat.le_refl _)
  · obtain ⟨hv, hr⟩ := rateLimiter_allowed (Nat.not_le.1 hfull) (hs.records.unseen hapi)
    have hrec := @Records.allowed _ _ a.apiSuffix _ _ _ _ _ hs.records hn (Nat.le_refl _)
    rw [← hr] at hrec
    set mid := (rateLimiter 120 60000 req a.now a.apiSuffix s.redis).2
    have hcount : ((mid req.key).counted (15 * 60000) a.now).length = ((s.redis req.key).counted 60000 a.now).length + 1 := by
      rw [hr, counted_after (by omega) (by omega), List.length_append]
      rfl
    have hhandle : handle req a s.redis =
        (if (rateLimiter 10 (15 * 60000) req a.now a.authSuffix mid).1.passes then .handled else .refusedByAuth,
          (rateLimiter 10 (15 * 60000) req a.now a.authSuffix mid).2) := by
      simp only [handle, apiRateLimit, hv]
      rfl
    rw [hhandle]
    refine .inr ?_
    by_cases hten : 10 ≤ ((mid req.key).counted (15 * 60000) a.now).length
    · obtain ⟨hv', hr'⟩ := @rateLimiter_refused _ _ a.authSuffix _ _ _ hten
      refine .inl ⟨by rw [hv']; rfl, Nat.not_le.1 hfull, by omega, ?_⟩
      exact hr' ▸ hrec.refused (Nat.le_refl _) (by omega)
    · have hunseen : (⟨a.now, a.authSuffix⟩ : Member) ∉ ⟨a.now, a.apiSuffix⟩ :: s.drawn := by
        simp [hauth, hne.symm]
      obtain ⟨hv', hr'⟩ := rateLimiter_allowed (Nat.not_le.1 hten) (hrec.unseen hunseen)
      refine .inr ⟨by rw [hv']; rfl, by omega, ?_⟩
      exact hr' ▸ hrec.allowed (Nat.le_refl _) (by omega)

private theorem step_inv (h : step req s a = some s') :
    (s.now ≤ a.now ∧ ⟨a.now, a.apiSuffix⟩ ∉ s.drawn ∧ ⟨a.now, a.authSuffix⟩ ∉ s.drawn ∧ a.apiSuffix ≠ a.authSuffix) ∧
      s'.redis = (handle req a s.redis).2 ∧ s'.now = a.now ∧
      s'.drawn = ⟨a.now, a.authSuffix⟩ :: ⟨a.now, a.apiSuffix⟩ :: s.drawn ∧
      s'.apiPassed = (if (handle req a s.redis).1 = .refusedByApi then s.apiPassed else a.now :: s.apiPassed) ∧
      s'.authPassed = if (handle req a s.redis).1 = .handled then a.now :: s.authPassed else s.authPassed := by
  simp only [step] at h
  split at h
  · next hc =>
    cases h
    exact ⟨hc, rfl, rfl, rfl, rfl, rfl⟩
  · cases h

theorem step_shared (hs : Shared req s) (h : step req s a = some s') : Shared req s' := by
  obtain ⟨⟨hn, hapi, hauth, hne⟩, hredis, hnow, hdrawn, hap, hau⟩ := step_inv h
  constructor
  · rw [hredis, hnow, hdrawn, hap, hau]
    rcases handle_cases hs hn hapi hauth hne with ⟨ho, -, hr⟩ | ⟨ho, -, -, hr⟩ | ⟨ho, -, hr⟩ <;> rw [ho] <;>
      refine hr.congr (fun u => ?_) fun m hm => ?_
    · rfl
    · exact List.mem_cons_of_mem _ (List.mem_cons_of_mem _ hm)
    · rfl
    · exact List.mem_cons_of_mem _ hm
    · exact (List.Perm.filter _ (List.perm_middle.symm.cons _)).length_eq
    · exact hm
  · intro t ht
    rw [hau] at ht
    rw [hnow]
    split at ht
    · rcases List.mem_cons.1 ht with rfl | ht
      · exact Nat.le_refl _
      · exact Nat.le_trans (hs.past t ht) hn
    · exact Nat.le_trans (hs.past t ht) hn

/-- The load decides: eight let through, and one more refused. -/
theorem handled_iff (hs : Shared req s) (h : step req s a = some s') :
    (handle req a s.redis).1 = .handled ↔ s.load a.now < 9 := by
  obtain ⟨⟨hn, hapi, hauth, hne⟩, -⟩ := step_inv h
  rcases handle_cases hs hn hapi hauth hne with ⟨ho, hl, -⟩ | ⟨ho, -, hl, -⟩ | ⟨ho, hl, -⟩ <;> rw [ho]
  · simp only [reduceCtorEq, false_iff]
    omega
  · simp only [reduceCtorEq, false_iff]
    omega
  · simpa using hl

private theorem capped_step (hs : Shared req s) (h : step req s a = some s') :
    (∀ t, (within (15 * 60000) t s'.authPassed).length ≤ 10) ↔ (∀ t, (within (15 * 60000) t s.authPassed).length ≤ 10) ∧
      ((handle req a s.redis).1 = .handled → (within (15 * 60000) a.now s.authPassed).length < 10) := by
  obtain ⟨⟨hn, -⟩, -, -, -, -, hau⟩ := step_inv h
  by_cases ho : (handle req a s.redis).1 = .handled
  · rw [hau, if_pos ho, within_cons_iff (by decide) fun x hx => Nat.le_trans (hs.past x hx) hn]
    exact and_congr_right fun _ => ⟨fun hc _ => hc, fun hc => hc ho⟩
  · rw [hau, if_neg ho]
    exact ⟨fun hc => ⟨hc, fun h => absurd h ho⟩, And.left⟩

end Handle

section Run
variable {req : Request} {arrivals : List Arrival} {s s' : State}

private theorem capped_run (hs : Shared req s) (h : run (step req) s arrivals = some s') :
    (∀ t, (within (15 * 60000) t s'.authPassed).length ≤ 10) ↔ (∀ t, (within (15 * 60000) t s.authPassed).length ≤ 10) ∧
      Along (step req) (fun s a _ => (handle req a s.redis).1 = .handled →
        (within (15 * 60000) a.now s.authPassed).length < 10) s arrivals := by
  induction arrivals generalizing s with
  | nil =>
    have : s = s' := by simpa [run] using h
    simp [this, Along]
  | cons a arrivals ih =>
    obtain ⟨m, hm, ht⟩ := run_cons_some h
    rw [ih (step_shared hs hm) ht, capped_step hs hm, along_cons hm, and_assoc]

/-- A sequence of requests sees two independent windows exactly when every request finds the
shared set as full as its own windows are. -/
theorem limits_conjoined_iff (route : AuthRoute) (ip : String)
    (h : run (step (route.request ip)) initial arrivals = some s) :
    Conjoined (route.request ip) arrivals s ↔ Along (step (route.request ip)) Fitting initial arrivals := by
  have hcapped := capped_run initial_shared h
  have hiff : Along (step (route.request ip)) Fitting initial arrivals ↔
      Along (step (route.request ip)) (fun s a _ => ((handle (route.request ip) a s.redis).1 = .handled →
        (within (15 * 60000) a.now s.authPassed).length < 10) ∧
        ((handle (route.request ip) a s.redis).1 ≠ .handled → s.exhausted a.now)) initial arrivals := by
    refine along_congr (fun _ _ _ => step_shared) (fun s a s' hs hstep => ?_) initial_shared
    have hload : (within 60000 a.now s.apiPassed).length ≤ s.load a.now := Nat.le_add_right _ _
    rw [Ne, handled_iff hs hstep, Fitting, State.exhausted]
    omega
  rw [hiff, along_and]
  constructor
  · exact fun hc => ⟨(hcapped.1 hc.capped).2, hc.justified⟩
  · exact fun hc => ⟨hcapped.2 ⟨fun t => Nat.zero_le 10, hc.1⟩, hc.2⟩

end Run

section Demo

def demoRequest : Request := AuthRoute.login.request "203.0.113.7"

/-- Requests to log in, the `i`-th of them at `times i`. -/
def demoArrivals (times : List Nat) : List Arrival := times.mapIdx fun i t => ⟨t, 2 * i, 2 * i + 1⟩

/-- Of six requests within a second the sixth is refused, though five have gone through either limiter. -/
theorem sixth_refused : ∃ s, run (step demoRequest) initial (demoArrivals [0, 1, 2, 3, 4, 5]) = some s ∧
    ¬ Conjoined demoRequest (demoArrivals [0, 1, 2, 3, 4, 5]) s := by
  obtain ⟨s, hs⟩ := Option.isSome_iff_exists.1
    (by decide +kernel : (run (step demoRequest) initial (demoArrivals [0, 1, 2, 3, 4, 5])).isSome = true)
  refine ⟨s, hs, fun hc => absurd hc.justified ?_⟩
  decide +kernel

/-- Five requests fit. -/
theorem limits_conjoined_five : ∃ s, run (step demoRequest) initial (demoArrivals [0, 1, 2, 3, 4]) = some s ∧
    Conjoined demoRequest (demoArrivals [0, 1, 2, 3, 4]) s := by
  obtain ⟨s, hs⟩ := Option.isSome_iff_exists.1
    (by decide +kernel : (run (step demoRequest) initial (demoArrivals [0, 1, 2, 3, 4])).isSome = true)
  refine ⟨s, hs, (limits_conjoined_iff .login "203.0.113.7" hs).2 ?_⟩
  unfold Fitting
  decide +kernel

/-- Eleven requests within three minutes, five a minute, are all handled. -/
example : (run (step demoRequest) initial (demoArrivals ([0, 1, 2, 3, 4, 60004, 60005, 60006, 60007, 60008, 120008]))).map
    (fun s => (within (15 * 60000) 120008 s.authPassed).length) = some 11 := by
  decide +kernel

end Demo
end DocAuto.RateLimit
