import DocAuto.Auth.Tokens
import DocAuto.Json.Members

/-! Whose token it is. Redis holds the JSON text of the data, keys may expire at any time, and
calls return what they have minted; every step passes the identity of a login on as it is. -/
namespace DocAuto.Auth
open Process

/-- The texts of the roles. -/
def roleText : UserRole → String
  | .admin => "admin"
  | .reviewer => "reviewer"
  | .viewer => "viewer"

def roleOfText (s : String) : Option UserRole := [UserRole.admin, .reviewer, .viewer].find? (roleText · == s)

/-- A UUID stands in a text as its numeral. -/
def uuidOfText (s : String) : Uuid := Nat.ofDigitChars 10 s.toList 0

theorem uuidOfText_repr (id : Uuid) : uuidOfText id.repr = id := by
  simp [uuidOfText]

namespace RefreshTokenData

/-- `JSON.stringify(data)`. -/
def encode (data : RefreshTokenData) : String :=
  Json.stringify [("userId", data.userId.repr), ("tenantId", data.tenantId.repr), ("email", data.email),
    ("role", roleText data.role)]

/-- `JSON.parse(raw) as RefreshTokenData`. -/
def decode (raw : String) : Option RefreshTokenData := do
  let members ← Json.parse raw
  let userId ← Json.field "userId" members
  let tenantId ← Json.field "tenantId" members
  let email ← Json.field "email" members
  let role ← roleOfText (← Json.field "role" members)
  return ⟨uuidOfText userId, uuidOfText tenantId, email, role⟩

theorem decode_encode (data : RefreshTokenData) : decode data.encode = some data := by
  have hrole : roleOfText (roleText data.role) = some data.role := by cases data.role <;> decide
  unfold decode encode
  rw [Json.parse_stringify]
  simp [Json.field, uuidOfText_repr, hrole]

end RefreshTokenData

/-- The program of a call, with the access token and the refresh token that it returns. -/
def Call.grants : Call → Proc (Option (AccessToken × TokenId))
  | login user => do return some (← Auth.login user)
  | refresh oldTokenId => do return some (← Auth.refresh oldTokenId)
  | logout tokenId => do
    Auth.logout tokenId
    return none

namespace Sessions

/-- `store` has the texts in Redis, `drawn` the token ids drawn so far, and `logins` the first token
of every login and its user. -/
structure State where
  store : TokenId → Option String
  calls : CallId → Option (Call × Proc (Option (AccessToken × TokenId)))
  drawn : List TokenId
  history : List Deed
  logins : List (TokenId × RefreshTokenData)

def initial : State := ⟨fun _ => none, fun _ => none, [], [], []⟩

inductive Action where
  | call (id : CallId) (call : Call)
  | step (id : CallId) (draw : TokenId)
  | expire (tokenId : TokenId)
  deriving DecidableEq, Repr

/-- A text that is no token data makes `JSON.parse` throw. -/
def exec : (c : RedisCmd) → TokenId → State → Option (Except AppError c.Resp × State)
  | .get tokenId, _, s =>
    match (s.store tokenId).filter (· ≠ "") with
    | none => some (.ok none, s)
    | some raw =>
      match RefreshTokenData.decode raw with
      | some data => some (.ok (some data), s)
      | none => some (.error (.internal "Unexpected token"), s)
  | .del tokenId, _, s => some (.ok (), { s with store := Function.update s.store tokenId none })
  | .setex _ data, draw, s =>
    if draw ∈ s.drawn then none
    else some (.ok draw, { s with store := Function.update s.store draw (some data.encode), drawn := draw :: s.drawn })

/-- The login that a command completes. -/
def loggedIn : Call → RedisCmd → TokenId → List (TokenId × RefreshTokenData)
  | .login user, .setex _ _, draw => [(draw, user)]
  | _, _, _ => []

def step (s : State) : Action → Option State
  | .call id call =>
    if (s.calls id).isSome then none
    else some { s with calls := Function.update s.calls id (some (call, call.grants)) }
  | .step id draw =>
    match s.calls id with
    | some (call, .call c k) =>
      match exec c draw s with
      | some (r, s') => some { s' with
          calls := Function.update s.calls id (some (call, k r))
          history := (deed call c draw).toList ++ s.history
          logins := loggedIn call c draw ++ s.logins }
      | none => none
    | _ => none
  | .expire tokenId => some { s with store := Function.update s.store tokenId none }

/-- The token descends from a login of the user. -/
def Descends (s : State) (tokenId : TokenId) (user : RefreshTokenData) : Prop :=
  ∃ first, origin s.history tokenId = some first ∧ (first, user) ∈ s.logins

/-- Tokens of both kinds carry the identity of the one login they descend from, and a refresh
hands out nobody else's. -/
structure Identified (s : State) : Prop where
  oneLogin : (s.logins.map Prod.fst).Nodup
  live : ∀ tokenId raw, s.store tokenId = some raw →
    ∃ user, Descends s tokenId user ∧ RefreshTokenData.decode raw = some user
  granted : ∀ id call access tokenId, s.calls id = some (call, .ret (some (access, tokenId))) →
    ∃ user, Descends s tokenId user ∧ access = signAccessToken user
  refreshed : ∀ id old access new, s.calls id = some (.refresh old, .ret (some (access, new))) →
    ∃ user, Descends s old user ∧ Descends s new user ∧ access = signAccessToken user

abbrev Granting := Proc (Option (AccessToken × TokenId))

/-- What is left of a call that writes data under a new token and then hands out both tokens. -/
def Mints (data : RefreshTokenData) (k : Except AppError TokenId → Granting) : Prop :=
  ∀ new, k (.ok new) = .ret (some (signAccessToken data, new))

/-- What is left of a refresh that has read data and deletes its token. -/
def Rotates (data : RefreshTokenData) (k : Except AppError Unit → Granting) : Prop :=
  ∃ k', k (.ok ()) = .call (.setex ttlSeconds data) k' ∧ Mints data k'

/-- How far a call is; `L` tells which tokens descend from whose login. -/
inductive Progress (L : TokenId → RefreshTokenData → Prop) : Call → Granting → Prop
  | login {user ttl k} : Mints user k → Progress L (.login user) (.call (.setex ttl user) k)
  | minted {user new} : L new user → Progress L (.login user) (.ret (some (signAccessToken user, new)))
  | refresh {old k} : (∀ e, k (.error e) = .throw e) → (∃ e, k (.ok none) = .throw e) →
    (∀ data, ∃ k', k (.ok (some data)) = .call (.del old) k' ∧ Rotates data k') →
    Progress L (.refresh old) (.call (.get old) k)
  | found {old data k} : L old data → Rotates data k → Progress L (.refresh old) (.call (.del old) k)
  | deleted {old data k} : L old data → Mints data k → Progress L (.refresh old) (.call (.setex ttlSeconds data) k)
  | rotated {old new data} : L old data → L new data →
    Progress L (.refresh old) (.ret (some (signAccessToken data, new)))
  | logout {tokenId k} : k (.ok ()) = .ret none → Progress L (.logout tokenId) (.call (.del tokenId) k)
  | loggedOut {tokenId} : Progress L (.logout tokenId) (.ret none)
  | failed {call e} : Progress L call (.throw e)

theorem grants_progress (L : TokenId → RefreshTokenData → Prop) (call : Call) : Progress L call call.grants := by
  cases call with
  | login user => exact .login fun _ => rfl
  | refresh old => exact .refresh (fun _ => rfl) ⟨_, rfl⟩ fun _ => ⟨_, rfl, _, rfl, fun _ => rfl⟩
  | logout tokenId => exact .logout rfl

theorem Progress.mono {L L' : TokenId → RefreshTokenData → Prop} {call : Call} {p : Granting} (h : Progress L call p)
    (hL : ∀ tokenId user, L tokenId user → L' tokenId user) : Progress L' call p := by
  cases h with
  | login hk => exact .login hk
  | minted h => exact .minted (hL _ _ h)
  | refresh he hn hd => exact .refresh he hn hd
  | found h hk => exact .found (hL _ _ h) hk
  | deleted h hk => exact .deleted (hL _ _ h) hk
  | rotated h h' => exact .rotated (hL _ _ h) (hL _ _ h')
  | logout hk => exact .logout hk
  | loggedOut => exact .loggedOut
  | failed => exact .failed

structure Inv (s : State) : Prop where
  progress : ∀ id call p, s.calls id = some (call, p) → Progress (Descends s) call p
  live : ∀ tokenId raw, s.store tokenId = some raw → ∃ user, Descends s tokenId user ∧ raw = user.encode
  drawn : ∀ tokenId first, origin s.history tokenId = some first → tokenId ∈ s.drawn
  logins : ∀ login ∈ s.logins, login.1 ∈ s.drawn
  oneLogin : (s.logins.map Prod.fst).Nodup

section Steps
variable {s s' : State} {id : CallId} {call : Call} {p : Granting} {c : RedisCmd} {draw tokenId : TokenId}
  {user : RefreshTokenData}

/-- A step that stores nothing. -/
theorem Inv.quiet (hi : Inv s) (hcalls : ∀ i call p, s'.calls i = some (call, p) → s.calls i = some (call, p) ∨ Progress (Descends s) call p)
    (hstore : ∀ tokenId raw, s'.store tokenId = some raw → s.store tokenId = some raw) (hdrawn : s'.drawn = s.drawn)
    (horigin : ∀ a, origin s'.history a = origin s.history a) (hlogins : s'.logins = s.logins) : Inv s' := by
  have hL : ∀ tokenId user, Descends s tokenId user → Descends s' tokenId user := by
    rintro tokenId user ⟨first, hf, hl⟩
    exact ⟨first, (horigin _).trans hf, hlogins ▸ hl⟩
  refine ⟨fun i call p hp => ?_, fun tokenId raw hraw => ?_, fun a b h => ?_, ?_, hlogins ▸ hi.oneLogin⟩
  · exact (hcalls i call p hp).elim (fun h => (hi.progress i call p h).mono hL) fun h => h.mono hL
  · obtain ⟨user, hu, hr⟩ := hi.live tokenId raw (hstore tokenId raw hraw)
    exact ⟨user, hL _ _ hu, hr⟩
  · exact hdrawn ▸ hi.drawn a b ((horigin a).symm.trans h)
  · rw [hlogins, hdrawn]
    exact hi.logins

/-- A login is entered under a token that no earlier one has. -/
theorem Inv.entered (hi : Inv s) (hnew : draw ∉ s.drawn) {added : List (TokenId × RefreshTokenData)}
    (hfst : added.map Prod.fst = [] ∨ added.map Prod.fst = [draw]) :
    (∀ login ∈ added ++ s.logins, login.1 ∈ draw :: s.drawn) ∧ ((added ++ s.logins).map Prod.fst).Nodup := by
  refine ⟨fun login hl => ?_, ?_⟩
  · rcases List.mem_append.1 hl with hl | hl
    · have hmem : login.1 ∈ added.map Prod.fst := List.mem_map.2 ⟨login, hl, rfl⟩
      rcases hfst with hfst | hfst
      · rw [hfst] at hmem
        cases hmem
      · rw [hfst, List.mem_singleton] at hmem
        exact hmem ▸ List.mem_cons_self
    · exact List.mem_cons_of_mem _ (hi.logins login hl)
  · rw [List.map_append]
    rcases hfst with hfst | hfst
    · rw [hfst]
      exact hi.oneLogin
    · rw [hfst]
      refine List.nodup_cons.2 ⟨fun h => ?_, hi.oneLogin⟩
      obtain ⟨login, hl, he⟩ := List.mem_map.1 h
      exact hnew (he ▸ hi.logins login hl)

/-- A new token is stored, which descends from a login of its user. -/
theorem Inv.mint (hi : Inv s) {first : TokenId} (hnew : draw ∉ s.drawn)
    (hcalls : s'.calls = Function.update s.calls id (some (call, p)))
    (hstore : s'.store = Function.update s.store draw (some user.encode)) (hdrawn : s'.drawn = draw :: s.drawn)
    (horigin : ∀ a, origin s'.history a = if a = draw then some first else origin s.history a)
    (hlogins : ∃ added, s'.logins = added ++ s.logins ∧ (added.map Prod.fst = [] ∨ added.map Prod.fst = [draw]))
    (hfirst : (first, user) ∈ s'.logins)
    (hp : Descends s' draw user → (∀ t u, Descends s t u → Descends s' t u) → Progress (Descends s') call p) :
    Inv s' := by
  obtain ⟨added, hadd, hfst⟩ := hlogins
  have hL : ∀ tokenId user, Descends s tokenId user → Descends s' tokenId user := by
    rintro tokenId user ⟨f, hf, hl⟩
    have hne : tokenId ≠ draw := fun he => hnew (he ▸ hi.drawn _ _ hf)
    exact ⟨f, (horigin _).trans ((if_neg hne).trans hf), hadd ▸ List.mem_append_right _ hl⟩
  have hself : Descends s' draw user := ⟨first, (horigin draw).trans (if_pos rfl), hfirst⟩
  refine ⟨fun i call' p' hp' => ?_, fun tokenId raw hraw => ?_, fun a b h => ?_, ?_, ?_⟩
  · rw [hcalls] at hp'
    by_cases hid : i = id
    · subst hid
      rw [Function.update_self] at hp'
      cases hp'
      exact hp hself hL
    · rw [Function.update_of_ne hid] at hp'
      exact (hi.progress i call' p' hp').mono hL
  · rw [hstore] at hraw
    by_cases ht : tokenId = draw
    · subst ht
      rw [Function.update_self] at hraw
      exact ⟨user, hself, (Option.some.inj hraw).symm⟩
    · rw [Function.update_of_ne ht] at hraw
      obtain ⟨u, hu, hr⟩ := hi.live tokenId raw hraw
      exact ⟨u, hL _ _ hu, hr⟩
  · rw [hdrawn]
    rw [horigin] at h
    split at h
    · next ha => exact ha ▸ List.mem_cons_self
    · exact List.mem_cons_of_mem _ (hi.drawn a b h)
  · rw [hdrawn, hadd]
    exact (hi.entered hnew hfst).1
  · rw [hadd]
    exact (hi.entered hnew hfst).2

/-- Redis knows nothing of calls. -/
theorem exec_frame {r : Except AppError c.Resp} (h : exec c draw s = some (r, s')) :
    s'.calls = s.calls ∧ s'.history = s.history ∧ s'.logins = s.logins := by
  cases c with
  | get tokenId =>
    simp only [exec] at h
    split at h
    · cases h
      exact ⟨rfl, rfl, rfl⟩
    · split at h <;> cases h <;> exact ⟨rfl, rfl, rfl⟩
  | del tokenId =>
    cases h
    exact ⟨rfl, rfl, rfl⟩
  | setex ttl data =>
    simp only [exec] at h
    split at h
    · cases h
    · cases h
      exact ⟨rfl, rfl, rfl⟩

/-- What one command of a call does. -/
theorem step_cases (h : step s (.step id draw) = some s') :
    ∃ call c k r s₁, s.calls id = some (call, .call c k) ∧ exec c draw s = some (r, s₁) ∧
      s'.calls = Function.update s.calls id (some (call, k r)) ∧ s'.history = (deed call c draw).toList ++ s.history ∧
      s'.logins = loggedIn call c draw ++ s.logins ∧ s'.store = s₁.store ∧ s'.drawn = s₁.drawn := by
  simp only [step] at h
  split at h
  · next call c k hc =>
    split at h
    · next r s₁ hx =>
      obtain ⟨hcalls, hhistory, hlogins⟩ := exec_frame hx
      cases h
      exact ⟨call, c, k, r, s₁, hc, hx, hcalls ▸ rfl, hhistory ▸ rfl, hlogins ▸ rfl, rfl, rfl⟩
    · cases h
  · cases h

/-- The call of the step, and the others. -/
theorem calls_update {i : CallId} {call' : Call} {q : Granting} (hcalls : s'.calls = Function.update s.calls id (some (call, p)))
    (hp : Progress (Descends s) call p) (hq : s'.calls i = some (call', q)) :
    s.calls i = some (call', q) ∨ Progress (Descends s) call' q := by
  rw [hcalls] at hq
  by_cases hi : i = id
  · subst hi
    rw [Function.update_self] at hq
    cases hq
    exact .inr hp
  · rw [Function.update_of_ne hi] at hq
    exact .inl hq

theorem store_removed {raw : String} (hstore : s'.store = Function.update s.store tokenId none) (a : TokenId)
    (h : s'.store a = some raw) : s.store a = some raw := by
  rw [hstore] at h
  by_cases ha : a = tokenId
  · rw [ha, Function.update_self] at h
    cases h
  · rwa [Function.update_of_ne ha] at h

theorem step_inv {a : Action} (hi : Inv s) (h : step s a = some s') : Inv s' := by
  cases a with
  | call i call =>
    simp only [step] at h
    split at h
    · cases h
    obtain rfl := Option.some.inj h
    exact hi.quiet (fun _ _ _ hq => calls_update rfl (grants_progress _ call) hq) (fun _ _ h => h) rfl (fun _ => rfl) rfl
  | expire tokenId =>
    obtain rfl := Option.some.inj h
    exact hi.quiet (fun _ _ _ hq => .inl hq) (fun a raw h => store_removed rfl a h) rfl (fun _ => rfl) rfl
  | step i draw =>
    obtain ⟨call, c, k, r, s₁, hc, hx, hcalls, hhistory, hlogins, hstore, hdrawn⟩ := step_cases h
    cases hi.progress i call _ hc with
    | @login user ttl _ hk =>
      simp only [exec] at hx
      split at hx
      · cases hx
      next hnew =>
      cases hx
      refine hi.mint hnew hcalls hstore hdrawn (fun a => ?_) ⟨_, hlogins, .inr rfl⟩
        (by rw [hlogins]; exact List.mem_cons_self) fun hself _ => ?_
      · rw [hhistory]
        rfl
      · exact hk draw ▸ .minted hself
    | @refresh old _ he hn hd =>
      simp only [exec] at hx
      split at hx
      · cases hx
        obtain ⟨e, hn⟩ := hn
        exact hi.quiet (fun _ _ _ hq => calls_update hcalls (hn ▸ .failed) hq) (fun _ _ h => hstore ▸ h) hdrawn
          (fun _ => by rw [hhistory]; rfl) hlogins
      · next raw hraw =>
        obtain ⟨user, hu, rfl⟩ := hi.live old raw (Option.filter_eq_some_iff.1 hraw).1
        rw [RefreshTokenData.decode_encode] at hx
        cases hx
        obtain ⟨k', hk, hrotates⟩ := hd user
        exact hi.quiet (fun _ _ _ hq => calls_update hcalls (hk ▸ .found hu hrotates) hq) (fun _ _ h => hstore ▸ h) hdrawn
          (fun _ => by rw [hhistory]; rfl) hlogins
    | @found old data _ hold hk =>
      cases hx
      obtain ⟨k', hk, hmints⟩ := hk
      exact hi.quiet (fun _ _ _ hq => calls_update hcalls (hk ▸ .deleted hold hmints) hq) (fun a _ => store_removed hstore a) hdrawn
        (fun _ => by rw [hhistory]; rfl) hlogins
    | @deleted old data _ hold hk =>
      simp only [exec] at hx
      split at hx
      · cases hx
      next hnew =>
      cases hx
      obtain ⟨first, hfirst, hlogin⟩ := hold
      refine hi.mint hnew hcalls hstore hdrawn (fun a => ?_) ⟨_, hlogins, .inl rfl⟩ (by rw [hlogins]; exact hlogin) fun hself hL => ?_
      · rw [hhistory, ← hfirst]
        rfl
      · exact hk draw ▸ .rotated (hL _ _ ⟨first, hfirst, hlogin⟩) hself
    | @logout tokenId _ hk =>
      cases hx
      exact hi.quiet (fun _ _ _ hq => calls_update hcalls (hk ▸ .loggedOut) hq) (fun a _ => store_removed hstore a) hdrawn
        (fun _ => by rw [hhistory]; rfl) hlogins

theorem initial_inv : Inv initial where
  progress _ _ _ h := by cases h
  live _ _ h := by cases h
  drawn _ _ h := by cases h
  logins _ h := absurd h List.not_mem_nil
  oneLogin := List.nodup_nil

end Steps

/-- Every token of both kinds carries the identity of the login it descends from. -/
theorem sessions_identified (actions : List Action) (s : State) (h : run step initial actions = some s) : Identified s := by
  have hi : Inv s := run_inductive (fun _ _ _ hi hs => step_inv hi hs) initial_inv h
  refine ⟨hi.oneLogin, fun tokenId raw hraw => ?_, fun id call access tokenId hc => ?_, fun id old access new hc => ?_⟩
  · obtain ⟨user, hu, rfl⟩ := hi.live tokenId raw hraw
    exact ⟨user, hu, RefreshTokenData.decode_encode user⟩
  · cases hi.progress id call _ hc with
    | minted hnew => exact ⟨_, hnew, rfl⟩
    | rotated _ hnew => exact ⟨_, hnew, rfl⟩
  · cases hi.progress id _ _ hc with
    | rotated hold hnew => exact ⟨_, hold, hnew, rfl⟩

section Demo

/-- Two users log in, and two refreshes of the first one's token both read it before one deletes it. -/
private def raceOfTwo : List Action :=
  [.call 1 (.login ⟨2, 1, "alice@acme.test", .admin⟩), .call 2 (.login ⟨4, 3, "bob@other.test", .viewer⟩), .step 1 5, .step 2 6,
    .call 3 (.refresh 5), .call 4 (.refresh 5), .step 3 0, .step 4 0, .step 3 0, .step 3 7, .expire 7, .step 4 0, .step 4 8]

theorem sessions_identified_race : ∃ s, run step initial raceOfTwo = some s ∧ Identified s ∧ (s.store 8).isSome := by
  have hrun : (run step initial raceOfTwo).map (fun s => (s.store 8).isSome) = some true := by decide +kernel
  obtain ⟨s, hs, hlive⟩ := Option.map_eq_some_iff.1 hrun
  exact ⟨s, hs, sessions_identified raceOfTwo s hs, hlive⟩

end Demo
end Sessions
end DocAuto.Auth
