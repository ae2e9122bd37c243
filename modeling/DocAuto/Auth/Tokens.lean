import DocAuto.Database.Statement
import DocAuto.Process.Run
import Mathlib.Logic.Function.Basic

/-! Refresh tokens. The Redis commands of the logins, refreshes and logouts in flight take
turns, and every interleaving of them is a run. -/
namespace DocAuto

def AppError.unauthorized (message : String) : AppError := ⟨message, 401, "UNAUTHORIZED"⟩

namespace Auth
open Process

abbrev TokenId := Uuid

structure RefreshTokenData where
  userId : Uuid
  tenantId : Uuid
  email : String
  role : UserRole
  deriving DecidableEq, Repr

/-- `setex` writes under a UUID drawn for it, which is its answer. -/
inductive RedisCmd where
  | get (tokenId : TokenId)
  | del (tokenId : TokenId)
  | setex (ttlSeconds : Nat) (data : RefreshTokenData)
  deriving DecidableEq, Repr

@[reducible] def RedisCmd.Resp : RedisCmd → Type
  | .get _ => Option RefreshTokenData
  | .del _ => Unit
  | .setex _ _ => TokenId

abbrev Proc := Program RedisCmd RedisCmd.Resp AppError

def redis (c : RedisCmd) : Proc c.Resp := Program.perform c

def ttlSeconds : Nat := 7 * 24 * 60 * 60

def storeRefreshToken (data : RefreshTokenData) : Proc TokenId := redis (.setex ttlSeconds data)

def getRefreshToken (tokenId : TokenId) : Proc (Option RefreshTokenData) := redis (.get tokenId)

def revokeRefreshToken (tokenId : TokenId) : Proc Unit := redis (.del tokenId)

/-- The pipeline sends its two commands together, but not as a transaction. -/
def rotateRefreshToken (oldTokenId : TokenId) : Proc (Option (TokenId × RefreshTokenData)) := do
  let existing ← getRefreshToken oldTokenId
  match existing with
  | none => return none
  | some existing =>
    redis (.del oldTokenId)
    let newTokenId ← redis (.setex ttlSeconds existing)
    return some (newTokenId, existing)

/-- The claims of an access token. -/
structure AccessToken where
  sub : Uuid
  tenantId : Uuid
  email : String
  role : UserRole
  deriving DecidableEq, Repr

def signAccessToken (data : RefreshTokenData) : AccessToken := ⟨data.userId, data.tenantId, data.email, data.role⟩

/-- The end of a login: the user has been found and the password matches. -/
def login (user : RefreshTokenData) : Proc (AccessToken × TokenId) := do
  let refreshToken ← storeRefreshToken user
  return (signAccessToken user, refreshToken)

def refresh (oldTokenId : TokenId) : Proc (AccessToken × TokenId) := do
  let result ← rotateRefreshToken oldTokenId
  match result with
  | none => throw (.unauthorized "Invalid or expired refresh token")
  | some (newTokenId, data) => return (signAccessToken data, newTokenId)

def logout (tokenId : TokenId) : Proc Unit := revokeRefreshToken tokenId

inductive Call where
  | login (user : RefreshTokenData)
  | refresh (oldTokenId : TokenId)
  | logout (tokenId : TokenId)
  deriving DecidableEq, Repr

namespace Call

def program : Call → Proc Unit
  | login user => (Auth.login user).void
  | refresh oldTokenId => (Auth.refresh oldTokenId).void
  | logout tokenId => Auth.logout tokenId

def presented : Call → List TokenId
  | login _ => []
  | refresh tokenId | logout tokenId => [tokenId]

end Call

/-- What a call has done to the tokens. -/
inductive Deed where
  | loggedIn (tokenId : TokenId)
  | rotated (oldTokenId newTokenId : TokenId)
  | loggedOut (tokenId : TokenId)
  deriving DecidableEq, Repr

structure Entry where
  data : RefreshTokenData
  expiresAt : Nat
  deriving DecidableEq, Repr

abbrev CallId := Nat

/-- `known` holds every token id stored or presented so far, and `history` what has been
done, newest first. -/
structure State where
  now : Nat
  store : TokenId → Option Entry
  calls : CallId → Option (Call × Proc Unit)
  known : List TokenId
  history : List Deed

def initial : State := ⟨0, fun _ => none, fun _ => none, [], []⟩

inductive Action where
  | call (id : CallId) (call : Call)
  | step (id : CallId) (draw : TokenId)
  | tick
  deriving DecidableEq, Repr

/-- The entry of a key, unless it has expired. -/
def State.entry (s : State) (tokenId : TokenId) : Option Entry :=
  (s.store tokenId).filter fun e => s.now < e.expiresAt

def RedisCmd.exec : (c : RedisCmd) → TokenId → State → Option (c.Resp × State)
  | .get tokenId, _, s => some ((s.entry tokenId).map (·.data), s)
  | .del tokenId, _, s => some ((), { s with store := Function.update s.store tokenId none })
  | .setex ttl data, draw, s =>
    if draw ∈ s.known then none
    else some (draw, { s with
      store := Function.update s.store draw (some ⟨data, s.now + ttl⟩), known := draw :: s.known })

/-- What the command of a call does to the tokens. -/
def deed : Call → RedisCmd → TokenId → Option Deed
  | .login _, .setex _ _, draw => some (.loggedIn draw)
  | .refresh oldTokenId, .setex _ _, draw => some (.rotated oldTokenId draw)
  | .logout tokenId, .del _, _ => some (.loggedOut tokenId)
  | _, _, _ => none

def step (s : State) : Action → Option State
  | .call id call =>
    if (s.calls id).isSome then none
    else some { s with
      calls := Function.update s.calls id (some (call, call.program)), known := call.presented ++ s.known }
  | .step id draw =>
    match s.calls id with
    | some (call, .call c k) =>
      match c.exec draw s with
      | some (r, s') => some { s' with
          calls := Function.update s.calls id (some (call, k (.ok r)))
          history := (deed call c draw).toList ++ s.history }
      | none => none
    | _ => none
  | .tick => some { s with now := s.now + 1 }

/-- The token of the login from which a token descends. -/
def origin : List Deed → TokenId → Option TokenId
  | [], _ => none
  | .loggedIn new :: h, tokenId => if tokenId = new then some new else origin h tokenId
  | .rotated old new :: h, tokenId => if tokenId = new then origin h old else origin h tokenId
  | .loggedOut _ :: h, tokenId => origin h tokenId

def Deed.rotates (tokenId : TokenId) : Deed → Bool
  | .rotated old _ => old == tokenId
  | _ => false

/-- A token id is rotated at most once, and not after its logout; of the tokens of one
login, one at most is live. -/
structure SingleUse (s : State) : Prop where
  rotatedOnce : ∀ tokenId, s.history.countP (Deed.rotates tokenId) ≤ 1
  oneLive : ∀ a b, (s.entry a).isSome → (s.entry b).isSome → origin s.history a = origin s.history b → a = b
  loggedOut : s.history.Pairwise fun later earlier => ∀ tokenId, later.rotates tokenId → earlier ≠ .loggedOut tokenId

/-- The command with which a call in flight goes on. -/
def State.issues (s : State) (id : CallId) : Option (Call × RedisCmd) :=
  match s.calls id with
  | some (call, .call c _) => some (call, c)
  | _ => none

/-- A refresh deletes a key that is still there, and no logout deletes the key between the
two commands of its pipeline. -/
def Orderly (s : State) : Action → State → Prop
  | .step id _, _ =>
    match s.issues id with
    | some (.refresh oldTokenId, .del _) => (s.store oldTokenId).isSome
    | some (.logout tokenId, .del _) => ∀ other data, s.issues other ≠ some (.refresh tokenId, .setex ttlSeconds data)
    | _ => True
  | _, _ => True

section Demo

def demoLogin : List Action := [.call 1 (.login ⟨2, 1, "alice@acme.test", .admin⟩), .step 1 5]

/-- Two refreshes both read the token before either deletes it. -/
def demoRace : List Action :=
  demoLogin ++ [.call 2 (.refresh 5), .call 3 (.refresh 5), .step 2 0, .step 3 0, .step 2 0, .step 2 6,
    .step 3 0, .step 3 7]

/-- The token is rotated twice, and its login ends up with two live tokens. -/
theorem rotated_twice : ∃ s, run step initial demoRace = some s ∧ ¬ SingleUse s ∧
    (s.entry 6).isSome ∧ (s.entry 7).isSome ∧ origin s.history 6 = origin s.history 7 := by
  obtain ⟨s, hs⟩ := Option.isSome_iff_exists.1 (by decide +kernel : (run step initial demoRace).isSome = true)
  have h : ((run step initial demoRace).any fun s => (s.entry 6).isSome && (s.entry 7).isSome &&
      origin s.history 6 == origin s.history 7) = true := by decide +kernel
  rw [hs] at h
  simp only [Option.any_some, Bool.and_eq_true, beq_iff_eq] at h
  exact ⟨s, hs, fun hu => absurd (hu.oneLive 6 7 h.1.1 h.1.2 h.2) (by decide), h.1.1, h.1.2, h.2⟩

/-- A logout between the read and the pipeline of a refresh does not stop the refresh. -/
example : ((run step initial (demoLogin ++ [.call 2 (.refresh 5), .step 2 0, .call 3 (.logout 5), .step 3 0,
    .step 2 0, .step 2 6])).map (·.history)) = some [.rotated 5 6, .loggedOut 5, .loggedIn 5] := by
  decide +kernel

end Demo
end Auth
end DocAuto
