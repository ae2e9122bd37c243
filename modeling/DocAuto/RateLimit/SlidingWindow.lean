import Mathlib.Data.List.Basic
import Mathlib.Logic.Function.Basic

/-! The rate limiter: a sorted set in Redis for each key, the script that counts in it, and
the middleware. One clock, in milliseconds, serves Redis and the servers. -/
namespace DocAuto.RateLimit

/-- `<now>:<random>`. -/
structure Member where
  now : Nat
  suffix : Nat
  deriving DecidableEq, Repr

structure Entry where
  score : Nat
  member : Member
  deriving DecidableEq, Repr

/-- A sorted set, and the instant at which its key expires. -/
structure SortedSet where
  entries : List Entry
  expiresAt : Option Nat
  deriving DecidableEq, Repr

namespace SortedSet

def empty : SortedSet := ⟨[], none⟩

/-- What a command finds under the key. -/
def live (s : SortedSet) (now : Nat) : SortedSet := if s.expiresAt.any (· ≤ now) then empty else s

def zremrangebyscore (s : SortedSet) (min max : Int) : SortedSet :=
  { s with entries := s.entries.filter fun e => !(decide (min ≤ e.score) && decide ((e.score : Int) ≤ max)) }

def zcard (s : SortedSet) : Nat := s.entries.length

def zadd (s : SortedSet) (score : Nat) (member : Member) : SortedSet :=
  if s.entries.any (·.member == member) then
    { s with entries := s.entries.map fun e => if e.member = member then { e with score := score } else e }
  else { s with entries := s.entries ++ [⟨score, member⟩] }

def pexpire (s : SortedSet) (now : Nat) (ms : Nat) : SortedSet := { s with expiresAt := some (now + ms) }

end SortedSet

/-- `SLIDING_WINDOW_SCRIPT`. -/
def slidingWindowScript (now : Nat) (windowStart : Int) (limit windowMs : Nat) (member : Member) (s : SortedSet) :
    (Bool × Nat) × SortedSet :=
  let s := (s.live now).zremrangebyscore 0 windowStart
  let count := s.zcard
  if limit ≤ count then ((false, count), s)
  else ((true, count + 1), (s.zadd now member).pexpire now windowMs)

def checkRateLimit (limit windowMs : Nat) (now : Nat) (suffix : Nat) (s : SortedSet) :
    (Bool × Nat) × SortedSet :=
  slidingWindowScript now ((now : Int) - windowMs) limit windowMs ⟨now, suffix⟩ s

/-- A request as a middleware sees it: `path` is relative to where the middleware is mounted. -/
structure Request where
  method : String
  path : String
  ip : Option String
  userSub : Option String
  deriving DecidableEq, Repr

/-- `req.user?.sub || req.ip || "anonymous"`. -/
def Request.identifier (req : Request) : String :=
  ((req.userSub.filter (· ≠ "")).or (req.ip.filter (· ≠ ""))).getD "anonymous"

/-- `rate_limit:<method>:<path>:<identifier>`. -/
structure RateKey where
  method : String
  path : String
  identifier : String
  deriving DecidableEq, Repr

def Request.key (req : Request) : RateKey := ⟨req.method, req.path, req.identifier⟩

abbrev Redis := RateKey → SortedSet

structure RateLimitHeaders where
  limit : Nat
  remaining : Nat
  windowMs : Nat
  deriving DecidableEq, Repr

inductive Verdict where
  | next (headers : Option RateLimitHeaders)
  | tooMany (headers : RateLimitHeaders) (retryAfterSeconds : Nat)
  deriving DecidableEq, Repr

/-- The response to a check; without one, because Redis failed, the request goes on. -/
def respond (limit windowMs : Nat) : Option (Bool × Nat) → Verdict
  | none => .next none
  | some (allowed, count) =>
    let headers : RateLimitHeaders := ⟨limit, limit - count, windowMs⟩
    if allowed then .next (some headers) else .tooMany headers ((windowMs + 999) / 1000)

def Verdict.passes : Verdict → Bool
  | .next _ => true
  | .tooMany _ _ => false

def rateLimiter (limit windowMs : Nat) (req : Request) (now : Nat) (suffix : Nat) (redis : Redis) :
    Verdict × Redis :=
  let (result, s) := checkRateLimit limit windowMs now suffix (redis req.key)
  (respond limit windowMs (some result), Function.update redis req.key s)

def apiRateLimit : Request → Nat → Nat → Redis → Verdict × Redis := rateLimiter 120 60000

def authRateLimit : Request → Nat → Nat → Redis → Verdict × Redis := rateLimiter 10 (15 * 60000)

/-- Those of the times that lie in the window that ends at `t`. -/
def within (window : Nat) (t : Nat) (times : List Nat) : List Nat :=
  times.filter fun x => decide (x ≤ t) && decide (t < x + window)

section Script
variable {limit windowMs suffix : Nat} {now t : Nat} {s : SortedSet}

/-- The entries a check counts. -/
def SortedSet.counted (s : SortedSet) (windowMs : Nat) (t : Nat) : List Entry :=
  (s.live t).entries.filter fun e => decide (t < e.score + windowMs)

theorem zremrangebyscore_entries (t : Nat) :
    (s.zremrangebyscore 0 ((t : Int) - windowMs)).entries = s.entries.filter fun e => decide (t < e.score + windowMs) := by
  refine List.filter_congr fun e _ => ?_
  rw [Bool.eq_iff_iff]
  simp only [Bool.not_eq_true', Bool.and_eq_false_iff, decide_eq_false_iff_not, decide_eq_true_eq]
  omega

theorem live_subset {e : Entry} (t : Nat) (h : e ∈ (s.live t).entries) : e ∈ s.entries := by
  unfold SortedSet.live at h
  split at h
  · cases h
  · exact h

private theorem script_entries :
    ((s.live t).zremrangebyscore 0 ((t : Int) - windowMs)).entries = s.counted windowMs t := zremrangebyscore_entries t

theorem checkRateLimit_refused (h : limit ≤ (s.counted windowMs t).length) :
    checkRateLimit limit windowMs t suffix s =
      ((false, (s.counted windowMs t).length), ⟨s.counted windowMs t, (s.live t).expiresAt⟩) := by
  simp only [checkRateLimit, slidingWindowScript, SortedSet.zcard, script_entries]
  rw [if_pos h]
  exact congrArg _ (congrArg₂ SortedSet.mk script_entries rfl)

theorem checkRateLimit_allowed (h : (s.counted windowMs t).length < limit)
    (hnew : ∀ e ∈ s.entries, e.member ≠ ⟨t, suffix⟩) :
    checkRateLimit limit windowMs t suffix s =
      ((true, (s.counted windowMs t).length + 1), ⟨s.counted windowMs t ++ [⟨t, t, suffix⟩], some (t + windowMs)⟩) := by
  have hany : ((s.counted windowMs t).any (·.member == ⟨t, suffix⟩)) = false := by
    rw [List.any_eq_false]
    intro e he
    simpa using hnew e (live_subset _ (List.mem_filter.1 he).1)
  simp only [checkRateLimit, slidingWindowScript, SortedSet.zcard, SortedSet.zadd, script_entries, hany]
  rw [if_neg (Nat.not_le.2 h)]
  rfl

theorem rateLimiter_refused {req : Request} {redis : Redis} (h : limit ≤ ((redis req.key).counted windowMs t).length) :
    (rateLimiter limit windowMs req t suffix redis).1.passes = false ∧
      (rateLimiter limit windowMs req t suffix redis).2 req.key =
        ⟨(redis req.key).counted windowMs t, ((redis req.key).live t).expiresAt⟩ := by
  simp only [rateLimiter, checkRateLimit_refused h, Function.update_self, respond]
  exact ⟨rfl, trivial⟩

theorem rateLimiter_allowed {req : Request} {redis : Redis} (h : ((redis req.key).counted windowMs t).length < limit)
    (hnew : ∀ e ∈ (redis req.key).entries, e.member ≠ ⟨t, suffix⟩) :
    (rateLimiter limit windowMs req t suffix redis).1.passes = true ∧
      (rateLimiter limit windowMs req t suffix redis).2 req.key =
        ⟨(redis req.key).counted windowMs t ++ [⟨t, t, suffix⟩], some (t + windowMs)⟩ := by
  simp only [rateLimiter, checkRateLimit_allowed h hnew, Function.update_self, respond]
  exact ⟨rfl, trivial⟩

end Script

/-- The set still has, of the times recorded, those of the last `window` milliseconds. -/
structure Records (window : Nat) (times : List Nat) (drawn : List Member) (now : Nat) (s : SortedSet) : Prop where
  recent : ∀ t, now ≤ t → (s.entries.filter fun e => decide (t < e.score + window)).length = (within window t times).length
  past : ∀ e ∈ s.entries, e.score ≤ now
  expiry : ∀ x ∈ s.expiresAt, ∀ e ∈ s.entries, e.score + window ≤ x
  drawn : ∀ e ∈ s.entries, e.member ∈ drawn

namespace Records
variable {window windowMs limit suffix now t : Nat} {times : List Nat} {drawn : List Member} {s : SortedSet}

theorem empty : Records window [] [] 0 .empty := ⟨fun _ _ => rfl, nofun, nofun, nofun⟩

/-- A key that has expired held nothing of the last window. -/
theorem live (h : Records window times drawn now s) (hn : now ≤ t) {u : Nat} (hu : t ≤ u) :
    ((s.live t).entries.filter fun e => decide (u < e.score + window)).length = (within window u times).length := by
  rw [← h.recent u (Nat.le_trans hn hu), SortedSet.live]
  split
  · next hx =>
    obtain ⟨x, hx, hxt⟩ := (Option.any_eq_true _ _).1 hx
    have hnil : s.entries.filter (fun e => decide (u < e.score + window)) = [] := by
      refine List.filter_eq_nil_iff.2 fun e he => ?_
      have := h.expiry x hx e he
      simp only [decide_eq_true_eq] at hxt ⊢
      omega
    rw [hnil]
    rfl
  · rfl

theorem counted (h : Records window times drawn now s) (ht : now ≤ t) :
    (s.counted window t).length = (within window t times).length := h.live ht (Nat.le_refl t)

private theorem counted_recent (h : Records window times drawn now s) (hn : now ≤ t) (hw : window ≤ windowMs) {u : Nat}
    (hu : t ≤ u) :
    ((s.counted windowMs t).filter fun e => decide (u < e.score + window)).length = (within window u times).length := by
  rw [← h.live hn hu, SortedSet.counted, List.filter_filter]
  refine congrArg List.length (List.filter_congr fun e _ => ?_)
  rw [Bool.eq_iff_iff, Bool.and_eq_true, decide_eq_true_eq, decide_eq_true_eq]
  exact ⟨And.left, fun he => ⟨he, by omega⟩⟩

private theorem counted_subset {e : Entry} (h : e ∈ s.counted windowMs t) : e ∈ s.entries :=
  live_subset t (List.mem_filter.1 h).1

/-- A refused check only forgets what is too old. -/
theorem refused (h : Records window times drawn now s) (hn : now ≤ t) (hw : window ≤ windowMs) :
    Records window times drawn t ⟨s.counted windowMs t, (s.live t).expiresAt⟩ where
  recent _ hu := h.counted_recent hn hw hu
  past e he := Nat.le_trans (h.past e (counted_subset he)) hn
  expiry x hx e he := by
    refine h.expiry x ?_ e (counted_subset he)
    unfold SortedSet.live at hx
    split at hx
    · cases hx
    · exact hx
  drawn e he := h.drawn e (counted_subset he)

theorem allowed (h : Records window times drawn now s) (hn : now ≤ t) (hw : window ≤ windowMs) :
    Records window (t :: times) (⟨t, suffix⟩ :: drawn) t
      ⟨s.counted windowMs t ++ [⟨t, t, suffix⟩], some (t + windowMs)⟩ where
  recent u hu := by
    rw [List.filter_append, List.length_append, h.counted_recent hn hw hu, within, within, List.filter_cons,
      List.filter_cons]
    simp only [hu, decide_true, Bool.true_and, List.filter_nil]
    split <;> simp
  past e he := by
    rcases List.mem_append.1 he with he | he
    · exact Nat.le_trans (h.past e (counted_subset he)) hn
    · exact Nat.le_of_eq (congrArg Entry.score (List.mem_singleton.1 he))
  expiry x hx e he := by
    cases hx
    rcases List.mem_append.1 he with he | he
    · have := h.past e (counted_subset he)
      omega
    · rw [List.mem_singleton.1 he]
      exact Nat.add_le_add_left hw t
  drawn e he := by
    rcases List.mem_append.1 he with he | he
    · exact List.mem_cons_of_mem _ (h.drawn e (counted_subset he))
    · rw [List.mem_singleton.1 he]
      exact List.mem_cons_self

theorem congr (h : Records window times drawn now s) {times' : List Nat} {drawn' : List Member}
    (ht : ∀ u, (within window u times).length = (within window u times').length) (hd : ∀ m ∈ drawn, m ∈ drawn') :
    Records window times' drawn' now s :=
  ⟨fun u hu => (h.recent u hu).trans (ht u), h.past, h.expiry, fun e he => hd _ (h.drawn e he)⟩

theorem later (h : Records window times drawn now s) (hn : now ≤ t) : Records window times drawn t s :=
  ⟨fun u hu => h.recent u (Nat.le_trans hn hu), fun e he => Nat.le_trans (h.past e he) hn, h.expiry, h.drawn⟩

theorem unseen (h : Records window times drawn now s) (hm : ⟨t, suffix⟩ ∉ drawn) :
    ∀ e ∈ s.entries, e.member ≠ ⟨t, suffix⟩ := fun e he hem => hm (hem ▸ h.drawn e he)

end Records

/-- One more time at the end keeps every window below the limit when the window it ends has room. -/
theorem within_cons_le {window limit t : Nat} {times : List Nat} (hpast : ∀ x ∈ times, x ≤ t)
    (hc : ∀ u, (within window u times).length ≤ limit) (hroom : (within window t times).length < limit) (u : Nat) :
    (within window u (t :: times)).length ≤ limit := by
  rw [within, List.filter_cons]
  split
  · next hu =>
    -- everything earlier in the window of `u` is in the window of `t`
    have hle : (within window u times).length ≤ (within window t times).length := by
      rw [within, within, ← List.countP_eq_length_filter, ← List.countP_eq_length_filter]
      refine List.countP_mono_left fun x hx hxu => ?_
      have := hpast x hx
      simp only [Bool.and_eq_true, decide_eq_true_eq] at hu hxu ⊢
      omega
    exact Nat.lt_of_le_of_lt hle hroom
  · exact hc u

theorem within_cons_iff {window limit t : Nat} {times : List Nat} (h₀ : 0 < window) (hpast : ∀ x ∈ times, x ≤ t) :
    (∀ u, (within window u (t :: times)).length ≤ limit) ↔
      (∀ u, (within window u times).length ≤ limit) ∧ (within window t times).length < limit := by
  constructor
  · intro hc
    refine ⟨fun u => Nat.le_trans ((List.sublist_cons_self _ _).filter _).length_le (hc u), ?_⟩
    have hself := hc t
    rw [within, List.filter_cons, if_pos (by simp [h₀])] at hself
    exact hself
  · exact fun hc => within_cons_le hpast hc.1 hc.2

/-- A check finds everything that a check with a shorter window has left at the same instant. -/
theorem counted_after {window windowMs suffix t : Nat} {s : SortedSet} (h₀ : 0 < window) (hw : window ≤ windowMs) :
    SortedSet.counted ⟨s.counted window t ++ [⟨t, t, suffix⟩], some (t + window)⟩ windowMs t =
      s.counted window t ++ [⟨t, t, suffix⟩] := by
  have hlive : SortedSet.live ⟨s.counted window t ++ [⟨t, t, suffix⟩], some (t + window)⟩ t =
      ⟨s.counted window t ++ [⟨t, t, suffix⟩], some (t + window)⟩ :=
    if_neg (by simp; omega)
  rw [SortedSet.counted, hlive]
  refine List.filter_eq_self.2 fun e he => decide_eq_true ?_
  rcases List.mem_append.1 he with he | he
  · have := of_decide_eq_true (List.mem_filter.1 he).2
    omega
  · rw [List.mem_singleton.1 he]
    show t < t + windowMs
    omega

end DocAuto.RateLimit
