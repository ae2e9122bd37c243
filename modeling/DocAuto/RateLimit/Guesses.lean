import DocAuto.RateLimit.ClientWide
import Mathlib.Data.List.Sections
import Mathlib.Tactic.IntervalCases

/-! How often one client gets through to `/register` and `/login`, under any spelling of the path
that the router takes for theirs. -/
namespace DocAuto.RateLimit
open Process

section Windows
variable {α κ : Type} {window n t : Nat} {times : List Nat}

/-- What a long window sees, its last part sees or the window before. -/
theorem within_add_le (n : Nat) : (within ((n + 1) * window) t times).length ≤
    (within window t times).length + (within (n * window) (t - window) times).length := by
  rw [Nat.add_mul, Nat.one_mul]
  induction times with
  | nil => exact Nat.zero_le _
  | cons x times ih =>
    simp only [within, List.filter_cons, Bool.and_eq_true, decide_eq_true_eq, apply_ite List.length, List.length_cons] at ih ⊢
    split_ifs <;> omega

/-- A bound for every window of one length is one for the windows of its multiples. -/
theorem within_mul_le {limit : Nat} (h : ∀ t, (within window t times).length ≤ limit) (n t : Nat) :
    (within (n * window) t times).length ≤ n * limit := by
  induction n generalizing t with
  | zero =>
    have hempty : within (0 * window) t times = [] := by
      refine List.filter_eq_nil_iff.2 fun x _ hx => ?_
      simp only [Bool.and_eq_true, decide_eq_true_eq] at hx
      omega
    rw [hempty]
    exact Nat.zero_le _
  | succ n ih =>
    have hlast := h t
    have hrest := ih (t - window)
    have hsplit := @within_add_le window t times n
    rw [Nat.add_mul n 1 limit]
    omega

/-- What has one of a list of keys is no more than what there is under each of them. -/
theorem length_le_of_keys [DecidableEq κ] (key : α → κ) {keys : List κ} {limit : Nat} {xs : List α}
    (hkeys : ∀ x ∈ xs, key x ∈ keys) (h : ∀ k ∈ keys, (xs.filter (key · == k)).length ≤ limit) :
    xs.length ≤ keys.length * limit := by
  induction keys generalizing xs with
  | nil =>
    cases xs with
    | nil => exact Nat.zero_le _
    | cons x xs => cases hkeys x List.mem_cons_self
  | cons k keys ih =>
    have hrest : (xs.filter fun x => !(key x == k)).length ≤ keys.length * limit := by
      refine ih (fun x hx => ?_) fun k' hk' => ?_
      · obtain ⟨hmem, hne⟩ := List.mem_filter.1 hx
        refine (List.mem_cons.1 (hkeys x hmem)).resolve_left fun he => ?_
        simp [he] at hne
      · rw [List.filter_filter]
        refine Nat.le_trans (List.Sublist.length_le ?_) (h k' (List.mem_cons_of_mem _ hk'))
        exact List.monotone_filter_right _ fun x hx => (Bool.and_eq_true_iff.1 hx).1
    have hsplit := List.length_eq_length_filter_add (l := xs) (key · == k)
    have hfirst := h k List.mem_cons_self
    rw [List.length_cons, Nat.add_mul, Nat.one_mul]
    omega

end Windows

section Spellings

/-- A character and what it may stand for in a path that is matched in any case. -/
def letter (x : Char) : List Char := if x.toUpper = x then [x] else [x, x.toUpper]

/-- The paths that the router takes for `path`, without and with a slash at the end. -/
def spellings (path : String) : List String :=
  (((path.toList.map letter).sections ++ ((path ++ "/").toList.map letter).sections)).map String.ofList

theorem mem_letter (c : Char) : c ∈ letter c.toLower := by
  by_cases h : 65 ≤ c.toNat ∧ c.toNat ≤ 90
  · obtain ⟨hlow, hhigh⟩ := h
    rw [← Char.ofNat_toNat c]
    generalize c.toNat = n at hlow hhigh ⊢
    interval_cases n <;> decide
  · have hsame : c.toLower = c := by
      refine dif_neg fun hc => h ?_
      have hlow : 'A'.val.toNat ≤ c.val.toNat := UInt32.le_iff_toNat_le.1 hc.1
      have hhigh : c.val.toNat ≤ 'Z'.val.toNat := UInt32.le_iff_toNat_le.1 hc.2
      exact ⟨hlow, hhigh⟩
    rw [hsame, letter]
    split <;> exact List.mem_cons_self

theorem mem_sections_toLower (cs : List Char) : cs ∈ ((cs.map Char.toLower).map letter).sections := by
  rw [List.mem_sections, List.map_map, List.forall₂_map_right_iff]
  exact List.forall₂_same.2 fun c _ => mem_letter c

/-- Nothing else is. -/
theorem mem_spellings {path s : String} (h : s.toLower ∈ [path, path ++ "/"]) : s ∈ spellings path := by
  have hsections : s.toList ∈ (s.toLower.toList.map letter).sections := by
    have hlower : s.toLower.toList = s.toList.map Char.toLower := String.toList_map
    rw [hlower]
    exact mem_sections_toLower s.toList
  refine List.mem_map.2 ⟨s.toList, ?_, String.ofList_toList⟩
  rcases List.mem_cons.1 h with he | he
  · exact List.mem_append_left _ (he ▸ hsections)
  · exact List.mem_append_right _ (List.mem_singleton.1 he ▸ hsections)

end Spellings

/-- What the router takes for a request to `/login`. -/
def Pass.isLogin (p : Pass) : Bool := ["/login", "/login/"].contains p.key.path.toLower

/-- The requests to log in that have got through in the window that ends at `t`. -/
def Client.guesses (s : Client) (window t : Nat) : Nat := (within window t ((s.authPassed.filter (·.isLogin)).map (·.now))).length

/-- What gets through `authRateLimit` has got through `apiRateLimit`, and comes from the one client. -/
structure Guessing (ip : Option String) (s : Client) : Prop where
  tracked : Tracked s
  counted : s.authPassed.Sublist s.apiPassed
  client : ∀ p ∈ s.authPassed, p.key = ⟨"POST", p.key.path, (⟨"POST", "", ip, none⟩ : Request).identifier⟩
  few : ∀ key t, (within 60000 t (s.under key).authPassed).length ≤ 5

section Step
variable {ip : Option String} {s s' : Client} {v : Visit}

theorem initial_guessing : Guessing ip .initial :=
  ⟨initial_tracked, .refl _, nofun, fun _ _ => Nat.zero_le _⟩

/-- What gets through `authRateLimit` finds fewer than nine entries in its set. -/
theorem admitted_load (hs : Tracked s) (hn : s.now ≤ v.arrival.now) (hapi : ⟨v.arrival.now, v.arrival.apiSuffix⟩ ∉ s.drawn)
    (hauth : ⟨v.arrival.now, v.arrival.authSuffix⟩ ∉ s.drawn) (hne : v.arrival.apiSuffix ≠ v.arrival.authSuffix)
    (h : (v.limiters ip s.redis).1.2 = true) :
    (v.limiters ip s.redis).1.1 = true ∧ v.method = "POST" ∧ (s.under (v.request ip).key).load v.arrival.now < 9 := by
  cases hl : v.authLimited with
  | false =>
    rw [limiters_api hl] at h
    cases h
  | true =>
    rw [limiters_handle hl] at h ⊢
    have ho : (handle (v.request ip) v.arrival s.redis).1 = .handled := beq_iff_eq.1 h
    rw [ho]
    refine ⟨rfl, ?_, ?_⟩
    · simp only [Visit.authLimited, Bool.and_eq_true, beq_iff_eq] at hl
      exact hl.1.2
    · have hu : (handle (v.request ip) v.arrival (s.under (v.request ip).key).redis).1 = .handled := ho
      rcases handle_cases (hs.shared ip v) hn hapi hauth hne with ⟨hr, -⟩ | ⟨hr, -⟩ | ⟨-, hload, -⟩
      · cases hr.symm.trans hu
      · cases hr.symm.trans hu
      · exact hload

/-- Half of the entries of a set are of requests that have been through both limiters. -/
theorem Guessing.half (hs : Guessing ip s) (key : RateKey) (t : Nat) :
    2 * (within 60000 t (s.under key).authPassed).length ≤ (s.under key).load t := by
  have hsub : (within 60000 t (s.under key).authPassed).Sublist (within 60000 t (s.under key).apiPassed) :=
    ((hs.counted.filter _).map _).filter _
  have hle := hsub.length_le
  unfold State.load
  omega

/-- A request gets through where fewer than nine entries are counted: four have been through both limiters at most. -/
theorem step_guessing (hs : Guessing ip s) (h : Client.step ip s v = some s') : Guessing ip s' := by
  have htracked := step_tracked hs.tracked h
  obtain ⟨⟨hn, hapi, hauth, hne⟩, rfl⟩ := client_inv h
  have hadmitted := @admitted_load ip s v hs.tracked hn hapi hauth hne
  cases hlet : (v.limiters ip s.redis).1.2 with
  | false =>
    rw [hlet] at htracked
    refine ⟨htracked, ?_, hs.client, hs.few⟩
    change s.authPassed.Sublist (if (v.limiters ip s.redis).1.1 then _ :: s.apiPassed else s.apiPassed)
    split
    · exact hs.counted.cons _
    · exact hs.counted
  | true =>
    obtain ⟨hboth, hpost, hload⟩ := hadmitted hlet
    rw [hlet, hboth] at htracked
    rw [hboth]
    refine ⟨htracked, hs.counted.cons_cons _, ?_, fun key t => ?_⟩
    · intro p hp
      rcases List.mem_cons.1 hp with rfl | hp
      · rw [Visit.request, Request.key, hpost]
        rfl
      · exact hs.client p hp
    · change (within 60000 t ((List.filter (·.key == key) (⟨(v.request ip).key, v.arrival.now⟩ :: s.authPassed)).map
        (·.now))).length ≤ 5
      rw [under_cons]
      split
      · next hk =>
        subst hk
        have hpast : ∀ x ∈ (s.under (v.request ip).key).authPassed, x ≤ v.arrival.now :=
          fun x hx => Nat.le_trans ((hs.tracked.shared ip v).past x hx) hn
        have hhalf := hs.half (v.request ip).key v.arrival.now
        refine (within_cons_iff (by decide) hpast).2 ⟨hs.few _, ?_⟩ t
        omega
      · exact hs.few key t

end Step

section Run
variable {ip : Option String} {s : Client}

/-- The keys of the requests that the router takes for `/login`. -/
def loginKeys (ip : Option String) : List RateKey :=
  (spellings "/login").map fun path => ⟨"POST", path, (⟨"POST", "", ip, none⟩ : Request).identifier⟩

theorem length_loginKeys : (loginKeys ip).length = 64 := by
  rw [loginKeys, List.length_map]
  decide

/-- Requests to log in are counted under these keys. -/
theorem Guessing.key_mem (hs : Guessing ip s) {p : Pass} (hp : p ∈ s.authPassed) (hlogin : p.isLogin = true) :
    p.key ∈ loginKeys ip := by
  rw [hs.client p hp]
  refine List.mem_map.2 ⟨p.key.path, mem_spellings ?_, rfl⟩
  exact List.contains_iff_mem.1 hlogin

/-- What is bounded under each of the keys is bounded under all of them. -/
theorem Guessing.guesses_le (hs : Guessing ip s) {window limit t : Nat}
    (h : ∀ key, (within window t (s.under key).authPassed).length ≤ limit) : s.guesses window t ≤ 64 * limit := by
  rw [Client.guesses, within, List.filter_map, List.length_map, ← @length_loginKeys ip]
  refine length_le_of_keys (·.key) (fun p hp => ?_) fun key _ => ?_
  · obtain ⟨hp, hlogin⟩ := List.mem_filter.1 (List.mem_of_mem_filter hp)
    exact hs.key_mem hp hlogin
  · have hkey := h key
    rw [within, Client.under, List.filter_map, List.length_map] at hkey
    refine Nat.le_trans (List.Sublist.length_le ?_) hkey
    rw [List.filter_comm]
    exact (List.filter_sublist.filter _).filter _

/-- Of a client whose requests are handled one after another, no `n` minutes see more than `5 * n`
requests under one spelling let through, nor more than `320 * n` requests to log in altogether. -/
theorem guesses_bounded (ip : Option String) {visits : List Visit} (h : run (Client.step ip) .initial visits = some s) (n t : Nat) :
    (∀ key, (within (n * 60000) t (s.under key).authPassed).length ≤ n * 5) ∧ s.guesses (n * 60000) t ≤ 64 * (n * 5) := by
  have hs : Guessing ip s := run_inductive (fun _ _ _ hi hstep => step_guessing hi hstep) initial_guessing h
  have hkey : ∀ key, (within (n * 60000) t (s.under key).authPassed).length ≤ n * 5 :=
    fun key => within_mul_le (hs.few key) n t
  exact ⟨hkey, hs.guesses_le hkey⟩

/-- The `i`-th request to log in within one instant. -/
private def guess (path : String) (i : Nat) : Visit := ⟨.auth, "POST", path, ⟨0, 2 * i, 2 * i + 1⟩⟩

/-- Six of each spelling; five of each get through. -/
def twoSpellings : List Visit := (List.range 6).map (guess "/login") ++ (List.range' 6 6).map (guess "/LOGIN")

theorem guesses_bounded_spellings : ∃ s, run (Client.step (some "203.0.113.7")) .initial twoSpellings = some s ∧
    s.guesses 60000 0 = 10 ∧ s.guesses (15 * 60000) 0 ≤ 64 * (15 * 5) := by
  have hrun : (run (Client.step (some "203.0.113.7")) .initial twoSpellings).map (fun s => s.guesses 60000 0) = some 10 := by
    decide +kernel
  obtain ⟨s, hs, hten⟩ := Option.map_eq_some_iff.1 hrun
  exact ⟨s, hs, hten, (guesses_bounded _ hs 15 0).2⟩

end Run
end DocAuto.RateLimit
