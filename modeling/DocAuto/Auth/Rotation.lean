import DocAuto.Auth.Tokens

/-! Who holds a login's token. It is in Redis, or with the refresh that is about to write
its successor, and orderly steps only pass it on. -/
namespace DocAuto.Auth
open Process

inductive Stage where
  | start | found | deleted | ended
  deriving DecidableEq

/-- The commands of a call, in their order. -/
def session (call : Call) : Protocol RedisCmd RedisCmd.Resp AppError where
  Phase := Stage
  allowed stage c :=
    match call, stage, c with
    | .login _, .start, .setex _ _ => True
    | .refresh old, .start, .get tokenId | .refresh old, .found, .del tokenId => tokenId = old
    | .refresh _, .deleted, .setex ttl _ => ttl = ttlSeconds
    | .logout tokenId, .start, .del tokenId' => tokenId' = tokenId
    | _, _, _ => False
  answers _ _ r := ∃ a, r = .ok a
  next _ c r :=
    match call, c, r with
    | _, .get _, .ok (some _) => .found
    | .refresh _, .del _, _ => .deleted
    | _, _, _ => .ended

def Follows (call : Call) (p : Proc Unit) (stage : Stage) : Prop := (session call).wp (fun _ _ => True) p stage

theorem program_follows (call : Call) : Follows call call.program .start := by
  cases call with
  | login user => exact ⟨trivial, by rintro _ ⟨a, rfl⟩; trivial⟩
  | logout tokenId => exact ⟨rfl, by rintro _ ⟨a, rfl⟩; trivial⟩
  | refresh old =>
    refine ⟨rfl, ?_⟩
    rintro _ ⟨_ | data, rfl⟩
    · trivial
    · refine ⟨rfl, ?_⟩
      rintro _ ⟨_, rfl⟩
      refine ⟨rfl, ?_⟩
      rintro _ ⟨_, rfl⟩
      trivial

/-- Where a token can be: under its key, or with a refresh between its two writes. -/
inductive Holder where
  | key (tokenId : TokenId)
  | call (id : CallId)
  deriving DecidableEq

def State.holds (s : State) : Holder → Option TokenId
  | .key tokenId => if (s.store tokenId).isSome then some tokenId else none
  | .call id =>
    match s.issues id with
    | some (.refresh old, .setex _ _) => some old
    | _ => none

def Deed.tokens : Deed → List TokenId
  | .loggedIn new => [new]
  | .rotated old new => [old, new]
  | .loggedOut tokenId => [tokenId]

/-- Every held token descends from a login, no other token in the same line is held, and it
has neither been rotated nor logged out. -/
structure Exclusive (known : List TokenId) (history : List Deed) (holds : Holder → Option TokenId) : Prop where
  done : ∀ d ∈ history, ∀ a ∈ d.tokens, a ∈ known
  known : ∀ h a, holds h = some a → a ∈ known
  descends : ∀ h a, holds h = some a → (origin history a).isSome
  unique : ∀ h h' a b, holds h = some a → holds h' = some b → origin history a = origin history b → h = h'
  unspent : ∀ h a, holds h = some a → Deed.loggedOut a ∉ history ∧ history.countP (Deed.rotates a) = 0
  rotatedOnce : ∀ a, history.countP (Deed.rotates a) ≤ 1
  loggedOut : history.Pairwise fun later earlier => ∀ a, later.rotates a → earlier ≠ .loggedOut a

section Origin
variable {known : List TokenId} {history : List Deed} {a b new : TokenId}

theorem mem_of_origin (h : origin history a = some b) : .loggedIn b ∈ history := by
  induction history generalizing a with
  | nil => cases h
  | cons d history ih =>
    cases d with
    | loggedIn new =>
      simp only [origin] at h
      split at h
      · cases h
        exact List.mem_cons_self
      · exact List.mem_cons_of_mem _ (ih h)
    | rotated old new =>
      simp only [origin] at h
      split at h <;> exact List.mem_cons_of_mem _ (ih h)
    | loggedOut tokenId => exact List.mem_cons_of_mem _ (ih h)

private theorem count_fresh (hd : ∀ d ∈ history, ∀ a ∈ d.tokens, a ∈ known) (ha : a ∉ known) :
    .loggedOut a ∉ history ∧ history.countP (Deed.rotates a) = 0 := by
  refine ⟨fun h => ha (hd _ h a List.mem_cons_self), List.countP_eq_zero.2 fun d h hr => ?_⟩
  cases d with
  | rotated old new => exact ha (hd _ h a (by simp [Deed.tokens, ← beq_iff_eq.1 hr]))
  | _ => cases hr

end Origin

namespace Exclusive
variable {known : List TokenId} {history : List Deed} {holds holds' : Holder → Option TokenId}

theorem initial : Exclusive [] [] fun _ => none where
  done := nofun
  known := nofun
  descends := nofun
  unique := nofun
  unspent := nofun
  rotatedOnce _ := Nat.zero_le 1
  loggedOut := .nil

/-- Letting go of tokens, and hearing of others. -/
theorem release (he : Exclusive known history holds) {heard : List TokenId}
    (hh : ∀ h a, holds' h = some a → holds h = some a) : Exclusive (heard ++ known) history holds' where
  done d hd a ha := List.mem_append_right _ (he.done d hd a ha)
  known h a ha := List.mem_append_right _ (he.known h a (hh h a ha))
  descends h a ha := he.descends h a (hh h a ha)
  unique h h' a b ha hb := he.unique h h' a b (hh h a ha) (hh h' b hb)
  unspent h a ha := he.unspent h a (hh h a ha)
  rotatedOnce := he.rotatedOnce
  loggedOut := he.loggedOut

/-- A refresh takes the token out of Redis. -/
theorem take (he : Exclusive known history holds) {g k : Holder} {old : TokenId} (hold : holds g = some old)
    (hh : ∀ h a, holds' h = some a → h = k ∧ a = old ∨ h ≠ g ∧ holds h = some a) :
    Exclusive known history holds' := by
  have hheld : ∀ h a, holds' h = some a → ∃ g, holds g = some a := by
    intro h a ha
    rcases hh h a ha with ⟨-, rfl⟩ | ⟨-, ha⟩
    · exact ⟨g, hold⟩
    · exact ⟨h, ha⟩
  refine ⟨he.done, ?_, ?_, ?_, ?_, he.rotatedOnce, he.loggedOut⟩
  · intro h a ha
    obtain ⟨g, hg⟩ := hheld h a ha
    exact he.known g a hg
  · intro h a ha
    obtain ⟨g, hg⟩ := hheld h a ha
    exact he.descends g a hg
  · intro h h' a b ha hb hab
    rcases hh h a ha with ⟨rfl, rfl⟩ | ⟨hne, ha⟩ <;> rcases hh h' b hb with ⟨rfl, rfl⟩ | ⟨hne', hb⟩
    · rfl
    · exact absurd (he.unique _ _ _ _ hb hold hab.symm) hne'
    · exact absurd (he.unique _ _ _ _ ha hold hab) hne
    · exact he.unique h h' a b ha hb hab
  · intro h a ha
    obtain ⟨g, hg⟩ := hheld h a ha
    exact he.unspent g a hg

/-- A login stores a new token. -/
theorem logIn (he : Exclusive known history holds) {k : Holder} {new : TokenId} (hnew : new ∉ known)
    (hh : ∀ h a, holds' h = some a → h = k ∧ a = new ∨ holds h = some a) :
    Exclusive (new :: known) (.loggedIn new :: history) holds' := by
  have hkeep : ∀ {a}, a ∈ known → origin (.loggedIn new :: history) a = origin history a := fun {a} ha =>
    if_neg fun h : a = new => hnew (h ▸ ha)
  have hself : origin (.loggedIn new :: history) new = some new := if_pos rfl
  have hother : ∀ {a}, origin history a ≠ some new := fun h =>
    hnew (he.done _ (mem_of_origin h) new List.mem_cons_self)
  refine ⟨?_, ?_, ?_, ?_, ?_, he.rotatedOnce, .cons (fun _ _ _ h => by cases h) he.loggedOut⟩
  · intro d hd a ha
    rcases List.mem_cons.1 hd with rfl | hd
    · rw [List.mem_singleton.1 ha]
      exact List.mem_cons_self
    · exact List.mem_cons_of_mem _ (he.done d hd a ha)
  · intro h a ha
    rcases hh h a ha with ⟨-, rfl⟩ | ha
    · exact List.mem_cons_self
    · exact List.mem_cons_of_mem _ (he.known h a ha)
  · intro h a ha
    rcases hh h a ha with ⟨-, rfl⟩ | ha
    · rw [hself, Option.isSome_some]
    · exact (hkeep (he.known h a ha)).symm ▸ he.descends h a ha
  · intro h h' a b ha hb hab
    rcases hh h a ha with ⟨rfl, rfl⟩ | ha <;> rcases hh h' b hb with ⟨rfl, rfl⟩ | hb
    · rfl
    · rw [hself, hkeep (he.known _ _ hb)] at hab
      exact absurd hab.symm hother
    · rw [hself, hkeep (he.known _ _ ha)] at hab
      exact absurd hab hother
    · rw [hkeep (he.known _ _ ha), hkeep (he.known _ _ hb)] at hab
      exact he.unique h h' a b ha hb hab
  · intro h a ha
    have hspent : .loggedOut a ∉ history ∧ history.countP (Deed.rotates a) = 0 := by
      rcases hh h a ha with ⟨-, rfl⟩ | ha
      · exact count_fresh he.done hnew
      · exact he.unspent h a ha
    simpa [Deed.rotates] using hspent

/-- A refresh stores the successor of the token it took. -/
theorem rotate (he : Exclusive known history holds) {g k : Holder} {old new : TokenId} (hnew : new ∉ known)
    (hold : holds g = some old) (hh : ∀ h a, holds' h = some a → h = k ∧ a = new ∨ h ≠ g ∧ holds h = some a) :
    Exclusive (new :: known) (.rotated old new :: history) holds' := by
  have hkeep : ∀ {a}, a ∈ known → origin (.rotated old new :: history) a = origin history a := fun {a} ha =>
    if_neg fun h : a = new => hnew (h ▸ ha)
  have hself : origin (.rotated old new :: history) new = origin history old := if_pos rfl
  have hfresh : old ≠ new := fun h => hnew (h ▸ he.known _ _ hold)
  have hne : ∀ {h a}, h ≠ g → holds h = some a → a ≠ old := by
    rintro h a hne ha rfl
    exact hne (he.unique _ _ _ _ ha hold rfl)
  refine ⟨?_, ?_, ?_, ?_, ?_, ?_, .cons ?_ he.loggedOut⟩
  · intro d hd a ha
    rcases List.mem_cons.1 hd with rfl | hd
    · rcases List.mem_pair.1 ha with rfl | rfl
      · exact List.mem_cons_of_mem _ (he.known _ _ hold)
      · exact List.mem_cons_self
    · exact List.mem_cons_of_mem _ (he.done d hd a ha)
  · intro h a ha
    rcases hh h a ha with ⟨-, rfl⟩ | ⟨-, ha⟩
    · exact List.mem_cons_self
    · exact List.mem_cons_of_mem _ (he.known h a ha)
  · intro h a ha
    rcases hh h a ha with ⟨-, rfl⟩ | ⟨-, ha⟩
    · exact hself.symm ▸ he.descends _ _ hold
    · exact (hkeep (he.known h a ha)).symm ▸ he.descends h a ha
  · intro h h' a b ha hb hab
    rcases hh h a ha with ⟨rfl, rfl⟩ | ⟨hn, ha⟩ <;> rcases hh h' b hb with ⟨rfl, rfl⟩ | ⟨hn', hb⟩
    · rfl
    · rw [hself, hkeep (he.known _ _ hb)] at hab
      exact absurd (he.unique _ _ _ _ hb hold hab.symm) hn'
    · rw [hself, hkeep (he.known _ _ ha)] at hab
      exact absurd (he.unique _ _ _ _ ha hold hab) hn
    · rw [hkeep (he.known _ _ ha), hkeep (he.known _ _ hb)] at hab
      exact he.unique h h' a b ha hb hab
  · intro h a ha
    have hspent : (.loggedOut a ∉ history ∧ history.countP (Deed.rotates a) = 0) ∧ a ≠ old := by
      rcases hh h a ha with ⟨-, rfl⟩ | ⟨hn, ha⟩
      · exact ⟨count_fresh he.done hnew, hfresh.symm⟩
      · exact ⟨he.unspent h a ha, hne hn ha⟩
    simpa [Deed.rotates, hspent.2.symm] using hspent.1
  · intro a
    by_cases ha : old = a
    · subst ha
      simp [Deed.rotates, (he.unspent _ _ hold).2]
    · simpa [Deed.rotates, ha] using he.rotatedOnce a
  · intro d hd a ha
    have ha : old = a := by simpa [Deed.rotates] using ha
    exact fun h => (he.unspent _ _ hold).1 (ha ▸ h ▸ hd)

/-- A logout removes a token that is nowhere else. -/
theorem logOut (he : Exclusive known history holds) {out : TokenId} (hknown : out ∈ known)
    (hh : ∀ h a, holds' h = some a → a ≠ out ∧ holds h = some a) :
    Exclusive known (.loggedOut out :: history) holds' where
  done d hd a ha := by
    rcases List.mem_cons.1 hd with rfl | hd
    · exact (List.mem_singleton.1 ha).symm ▸ hknown
    · exact he.done d hd a ha
  known h a ha := he.known h a (hh h a ha).2
  descends h a ha := he.descends h a (hh h a ha).2
  unique h h' a b ha hb := he.unique h h' a b (hh h a ha).2 (hh h' b hb).2
  unspent h a ha := by simpa [Deed.rotates, (hh h a ha).1] using he.unspent h a (hh h a ha).2
  rotatedOnce a := by simpa [Deed.rotates] using he.rotatedOnce a
  loggedOut := .cons (fun _ _ _ h => by cases h) he.loggedOut

end Exclusive

/-- Every call in flight is at some stage of its commands, and the tokens are held by one each. -/
structure Sane (s : State) : Prop where
  follows : ∀ id call p, s.calls id = some (call, p) → ∃ stage, Follows call p stage
  presented : ∀ id call p, s.calls id = some (call, p) → ∀ a ∈ call.presented, a ∈ s.known
  exclusive : Exclusive s.known s.history s.holds

section Step
variable {s s' : State} {id : CallId} {call : Call} {p p' : Proc Unit} {c : RedisCmd} {a : Action}

private theorem holds_call (hc : s.calls id = some (call, p))
    (hp : ∀ ttl data k, p = .call (.setex ttl data) k → ∀ old, call ≠ .refresh old) : s.holds (.call id) = none := by
  simp only [State.holds, State.issues, hc]
  cases p with
  | call c k =>
    cases c with
    | setex ttl data =>
      cases call with
      | refresh old => exact absurd rfl (hp ttl data k rfl old)
      | _ => rfl
    | _ => cases call <;> rfl
  | _ => rfl

private theorem holds_other {h : Holder} {x : Option (Call × Proc Unit)} (hi : h ≠ .call id)
    (hc : s'.calls = Function.update s.calls id x) (hk : ∀ a, h = .key a → s'.store a = s.store a) :
    s'.holds h = s.holds h := by
  cases h with
  | key a => simp only [State.holds, hk a rfl]
  | call i =>
    have hne : i ≠ id := fun h => hi (h ▸ rfl)
    simp only [State.holds, State.issues, hc, Function.update_of_ne hne]

private theorem store_other {h : Holder} {tokenId : TokenId} {x : Option Entry} (hkey : h ≠ .key tokenId)
    (hstore : s'.store = Function.update s.store tokenId x) : ∀ a, h = .key a → s'.store a = s.store a := by
  rintro a rfl
  rw [hstore, Function.update_of_ne]
  rintro rfl
  exact hkey rfl

private theorem deleted_of_setex {old : TokenId} {ttl : Nat} {data : RefreshTokenData} {k : Except AppError TokenId → Proc Unit}
    {stage : Stage} (h : Follows (.refresh old) (.call (.setex ttl data) k) stage) : stage = .deleted ∧ ttl = ttlSeconds := by
  cases stage with
  | deleted => exact ⟨rfl, h.1⟩
  | _ => exact h.1.elim

private theorem next_get (stage : Stage) (tokenId : TokenId) (r : Except AppError (Option RefreshTokenData)) :
    (session call).next stage (.get tokenId) r ≠ Stage.deleted := by
  rcases r with e | _ | data <;> cases call <;> exact Stage.noConfusion

private theorem step_cases {draw : TokenId} (h : step s (.step id draw) = some s') :
    ∃ call c k r s₁, s.calls id = some (call, .call c k) ∧ c.exec draw s = some (r, s₁) ∧
      s'.calls = Function.update s.calls id (some (call, k (.ok r))) ∧
      s'.history = (deed call c draw).toList ++ s.history ∧ s'.store = s₁.store ∧ s'.known = s₁.known := by
  simp only [step] at h
  split at h
  · next call c k hc =>
    split at h
    · next r s₁ hx =>
      cases h
      exact ⟨call, c, k, r, s₁, hc, hx, rfl, rfl, rfl, rfl⟩
    · cases h
  · cases h

private theorem advance_sane (hs : Sane s) (hk : ∀ a ∈ s.known, a ∈ s'.known)
    (hcalls : s'.calls = Function.update s.calls id (some (call, p'))) (hf : ∃ stage, Follows call p' stage)
    (hp : ∀ a ∈ call.presented, a ∈ s'.known) (he : Exclusive s'.known s'.history s'.holds) : Sane s' := by
  refine ⟨fun i call' q hq => ?_, fun i call' q hq a ha => ?_, he⟩
  all_goals
    rw [hcalls] at hq
    by_cases hi : i = id
    · subst hi
      rw [Function.update_self] at hq
      cases hq
      first | exact hf | exact hp a ha
    · rw [Function.update_of_ne hi] at hq
      first | exact hs.follows i call' q hq | exact hk a (hs.presented i call' q hq a ha)

private theorem get_sane {tokenId : TokenId} {k : Except AppError (Option RefreshTokenData) → Proc Unit}
    {r : Option RefreshTokenData} (hs : Sane s) (hc : s.calls id = some (call, .call (.get tokenId) k))
    (hcalls : s'.calls = Function.update s.calls id (some (call, k (.ok r)))) (hhistory : s'.history = s.history)
    (hstore : s'.store = s.store) (hknown : s'.known = s.known) : Sane s' := by
  obtain ⟨stage, hf⟩ := hs.follows id call _ hc
  have hnext := hf.2 (.ok r) ⟨r, rfl⟩
  refine advance_sane hs (fun a ha => hknown ▸ ha) hcalls ⟨_, hnext⟩ (hknown ▸ hs.presented id call _ hc) ?_
  rw [hknown, hhistory]
  refine @Exclusive.release _ _ _ _ hs.exclusive [] fun h a ha => ?_
  by_cases hi : h = .call id
  · subst hi
    rw [holds_call (hcalls ▸ Function.update_self id _ s.calls) ?_] at ha
    · cases ha
    · rintro ttl data k' hk old rfl
      exact absurd (deleted_of_setex (hk ▸ hnext)).1 (next_get _ _ _)
  · rwa [holds_other hi hcalls fun a _ => congrFun hstore a] at ha

private theorem take_sane {old tokenId : TokenId} {k : Except AppError Unit → Proc Unit} (hs : Sane s)
    (hc : s.calls id = some (.refresh old, .call (.del tokenId) k)) (ho : (s.store old).isSome)
    (hcalls : s'.calls = Function.update s.calls id (some (.refresh old, k (.ok ())))) (hhistory : s'.history = s.history)
    (hstore : s'.store = Function.update s.store tokenId none) (hknown : s'.known = s.known) : Sane s' := by
  obtain ⟨stage, hf⟩ := hs.follows id _ _ hc
  obtain rfl : tokenId = old := by
    cases stage with
    | found => exact hf.1
    | _ => exact hf.1.elim
  have hnext := hf.2 (.ok ()) ⟨(), rfl⟩
  refine advance_sane hs (fun a ha => hknown ▸ ha) hcalls ⟨_, hnext⟩ (hknown ▸ hs.presented id _ _ hc) ?_
  rw [hknown, hhistory]
  have hheld : s.holds (.key tokenId) = some tokenId := if_pos ho
  refine hs.exclusive.take (k := .call id) hheld fun h a ha => ?_
  by_cases hi : h = .call id
  · subst hi
    refine .inl ⟨rfl, ?_⟩
    simp only [State.holds, State.issues, hcalls, Function.update_self] at ha
    cases hk : k (.ok ()) with
    | call c k' =>
      rw [hk] at ha
      cases c with
      | setex ttl data => exact (Option.some.inj ha).symm
      | _ => cases ha
    | _ =>
      rw [hk] at ha
      cases ha
  · refine .inr ?_
    by_cases hkey : h = .key tokenId
    · subst hkey
      simp [State.holds, hstore] at ha
    · rw [holds_other hi hcalls (store_other hkey hstore)] at ha
      exact ⟨hkey, ha⟩

private theorem logOut_sane {out tokenId : TokenId} {k : Except AppError Unit → Proc Unit} (hs : Sane s)
    (hc : s.calls id = some (.logout out, .call (.del tokenId) k))
    (ho : ∀ other data, s.issues other ≠ some (.refresh out, .setex ttlSeconds data))
    (hcalls : s'.calls = Function.update s.calls id (some (.logout out, k (.ok ()))))
    (hhistory : s'.history = .loggedOut out :: s.history) (hstore : s'.store = Function.update s.store tokenId none)
    (hknown : s'.known = s.known) : Sane s' := by
  obtain ⟨stage, hf⟩ := hs.follows id _ _ hc
  obtain rfl : tokenId = out := by
    cases stage with
    | start => exact hf.1
    | _ => exact hf.1.elim
  have hnext := hf.2 (.ok ()) ⟨(), rfl⟩
  refine advance_sane hs (fun a ha => hknown ▸ ha) hcalls ⟨_, hnext⟩ (hknown ▸ hs.presented id _ _ hc) ?_
  rw [hknown, hhistory]
  refine hs.exclusive.logOut (hs.presented id _ _ hc _ List.mem_cons_self) fun h a ha => ?_
  have hi : h ≠ .call id := by
    rintro rfl
    rw [holds_call (hcalls ▸ Function.update_self id _ s.calls) fun _ _ _ _ _ => Call.noConfusion] at ha
    cases ha
  have hkey : h ≠ .key tokenId := by
    rintro rfl
    simp [State.holds, hstore] at ha
  rw [holds_other hi hcalls (store_other hkey hstore)] at ha
  refine ⟨?_, ha⟩
  rintro rfl
  cases h with
  | key b =>
    simp only [State.holds] at ha
    split at ha
    · exact hkey (congrArg _ (Option.some.inj ha))
    · cases ha
  | call other =>
    simp only [State.holds] at ha
    split at ha
    · next old ttl data hissues =>
      cases ha
      obtain ⟨stage', hf'⟩ : ∃ k stage, Follows (.refresh a) (.call (.setex ttl data) k) stage := by
        simp only [State.issues] at hissues
        split at hissues
        · next call c k hcall =>
          cases hissues
          exact ⟨k, hs.follows other _ _ hcall⟩
        · cases hissues
      obtain ⟨stage', hf'⟩ := hf'
      exact ho other data ((deleted_of_setex hf').2 ▸ hissues)
    · cases ha

/-- A write under a new key: what was held and is held still, and the new token. -/
private theorem holds_setex {new : TokenId} {e : Entry} {h : Holder} {b : TokenId}
    (hcalls : s'.calls = Function.update s.calls id (some (call, p')))
    (hstore : s'.store = Function.update s.store new (some e)) (hend : s'.holds (.call id) = none)
    (hb : s'.holds h = some b) : h = .key new ∧ b = new ∨ h ≠ .call id ∧ s.holds h = some b := by
  by_cases hi : h = .call id
  · rw [hi, hend] at hb
    cases hb
  · by_cases hkey : h = .key new
    · subst hkey
      simp only [State.holds, hstore, Function.update_self, Option.isSome_some, if_true, Option.some.injEq] at hb
      exact .inl ⟨rfl, hb.symm⟩
    · rw [holds_other hi hcalls (store_other hkey hstore)] at hb
      exact .inr ⟨hi, hb⟩

private theorem store_sane {ttl : Nat} {data : RefreshTokenData} {k : Except AppError TokenId → Proc Unit}
    {new : TokenId} {e : Entry} (hs : Sane s) (hc : s.calls id = some (call, .call (.setex ttl data) k))
    (hnew : new ∉ s.known) (hcalls : s'.calls = Function.update s.calls id (some (call, k (.ok new))))
    (hhistory : s'.history = (deed call (.setex ttl data) new).toList ++ s.history)
    (hstore : s'.store = Function.update s.store new (some e)) (hknown : s'.known = new :: s.known) : Sane s' := by
  obtain ⟨stage, hf⟩ := hs.follows id _ _ hc
  have hnext : Follows call (k (.ok new)) .ended := by
    have := hf.2 (.ok new) ⟨new, rfl⟩
    cases call <;> exact this
  have hgrow : ∀ a ∈ s.known, a ∈ s'.known := fun a ha => hknown ▸ List.mem_cons_of_mem _ ha
  have hend : s'.holds (.call id) = none := by
    refine holds_call (hcalls ▸ Function.update_self id _ s.calls) ?_
    rintro ttl data k' hk old rfl
    cases (deleted_of_setex (hk ▸ hnext)).1
  refine advance_sane hs hgrow hcalls ⟨_, hnext⟩ (fun a ha => hgrow a (hs.presented id _ _ hc a ha)) ?_
  rw [hknown, hhistory]
  cases call with
  | login user =>
    exact hs.exclusive.logIn hnew fun h b hb => (holds_setex hcalls hstore hend hb).imp (fun h => h) And.right
  | refresh old =>
    have hheld : s.holds (.call id) = some old := by simp only [State.holds, State.issues, hc]
    exact hs.exclusive.rotate hnew hheld fun h b hb => holds_setex hcalls hstore hend hb
  | logout tokenId => cases stage <;> exact hf.1.elim

theorem step_sane (hs : Sane s) (ho : Orderly s a s') (h : step s a = some s') : Sane s' := by
  cases a with
  | tick =>
    cases h
    exact ⟨hs.follows, hs.presented, hs.exclusive⟩
  | call i call =>
    simp only [step] at h
    split at h
    · cases h
    have hs' := Option.some.inj h
    have hcalls : s'.calls = Function.update s.calls i (some (call, call.program)) := hs' ▸ rfl
    have hknown : s'.known = call.presented ++ s.known := hs' ▸ rfl
    have hhistory : s'.history = s.history := hs' ▸ rfl
    refine advance_sane hs (fun a ha => hknown ▸ List.mem_append_right _ ha) hcalls ⟨_, program_follows call⟩
      (fun a ha => hknown ▸ List.mem_append_left _ ha) ?_
    rw [hknown, hhistory]
    refine hs.exclusive.release fun h a ha => ?_
    by_cases hi : h = .call i
    · subst hi
      rw [holds_call (hcalls ▸ Function.update_self i _ s.calls) ?_] at ha
      · cases ha
      · rintro ttl data k hk old rfl
        cases (deleted_of_setex (hk ▸ program_follows (.refresh old))).1
    · rwa [holds_other hi hcalls fun _ _ => hs' ▸ rfl] at ha
  | step i draw =>
    obtain ⟨call, c, k, r, s₁, hc, hx, hcalls, hhistory, hstore, hknown⟩ := step_cases h
    have hissues : s.issues i = some (call, c) := by simp only [State.issues, hc]
    cases c with
    | get tokenId =>
      cases hx
      have hdeed : deed call (.get tokenId) draw = none := by cases call <;> rfl
      rw [hdeed] at hhistory
      exact get_sane hs hc hcalls hhistory hstore hknown
    | del tokenId =>
      cases hx
      simp only [Orderly, hissues] at ho
      cases call with
      | login user =>
        obtain ⟨stage, hf⟩ := hs.follows i _ _ hc
        cases stage <;> exact hf.1.elim
      | refresh old => exact take_sane hs hc ho hcalls hhistory hstore hknown
      | logout out => exact logOut_sane hs hc ho hcalls hhistory hstore hknown
    | setex ttl data =>
      simp only [RedisCmd.exec] at hx
      split at hx
      · cases hx
      next hnew =>
      cases hx
      exact store_sane hs hc hnew hcalls hhistory hstore hknown

end Step

theorem initial_sane : Sane initial := by
  have hholds : initial.holds = fun _ => none := funext fun h => by cases h <;> rfl
  exact ⟨nofun, nofun, hholds ▸ .initial⟩

/-- In a run of orderly steps every refresh token is used once. -/
theorem tokens_single_use {actions : List Action} {s : State} (hp : Along step Orderly initial actions)
    (h : run step initial actions = some s) : SingleUse s := by
  have he := (run_invariant (fun _ a _ hs ho h => step_sane (a := a) hs ho h) initial_sane hp h).exclusive
  have hheld : ∀ a, (s.entry a).isSome → s.holds (.key a) = some a := by
    intro a ha
    refine if_pos ?_
    cases hs : s.store a with
    | none => simp [State.entry, hs] at ha
    | some e => rfl
  refine ⟨he.rotatedOnce, fun a b ha hb hab => ?_, he.loggedOut⟩
  have := he.unique _ _ _ _ (hheld a ha) (hheld b hb) hab
  cases this
  rfl

/-- Nobody logs out, and every refresh still finds its key. -/
def unhindered (s : State) : Action → Bool
  | .step id _ =>
    match s.issues id with
    | some (.refresh oldTokenId, .del _) => (s.store oldTokenId).isSome
    | some (.logout _, .del _) => false
    | _ => true
  | _ => true

theorem orderly_of_unhindered {s s' : State} {a : Action} (h : unhindered s a) : Orderly s a s' := by
  cases a with
  | step id draw =>
    rcases hi : s.issues id with _ | ⟨call, c⟩ <;> simp only [unhindered, Orderly, hi] at h ⊢
    cases call <;> cases c <;> first | exact trivial | exact h | cases h
  | _ => trivial

/-- A login, a refresh of its token, and a refresh of the new one. -/
def demoSession : List Action :=
  demoLogin ++ [.call 2 (.refresh 5), .step 2 0, .step 2 0, .step 2 6, .call 3 (.refresh 6), .step 3 0, .step 3 0, .step 3 7]

theorem tokens_single_use_session : ∃ s, run step initial demoSession = some s ∧ SingleUse s := by
  obtain ⟨s, hs⟩ := Option.isSome_iff_exists.1 (by decide +kernel : (run step initial demoSession).isSome = true)
  have hp : Along step (fun s a _ => unhindered s a) initial demoSession := by decide +kernel
  exact ⟨s, hs, tokens_single_use (along_mono (fun _ _ _ => orderly_of_unhindered) hp) hs⟩

end DocAuto.Auth
