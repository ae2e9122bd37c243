import DocAuto.Json.Value

/-! Schemas: what a validator makes of a value. A schema may change the value it accepts; it lists the
issues of the one it does not. -/
namespace DocAuto.Json

structure Issue where
  path : List String
  message : String
  deriving DecidableEq, Repr

/-- `aborted` leaves no value to go on with; a value with issues is still checked further. -/
inductive Outcome where
  | aborted (issues : List Issue)
  | done (value : Option Value) (issues : List Issue)

/-- `none` stands for `undefined`. -/
abbrev Schema := Option Value → Outcome

namespace Outcome

def issues : Outcome → List Issue
  | aborted issues | done _ issues => issues

def value : Outcome → Option Value
  | aborted _ => none
  | done value _ => value

def isAborted : Outcome → Bool
  | aborted _ => true
  | done _ _ => false

/-- The outcome of a part. -/
def within (name : String) : Outcome → Outcome
  | aborted issues => aborted (issues.map fun i => { i with path := name :: i.path })
  | done value issues => done value (issues.map fun i => { i with path := name :: i.path })

@[simp] theorem within_value (name : String) (o : Outcome) : (o.within name).value = o.value := by cases o <;> rfl

@[simp] theorem within_isAborted (name : String) (o : Outcome) : (o.within name).isAborted = o.isAborted := by
  cases o <;> rfl

@[simp] theorem within_issues (name : String) (o : Outcome) :
    (o.within name).issues = o.issues.map fun i => { i with path := name :: i.path } := by cases o <;> rfl

/-- Without issues and not aborted there is a value, or `undefined`. -/
theorem clean {o : Outcome} (ha : o.isAborted = false) (hi : o.issues = []) : o = done o.value [] := by
  cases o with
  | aborted issues => cases ha
  | done value issues => exact congrArg (done value) hi

end Outcome

/-- The parsed value, or the issues. -/
def safeParse (s : Schema) (v : Option Value) : Except (List Issue) (Option Value) :=
  match s v with
  | .done value [] => .ok value
  | .done _ issues | .aborted issues => .error issues

theorem safeParse_ok {s : Schema} {v w : Option Value} : safeParse s v = .ok w ↔ s v = .done w [] := by
  unfold safeParse
  split
  · next h => simp [h]
  · next h => simp_all
  · next h => simp [h]

namespace Schema

/-! The schemas. -/

def typeName : Option Value → String
  | none => "undefined"
  | some .null => "null"
  | some (.bool _) => "boolean"
  | some (.number _) => "number"
  | some (.string _) => "string"
  | some (.array _) => "array"
  | some (.object _) => "object"

def mismatch (expected : String) (v : Option Value) : Outcome :=
  .aborted [⟨[], if v.isNone then "Required" else "Expected " ++ expected ++ ", received " ++ typeName v⟩]

/-- A check of a value of the right type. -/
structure Check (α : Type) where
  holds : α → Bool
  message : String

def Check.run {α : Type} (checks : List (Check α)) (a : α) : List Issue :=
  (checks.filter fun c => !c.holds a).map fun c => ⟨[], c.message⟩

/-- A string, brought into the form `f` gives it before it is checked. -/
def string (f : String → String) (checks : List (Check String)) : Schema
  | some (.string s) => .done (some (.string (f s))) (Check.run checks (f s))
  | v => mismatch "string" v

def number (checks : List (Check ℚ)) : Schema
  | some (.number x) => .done (some (.number x)) (Check.run checks x)
  | v => mismatch "number" v

/-- A number, made of whatever value `f` makes one of. -/
def coerced (f : Option Value → Option ℚ) (checks : List (Check ℚ)) : Schema := fun v =>
  match f v with
  | some x => .done (some (.number x)) (Check.run checks x)
  | none => .aborted [⟨[], "Expected number, received nan"⟩]

def enum (options : List String) : Schema
  | some (.string s) =>
    if s ∈ options then .done (some (.string s)) []
    else .aborted [⟨[], "Invalid enum value. Expected " ++ " | ".intercalate (options.map fun o => "'" ++ o ++ "'") ++
      ", received '" ++ s ++ "'"⟩]
  | v => mismatch ("'" ++ "' | '".intercalate options ++ "'") v

def nullable (s : Schema) : Schema
  | some .null => .done (some .null) []
  | v => s v

def optional (s : Schema) : Schema
  | none => .done none []
  | v => s v

def default (value : Value) (s : Schema) : Schema
  | none => s (some value)
  | v => s v

def array (item : Schema) (checks : List (Check (List Value))) : Schema
  | some (.array items) =>
    let results := items.zipIdx.map fun r => (item (some r.1)).within (toString r.2)
    let issues := Check.run checks items ++ results.flatMap Outcome.issues
    if results.any Outcome.isAborted then .aborted issues
    else .done (some (.array (results.filterMap Outcome.value))) issues
  | v => mismatch "array" v

/-- Properties that the schema does not name are dropped. -/
def object (fields : List (String × Schema)) : Schema
  | some (.object members) =>
    let results := fields.map fun f => (f.1, (f.2 (members.lookup f.1)).within f.1)
    let issues := results.flatMap fun r => r.2.issues
    if results.any fun r => r.2.isAborted then .aborted issues
    else .done (some (.object (results.filterMap fun r => r.2.value.map fun v => (r.1, v)))) issues
  | v => mismatch "object" v

def refine (s : Schema) (p : Option Value → Bool) (message : String) : Schema := fun v =>
  match s v with
  | .aborted issues => .aborted issues
  | .done value issues => .done value (issues ++ if p value then [] else [⟨[], message⟩])

/-! What is parsed once is parsed. -/

/-- A value that has been parsed is accepted as it is. -/
def Stable (s : Schema) : Prop := ∀ v w, s v = .done w [] → s w = .done w []

/-- Of a value that is there, it makes a value that is there. -/
def Present (s : Schema) : Prop := ∀ v w issues, s (some v) = .done w issues → w.isSome

section Stable
variable {s : Schema} {v w : Option Value}

/-! What a schema says about a value that it accepts. -/

theorem checks_hold {α : Type} {checks : List (Check α)} {a : α} (h : Check.run checks a = []) :
    ∀ c ∈ checks, c.holds a := by
  intro c hc
  have hnot := List.filter_eq_nil_iff.1 (List.map_eq_nil_iff.1 h) c hc
  simpa using hnot

theorem string_done {f : String → String} {checks : List (Check String)} (h : string f checks v = .done w []) :
    ∃ s, v = some (.string s) ∧ w = some (.string (f s)) ∧ Check.run checks (f s) = [] := by
  unfold string at h
  split at h
  · next s =>
    obtain ⟨rfl, hc⟩ := Outcome.done.inj h
    exact ⟨s, rfl, rfl, hc⟩
  · cases h

theorem number_done {checks : List (Check ℚ)} (h : number checks v = .done w []) :
    ∃ x, v = some (.number x) ∧ w = some (.number x) ∧ Check.run checks x = [] := by
  unfold number at h
  split at h
  · next x =>
    obtain ⟨rfl, hc⟩ := Outcome.done.inj h
    exact ⟨x, rfl, rfl, hc⟩
  · cases h

theorem coerced_done {f : Option Value → Option ℚ} {checks : List (Check ℚ)} (h : coerced f checks v = .done w []) :
    ∃ x, f v = some x ∧ w = some (.number x) ∧ Check.run checks x = [] := by
  unfold coerced at h
  split at h
  · next x hx =>
    obtain ⟨rfl, hc⟩ := Outcome.done.inj h
    exact ⟨x, hx, rfl, hc⟩
  · cases h

theorem enum_done {options : List String} (h : enum options v = .done w []) :
    ∃ s ∈ options, v = some (.string s) ∧ w = some (.string s) := by
  unfold enum at h
  split at h
  · next s =>
    split at h
    · next hs =>
      obtain ⟨rfl, -⟩ := Outcome.done.inj h
      exact ⟨s, hs, rfl, rfl⟩
    · cases h
  · cases h

theorem nullable_done (h : nullable s v = .done w []) : w = some .null ∨ s v = .done w [] := by
  unfold nullable at h
  split at h
  · exact .inl (Outcome.done.inj h).1.symm
  · exact .inr h

theorem optional_done (h : optional s v = .done w []) : w = none ∨ s v = .done w [] := by
  unfold optional at h
  split at h
  · exact .inl (Outcome.done.inj h).1.symm
  · exact .inr h

theorem nullish_done (h : optional (nullable s) v = .done w []) : w = none ∨ w = some .null ∨ s v = .done w [] :=
  (optional_done h).imp_right nullable_done

theorem default_done {value : Value} (h : default value s v = .done w []) : ∃ u, s (some u) = .done w [] := by
  cases v with
  | none => exact ⟨value, h⟩
  | some u => exact ⟨u, h⟩

theorem refine_done {p : Option Value → Bool} {message : String} (h : refine s p message v = .done w []) :
    s v = .done w [] ∧ p w := by
  unfold refine at h
  split at h
  · cases h
  · next value issues hv =>
    obtain ⟨rfl, hi⟩ := Outcome.done.inj h
    obtain ⟨rfl, hp⟩ := List.append_eq_nil_iff.1 hi
    refine ⟨hv, ?_⟩
    by_contra hn
    rw [if_neg hn] at hp
    cases hp

/-! What is parsed is parsed for good. -/

theorem string_stable {f : String → String} (hf : ∀ s, f (f s) = f s) (checks : List (Check String)) :
    Stable (string f checks) := by
  intro v w h
  obtain ⟨s, rfl, rfl, hc⟩ := string_done h
  rw [string, hf, hc]

theorem number_stable (checks : List (Check ℚ)) : Stable (number checks) := by
  intro v w h
  obtain ⟨x, rfl, rfl, hc⟩ := number_done h
  rw [number, hc]

theorem coerced_stable {f : Option Value → Option ℚ} (hf : ∀ x, f (some (.number x)) = some x)
    (checks : List (Check ℚ)) : Stable (coerced f checks) := by
  intro v w h
  obtain ⟨x, -, rfl, hc⟩ := coerced_done h
  simp only [coerced, hf, hc]

theorem enum_stable (options : List String) : Stable (enum options) := by
  intro v w h
  obtain ⟨s, hs, rfl, rfl⟩ := enum_done h
  rw [enum, if_pos hs]

theorem nullable_stable (hs : Stable s) : Stable (nullable s) := by
  intro v w h
  rcases nullable_done h with rfl | h
  · rfl
  · have hw := hs v w h
    unfold nullable
    split
    · rfl
    · exact hw

theorem optional_stable (hs : Stable s) : Stable (optional s) := by
  intro v w h
  rcases optional_done h with rfl | h
  · rfl
  · have hw := hs v w h
    unfold optional
    split
    · rfl
    · exact hw

theorem default_stable {value : Value} (hs : Stable s) (hp : Present s) : Stable (default value s) := by
  intro v w h
  obtain ⟨u, hu⟩ := default_done h
  obtain ⟨x, rfl⟩ := Option.isSome_iff_exists.1 (hp u w [] hu)
  exact hs _ _ hu

theorem refine_stable {p : Option Value → Bool} {message : String} (hs : Stable s) : Stable (refine s p message) := by
  intro v w h
  obtain ⟨hv, hp⟩ := refine_done h
  rw [refine, hs v w hv]
  exact congrArg (Outcome.done w) (if_pos hp)

section Parts

private theorem within_clean {name : String} {o : Outcome} (ha : (o.within name).isAborted = false)
    (hi : (o.within name).issues = []) : o = .done o.value [] :=
  Outcome.clean ((o.within_isAborted name).symm.trans ha)
    (List.map_eq_nil_iff.1 ((o.within_issues name).symm.trans hi))

variable {fields : List (String × Schema)} {members : List (String × Value)}

/-- What an accepted object says about its properties. -/
theorem object_done (h : object fields v = .done w []) : ∃ members, v = some (.object members) ∧
    (∀ f ∈ fields, f.2 (members.lookup f.1) = .done (f.2 (members.lookup f.1)).value []) ∧
    w = some (.object (fields.filterMap fun f => (f.2 (members.lookup f.1)).value.map fun v => (f.1, v))) := by
  unfold object at h
  split at h
  swap
  · cases h
  next members =>
  dsimp only at h
  split at h
  · cases h
  next ha =>
  obtain ⟨rfl, hi⟩ := Outcome.done.inj h
  rw [List.any_map, List.any_eq_true, not_exists] at ha
  rw [List.flatMap_map, List.flatMap_eq_nil_iff] at hi
  refine ⟨members, rfl, fun f hf => within_clean (Bool.eq_false_iff.2 fun hab => ha f ⟨hf, hab⟩) (hi f hf), ?_⟩
  rw [List.filterMap_map]
  refine congrArg (fun ms => some (Value.object ms)) (List.filterMap_congr fun f _ => ?_)
  simp

/-- An object all of whose properties are accepted as they are. -/
theorem object_accepts (value : String × Schema → Option Value)
    (h : ∀ f ∈ fields, f.2 (members.lookup f.1) = .done (value f) []) :
    object fields (some (.object members)) =
      .done (some (.object (fields.filterMap fun f => (value f).map fun v => (f.1, v)))) [] := by
  have hresults : fields.map (fun f => (f.1, (f.2 (members.lookup f.1)).within f.1)) =
      fields.map fun f => (f.1, Outcome.done (value f) []) :=
    List.map_congr_left fun f hf => by rw [h f hf]; rfl
  simp only [object, hresults, List.any_map, List.flatMap_map, List.filterMap_map]
  rw [if_neg]
  · exact congrArg (Outcome.done _) (List.flatMap_eq_nil_iff.2 fun _ _ => rfl)
  · rw [List.any_eq_true]
    rintro ⟨f, -, hf⟩
    cases hf

/-- An object whose members are those that the schema names, each accepted as it is. -/
theorem object_self (hn : (fields.map Prod.fst).Nodup)
    (h : List.Forall₂ (fun f m => f.1 = m.1 ∧ f.2 (some m.2) = .done (some m.2) []) fields members) :
    object fields (some (.object members)) = .done (some (.object members)) [] := by
  have hmembers : (∀ f ∈ fields, f.2 (members.lookup f.1) = .done (members.lookup f.1) []) ∧
      (fields.filterMap fun f => (members.lookup f.1).map fun v => (f.1, v)) = members := by
    induction h with
    | nil => exact ⟨nofun, rfl⟩
    | @cons f m fields members hm hms ih =>
      obtain ⟨hne, hn⟩ := List.nodup_cons.1 (show (f.1 :: fields.map Prod.fst).Nodup from hn)
      obtain ⟨hname, hself⟩ := hm
      have hfirst : (m :: members).lookup f.1 = some m.2 := by rw [hname, List.lookup_cons_self]
      have hrest : ∀ g ∈ fields, (m :: members).lookup g.1 = members.lookup g.1 := by
        intro g hg
        have hk : g.1 ≠ m.1 := fun he => hne (hname ▸ he ▸ List.mem_map_of_mem hg)
        rw [List.lookup_cons, beq_eq_false_iff_ne.2 hk]
      refine ⟨List.forall_mem_cons.2 ⟨by rw [hfirst, hself], fun g hg => ?_⟩, ?_⟩
      · rw [hrest g hg]
        exact (ih hn).1 g hg
      · rw [List.filterMap_cons_some (by rw [hfirst, Option.map_some]), hname, List.filterMap_congr fun g hg => by rw [hrest g hg]]
        exact congrArg _ (ih hn).2
  rw [object_accepts (fun f => members.lookup f.1) hmembers.1, hmembers.2]

theorem object_stable (hn : (fields.map Prod.fst).Nodup) (hs : ∀ f ∈ fields, Stable f.2) : Stable (object fields) := by
  intro v w h
  obtain ⟨members, rfl, hclean, rfl⟩ := object_done h
  refine object_accepts (fun f => (f.2 (members.lookup f.1)).value) fun f hf => ?_
  rw [lookup_filterMap hn (fun f => (f.2 (members.lookup f.1)).value) hf]
  exact hs f hf _ _ (hclean f hf)

/-- The schema of an object whose properties are named once, and parsed for good. -/
def Settled (s : Schema) : Prop :=
  ∃ fields, s = object fields ∧ (fields.map Prod.fst).Nodup ∧ ∀ f ∈ fields, Stable f.2

theorem object_present : Present (object fields) := by
  intro v w issues h
  unfold object at h
  split at h
  · dsimp only at h
    split at h
    · cases h
    · exact (Outcome.done.inj h).1 ▸ rfl
  · cases h

/-- Nothing but what the schema names is left. -/
theorem object_keys (h : object fields v = .done w []) : ∀ x, w = some x → x.keys ⊆ fields.map Prod.fst := by
  obtain ⟨members, -, -, rfl⟩ := object_done h
  rintro x ⟨⟩ k hk
  obtain ⟨m, hm, rfl⟩ := List.mem_map.1 hk
  obtain ⟨f, hf, he⟩ := List.mem_filterMap.1 hm
  obtain ⟨v, -, rfl⟩ := Option.map_eq_some_iff.1 he
  exact List.mem_map_of_mem hf

/-- What an accepted object makes of each of its properties. -/
theorem object_reads (hn : (fields.map Prod.fst).Nodup) (h : object fields v = .done w []) : ∃ x, w = some x ∧
    (∀ f ∈ fields, ∃ u, f.2 u = .done (x.get f.1) []) ∧ ∀ k ∈ x.keys, ∃ f ∈ fields, f.1 = k ∧ (x.get f.1).isSome := by
  obtain ⟨members, -, hclean, rfl⟩ := object_done h
  have hget := fun f (hf : f ∈ fields) =>
    lookup_filterMap hn (fun f : String × Schema => (f.2 (members.lookup f.1)).value) hf
  refine ⟨_, rfl, fun f hf => ⟨members.lookup f.1, (hclean f hf).trans (congrArg (Outcome.done · []) (hget f hf).symm)⟩, ?_⟩
  rintro k hk
  obtain ⟨m, hm, rfl⟩ := List.mem_map.1 hk
  obtain ⟨f, hf, he⟩ := List.mem_filterMap.1 hm
  obtain ⟨v, hv, rfl⟩ := Option.map_eq_some_iff.1 he
  exact ⟨f, hf, rfl, (congrArg Option.isSome ((hget f hf).trans hv) :)⟩

theorem coerced_present (f : Option Value → Option ℚ) (checks : List (Check ℚ)) : Present (coerced f checks) := by
  intro v w issues h
  unfold coerced at h
  split at h
  · exact (Outcome.done.inj h).1 ▸ rfl
  · cases h

variable {item : Schema} {checks : List (Check (List Value))} {items : List Value}

private theorem exists_zipIdx {x : Value} (hx : x ∈ items) : ∃ i, (x, i) ∈ items.zipIdx := by
  rw [← List.zipIdx_map_fst 0 items] at hx
  obtain ⟨⟨y, i⟩, hy, rfl⟩ := List.mem_map.1 hx
  exact ⟨i, hy⟩

/-- What an accepted array says about its items. -/
theorem array_done (h : array item checks v = .done w []) : ∃ items, v = some (.array items) ∧ Check.run checks items = [] ∧
    (∀ x ∈ items, item (some x) = .done (item (some x)).value []) ∧
    w = some (.array (items.filterMap fun x => (item (some x)).value)) := by
  unfold array at h
  split at h
  swap
  · cases h
  next items =>
  dsimp only at h
  split at h
  · cases h
  next ha =>
  obtain ⟨rfl, hi⟩ := Outcome.done.inj h
  obtain ⟨hc, hi⟩ := List.append_eq_nil_iff.1 hi
  rw [List.any_map, List.any_eq_true, not_exists] at ha
  rw [List.flatMap_map, List.flatMap_eq_nil_iff] at hi
  refine ⟨items, rfl, hc, fun x hx => ?_, ?_⟩
  · obtain ⟨i, hx⟩ := exists_zipIdx hx
    exact within_clean (Bool.eq_false_iff.2 fun hab => ha (x, i) ⟨hx, hab⟩) (hi (x, i) hx)
  · refine congrArg (fun xs => some (Value.array xs)) ?_
    conv_rhs => rw [← List.zipIdx_map_fst 0 items, List.filterMap_map]
    rw [List.filterMap_map]
    exact List.filterMap_congr fun r _ => by simp

/-- An array all of whose items are accepted as they are. -/
theorem array_accepts (hc : Check.run checks items = []) (h : ∀ x ∈ items, item (some x) = .done (some x) []) :
    array item checks (some (.array items)) = .done (some (.array items)) [] := by
  have hresults : items.zipIdx.map (fun r => (item (some r.1)).within (toString r.2)) =
      items.zipIdx.map fun r => Outcome.done (some r.1) [] := by
    refine List.map_congr_left fun r hr => ?_
    have hmem : r.1 ∈ items := by
      rw [← List.zipIdx_map_fst 0 items]
      exact List.mem_map_of_mem hr
    rw [h r.1 hmem]
    rfl
  simp only [array, hresults, List.any_map, List.flatMap_map, List.filterMap_map, hc]
  rw [if_neg]
  · refine congrArg₂ (fun xs is => Outcome.done (some (Value.array xs)) is) ?_ (List.flatMap_eq_nil_iff.2 fun _ _ => rfl)
    conv_rhs => rw [← List.zipIdx_map_fst 0 items]
    rw [← List.filterMap_eq_map]
    rfl
  · rw [List.any_eq_true]
    rintro ⟨r, -, hr⟩
    cases hr

/-- What an accepted array makes of its items. -/
theorem array_reads (hp : Present item) (h : array item checks v = .done w []) : ∃ items xs : List Value,
    w = some (.array xs) ∧ xs.length = items.length ∧ Check.run checks items = [] ∧ ∀ x ∈ xs, ∃ u, item u = .done (some x) [] := by
  obtain ⟨items, -, hrun, hclean, rfl⟩ := array_done h
  let parsed := fun x => (item (some x)).value.getD .null
  have hparsed : ∀ x ∈ items, (item (some x)).value = some (parsed x) := by
    intro x hx
    obtain ⟨y, hy⟩ := Option.isSome_iff_exists.1 (hp x _ _ (hclean x hx))
    exact hy.trans (congrArg some (by rw [show parsed x = (item (some x)).value.getD .null from rfl, hy]; rfl))
  have hmap : items.filterMap (fun x => (item (some x)).value) = items.map parsed := by
    rw [← List.filterMap_eq_map]
    exact List.filterMap_congr hparsed
  rw [hmap]
  refine ⟨items, _, rfl, List.length_map .., hrun, fun y hy => ?_⟩
  obtain ⟨x, hx, rfl⟩ := List.mem_map.1 hy
  exact ⟨some x, (hclean x hx).trans (congrArg (Outcome.done · []) (hparsed x hx))⟩

/-- Checks of an array are about how many items it has. -/
theorem array_stable (hs : Stable item) (hp : Present item)
    (hc : ∀ c ∈ checks, ∀ xs ys : List Value, xs.length = ys.length → c.holds xs = c.holds ys) : Stable (array item checks) := by
  intro v w h
  obtain ⟨items, xs, rfl, hlen, hrun, hread⟩ := array_reads hp h
  refine array_accepts ?_ fun x hx => ?_
  · refine List.map_eq_nil_iff.2 (List.filter_eq_nil_iff.2 fun c hcm => ?_)
    rw [hc c hcm _ _ hlen]
    exact List.filter_eq_nil_iff.1 (List.map_eq_nil_iff.1 hrun) c hcm
  · obtain ⟨u, hu⟩ := hread x hx
    exact hs _ _ hu

end Parts
end Stable
end Schema
end DocAuto.Json
