import Mathlib.Algebra.Order.Field.Rat
import Mathlib.Data.List.Basic

/-! JSON values as a program holds them after parsing. -/
namespace DocAuto.Json

inductive Value where
  | null
  | bool (b : Bool)
  | number (x : ℚ)
  | string (s : String)
  | array (items : List Value)
  | object (members : List (String × Value))
  deriving Repr

namespace Value

/-- The value of a property; `undefined` is `none`. -/
def get (v : Value) (name : String) : Option Value :=
  match v with
  | object members => members.lookup name
  | _ => none

/-- `Object.keys`. -/
def keys : Value → List String
  | object members => members.map Prod.fst
  | _ => []

/-- `{ ...a, ...b }`: a property of both has the value it has in `b`. -/
def spread (a b : List (String × Value)) : List (String × Value) :=
  a.map (fun m => (m.1, (b.lookup m.1).getD m.2)) ++ b.filter fun m => (a.lookup m.1).isNone

end Value

section Lookup
variable {α β : Type} {a : List (String × α)} {name : String}

theorem lookup_map_value (f : String × α → β) :
    (a.map fun m => (m.1, f m)).lookup name = (a.lookup name).map fun v => f (name, v) := by
  induction a with
  | nil => rfl
  | cons m a ih =>
    obtain ⟨k, v⟩ := m
    by_cases hk : name = k
    · subst hk
      simp
    · have hne : (name == k) = false := by simpa using hk
      simp only [List.map_cons, List.lookup_cons, hne, ih]

theorem lookup_filter_key {p : String → Bool} :
    (a.filter fun m => p m.1).lookup name = if p name then a.lookup name else none := by
  induction a with
  | nil => simp
  | cons m a ih =>
    obtain ⟨k, v⟩ := m
    by_cases hk : name = k
    · subst hk
      cases hp : p name <;> simp only [List.filter, hp, List.lookup_cons, beq_self_eq_true, if_true, Bool.false_eq_true, if_false] at ih ⊢
      exact ih
    · have hne : (name == k) = false := by simpa using hk
      cases hp : p k <;> simp [List.filter, hp, List.lookup_cons, hne, ih]

/-- A list all of whose members are read. -/
theorem mapM_read {read : α → Option β} {f : α → β} {as : List α} (h : ∀ a ∈ as, read a = some (f a)) :
    as.mapM read = some (as.map f) := by
  induction as with
  | nil => rfl
  | cons a as ih =>
    rw [List.mapM_cons, h a List.mem_cons_self, ih fun b hb => h b (List.mem_cons_of_mem a hb)]
    rfl

/-- The members that a list of distinct keys gives: each key has the value it is given, if any. -/
theorem lookup_filterMap {keys : List β} {key : β → String} (hn : (keys.map key).Nodup) (value : β → Option α) {k : β}
    (hk : k ∈ keys) : (keys.filterMap fun k => (value k).map fun v => (key k, v)).lookup (key k) = value k := by
  induction keys with
  | nil => cases hk
  | cons j keys ih =>
    obtain ⟨hj, hn⟩ := List.nodup_cons.1 (show (key j :: keys.map key).Nodup from hn)
    rcases List.mem_cons.1 hk with rfl | hk
    · cases hv : value k with
      | some v => simp [hv]
      | none =>
        rw [List.filterMap_cons_none (by simp [hv]), List.lookup_eq_none_iff]
        rintro m hm
        obtain ⟨i, hi, him⟩ := List.mem_filterMap.1 hm
        obtain ⟨v, -, rfl⟩ := Option.map_eq_some_iff.1 him
        refine bne_iff_ne.2 fun he => hj ?_
        exact he ▸ List.mem_map_of_mem hi
    · have hne : key k ≠ key j := fun he => hj (he ▸ List.mem_map_of_mem hk)
      have hbeq : (key k == key j) = false := beq_eq_false_iff_ne.2 hne
      cases hv : value j with
      | none =>
        rw [List.filterMap_cons_none (by simp [hv])]
        exact ih hn hk
      | some v =>
        rw [List.filterMap_cons_some (b := (key j, v)) (by simp [hv]), List.lookup_cons, hbeq]
        exact ih hn hk

end Lookup

/-- A property of a spread object is that of the second object, else that of the first. -/
theorem Value.lookup_spread {a b : List (String × Value)} {name : String} :
    (spread a b).lookup name = (b.lookup name).or (a.lookup name) := by
  rw [spread, List.lookup_append, lookup_map_value fun m => (b.lookup m.1).getD m.2,
    lookup_filter_key (p := fun k => (a.lookup k).isNone)]
  cases ha : a.lookup name <;> cases hb : b.lookup name <;> simp [hb]

end DocAuto.Json
