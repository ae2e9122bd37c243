import Mathlib.Data.List.Nodup

/-! Tables as lists of rows with a key, and how the row of a key follows the
changes an SQL statement makes to the list. -/
namespace DocAuto.Table
variable {α κ : Type} {key : α → κ} {rows : List α} {r : α} {k j : κ}

/-- The key is a primary key. -/
def Keyed (key : α → κ) (rows : List α) : Prop := (rows.map key).Nodup

theorem Keyed.map {f : α → α} (hu : Keyed key rows) (hf : ∀ r, key (f r) = key r) : Keyed key (rows.map f) := by
  simpa [Keyed, Function.comp_def, hf] using hu

theorem Keyed.filter (hu : Keyed key rows) (p : α → Bool) : Keyed key (rows.filter p) :=
  List.Nodup.sublist (List.filter_sublist.map key) hu

theorem mem_selected (hu : Keyed key rows) {p : α → Bool} (hr : r ∈ rows) :
    key r ∈ (rows.filter p).map key ↔ p r = true := by
  refine ⟨fun h => ?_, fun h => List.mem_map.2 ⟨r, List.mem_filter.2 ⟨hr, h⟩, rfl⟩⟩
  obtain ⟨x, hx, hk⟩ := List.mem_map.1 h
  obtain ⟨hx, hp⟩ := List.mem_filter.1 hx
  rwa [← List.inj_on_of_nodup_map hu hx hr hk]

variable [DecidableEq κ]

/-- The row with key `k`. -/
def lookup (key : α → κ) (k : κ) (rows : List α) : Option α := rows.find? fun r => key r == k

@[simp] theorem lookup_nil : lookup key k [] = none := rfl

theorem key_of_lookup (h : lookup key k rows = some r) : key r = k := by
  simpa using List.find?_some h

theorem mem_of_lookup (h : lookup key k rows = some r) : r ∈ rows := List.mem_of_find?_eq_some h

theorem lookup_eq_none : lookup key k rows = none ↔ ∀ r ∈ rows, key r ≠ k := by
  simp [lookup]

theorem lookup_of_mem (hu : Keyed key rows) (h : r ∈ rows) : lookup key (key r) rows = some r := by
  cases hl : lookup key (key r) rows with
  | none => exact absurd rfl (lookup_eq_none.1 hl r h)
  | some s => exact congrArg some (List.inj_on_of_nodup_map hu (mem_of_lookup hl) h (key_of_lookup hl))

/-- An update of rows in place that keeps their keys. -/
theorem lookup_map {f : α → α} (hf : ∀ r, key (f r) = key r) :
    lookup key k (rows.map f) = (lookup key k rows).map f := by
  have hkey : (fun r => key r == k) ∘ f = fun r => key r == k := by
    funext r
    rw [Function.comp_apply, hf]
  rw [lookup, List.find?_map, hkey, lookup]

theorem lookup_concat : lookup key k (rows ++ [r]) = (lookup key k rows).or (if key r = k then some r else none) := by
  by_cases h : key r = k <;> simp [lookup, List.find?_append, h]

theorem lookup_concat_ne (h : key r ≠ k) : lookup key k (rows ++ [r]) = lookup key k rows := by
  simp [lookup_concat, h]

theorem lookup_concat_self (h : lookup key (key r) rows = none) :
    lookup key (key r) (rows ++ [r]) = some r := by
  simp [lookup_concat, h]

/-- A condition that contains a test of the key selects at most one row. -/
theorem filter_key (hu : Keyed key rows) (p : α → Bool) :
    (rows.filter fun r => p r && key r == k) = ((lookup key k rows).filter p).toList := by
  induction rows with
  | nil => rfl
  | cons s rows ih =>
    obtain ⟨hs, hu⟩ := List.nodup_cons.1 hu
    by_cases hk : key s = k
    · have hnone : (rows.filter fun r => p r && key r == k) = [] := by
        refine List.filter_eq_nil_iff.2 fun r hr => ?_
        have : key r ≠ k := fun h => hs (List.mem_map.2 ⟨r, hr, h.trans hk.symm⟩)
        simp [this]
      cases hp : p s <;> simp [lookup, hk, hp, hnone, Option.filter]
    · simpa [lookup, hk] using ih hu

theorem any_key (hu : Keyed key rows) (p : α → Bool) :
    (rows.any fun r => key r == k && p r) = (lookup key k rows).any p := by
  refine Bool.eq_iff_iff.2 ⟨fun h => ?_, fun h => ?_⟩
  · obtain ⟨r, hr, hp⟩ := List.any_eq_true.1 h
    simp only [Bool.and_eq_true, beq_iff_eq] at hp
    rw [← hp.1, lookup_of_mem hu hr]
    exact hp.2
  · cases hl : lookup key k rows with
    | none => simp [hl] at h
    | some r => exact List.any_eq_true.2 ⟨r, mem_of_lookup hl, by simpa [key_of_lookup hl, hl] using h⟩

theorem any_key_eq : (rows.any fun r => key r == k) = (lookup key k rows).isSome := by
  rw [Bool.eq_iff_iff, lookup, List.find?_isSome, List.any_eq_true]

/-- Deleting other rows leaves the row of a key. -/
theorem lookup_filter_of {p : α → Bool} (h : ∀ r, key r = k → p r = true) :
    lookup key k (rows.filter p) = lookup key k rows := by
  rw [lookup, List.find?_filter]
  congr 1
  funext r
  by_cases hk : key r = k <;> simp [hk, h]

theorem lookup_filter_key {p : α → Bool} (h : ∀ r, key r = k → p r = false) :
    lookup key k (rows.filter p) = none := by
  rw [lookup_eq_none]
  intro r hr hk
  simp [List.mem_filter, h r hk] at hr

/-- Row by row, an update of the rows that satisfy a condition. -/
theorem map_where (hu : Keyed key rows) {f : α → α} (hf : ∀ r, key (f r) = key r) (p : α → Bool) :
    ((rows.filter p).map key).foldl (fun rows k => rows.map fun r => if key r = k then f r else r) rows =
      rows.map fun r => if p r then f r else r := by
  have fold : ∀ (ks : List κ) (rows : List α), ks.Nodup →
      ks.foldl (fun rows k => rows.map fun r => if key r = k then f r else r) rows =
        rows.map fun r => if key r ∈ ks then f r else r := by
    intro ks
    induction ks with
    | nil => simp
    | cons k ks ih =>
      intro rows hk
      obtain ⟨hnew, hks⟩ := List.nodup_cons.1 hk
      rw [List.foldl_cons, ih _ hks, List.map_map]
      refine List.map_congr_left fun r _ => ?_
      by_cases hr : key r = k
      · simp [hr, hf, hnew]
      · simp [hr]
  rw [fold _ _ (hu.filter p)]
  refine List.map_congr_left fun r hr => ?_
  simp only [mem_selected hu hr]

/-- Row by row, a deletion of the rows that satisfy a condition. -/
theorem filter_where (hu : Keyed key rows) (p : α → Bool) :
    ((rows.filter p).map key).foldl (fun rows k => rows.filter fun r => decide (key r ≠ k)) rows =
      rows.filter fun r => !p r := by
  have fold : ∀ (ks : List κ) (rows : List α),
      ks.foldl (fun rows k => rows.filter fun r => decide (key r ≠ k)) rows =
        rows.filter fun r => decide (key r ∉ ks) := by
    intro ks
    induction ks with
    | nil => simp
    | cons k ks ih =>
      intro rows
      rw [List.foldl_cons, ih, List.filter_filter]
      refine List.filter_congr fun r _ => ?_
      simp [Bool.and_comm]
  rw [fold]
  refine List.filter_congr fun r hr => ?_
  simp [mem_selected hu hr]

theorem Keyed.concat (hu : Keyed key rows) (h : lookup key (key r) rows = none) : Keyed key (rows ++ [r]) := by
  simpa [Keyed, List.nodup_append, lookup_eq_none] using ⟨hu, lookup_eq_none.1 h⟩

end DocAuto.Table
