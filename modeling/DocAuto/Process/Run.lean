import Mathlib.Data.List.Induction
import Mathlib.Data.Option.Basic

/-! Finite runs of a partial transition function, driven by a list of actions.
A run stops with `none` at the first action that is not enabled. -/
namespace DocAuto.Process
variable {C A : Type}

/-- Apply the actions in order. -/
def run (step : C → A → Option C) : C → List A → Option C
  | c, [] => some c
  | c, a :: as => (step c a).bind fun d => run step d as

/-- Every step the actions take satisfies `P`, read on the configurations around it. -/
def Along (step : C → A → Option C) (P : C → A → C → Prop) : C → List A → Prop
  | _, [] => True
  | c, a :: as => ∀ d, step c a = some d → P c a d ∧ Along step P d as

/-- How many of the steps satisfy `p`. -/
def tally (step : C → A → Option C) (p : C → A → C → Bool) : C → List A → Nat
  | _, [] => 0
  | c, a :: as =>
    match step c a with
    | none => 0
    | some d => (if p c a d then 1 else 0) + tally step p d as

/-- Some run from here takes a step that satisfies `P`. -/
def Leads (step : C → A → Option C) (P : C → A → C → Prop) (c : C) : Prop :=
  ∃ as d a e, run step c as = some d ∧ step d a = some e ∧ P d a e

/-- The run takes a step from `x`. -/
def Passes (step : C → A → Option C) (c : C) (as : List A) (x : C) : Prop :=
  ∃ pre a post y, as = pre ++ a :: post ∧ run step c pre = some x ∧ step x a = some y

/-- The run takes the step `a` from `x`. -/
def Takes (step : C → A → Option C) (c : C) (as : List A) (x : C) (a : A) : Prop :=
  ∃ pre post y, as = pre ++ a :: post ∧ run step c pre = some x ∧ step x a = some y

variable {step : C → A → Option C} {P Q : C → A → C → Prop} {c d : C} {a : A} {as bs : List A}

theorem run_cons_some (h : run step c (a :: as) = some d) :
    ∃ m, step c a = some m ∧ run step m as = some d := by
  simpa [run, Option.bind_eq_some_iff] using h

theorem run_append : run step c (as ++ bs) = (run step c as).bind fun m => run step m bs := by
  induction as generalizing c with
  | nil => rfl
  | cons a as ih =>
    cases hs : step c a with
    | none => simp [run, hs]
    | some m => simp [run, hs, ih]

theorem run_snoc_some {e : C} (h : run step c (as ++ [a]) = some e) :
    ∃ d, run step c as = some d ∧ step d a = some e := by
  rw [run_append, Option.bind_eq_some_iff] at h
  obtain ⟨d, hd, he⟩ := h
  exact ⟨d, hd, by simpa [run, Option.bind_eq_some_iff] using he⟩

theorem along_cons (h : step c a = some d) : Along step P c (a :: as) ↔ P c a d ∧ Along step P d as := by
  simp [Along, h]

theorem along_mono (h : ∀ c a d, P c a d → Q c a d) (hp : Along step P c as) : Along step Q c as := by
  induction as generalizing c with
  | nil => trivial
  | cons a as ih =>
    intro d hd
    obtain ⟨hc, ht⟩ := hp d hd
    exact ⟨h _ _ _ hc, ih ht⟩

theorem along_append (h : run step c as = some d) :
    Along step P c (as ++ bs) ↔ Along step P c as ∧ Along step P d bs := by
  induction as generalizing c with
  | nil =>
    have : c = d := by simpa [run] using h
    subst this
    simp [Along]
  | cons a as ih =>
    obtain ⟨m, hm, ht⟩ := run_cons_some h
    rw [List.cons_append, along_cons hm, along_cons hm, ih ht, and_assoc]

theorem along_and : Along step (fun c a d => P c a d ∧ Q c a d) c as ↔ Along step P c as ∧ Along step Q c as := by
  induction as generalizing c with
  | nil => exact (and_self_iff).symm
  | cons a as ih =>
    simp only [Along, ih, ← forall_and]
    exact forall_congr' fun d => forall_congr' fun _ => and_and_and_comm

/-- What holds along a run holds of its last step. -/
theorem along_last (hp : Along step P c (as ++ [a])) (h : run step c as = some d) {e : C} (hs : step d a = some e) :
    P d a e :=
  (((along_append h).1 hp).2 e hs).1

theorem Leads.now (h : step c a = some d) (hp : P c a d) : Leads step P c := ⟨[], c, a, d, rfl, h, hp⟩

theorem Leads.later (h : step c a = some d) (hl : Leads step P d) : Leads step P c := by
  obtain ⟨as, x, b, y, hx, hy, hp⟩ := hl
  exact ⟨a :: as, x, b, y, by rw [run, h, Option.bind_some, hx], hy, hp⟩

/-- Every run is free of such steps, or some run leads to one. -/
theorem along_not_iff_leads : (∀ as, Along step (fun c a d => ¬ P c a d) c as) ↔ ¬ Leads step P c := by
  constructor
  · rintro h ⟨as, d, a, e, hd, he, hp⟩
    exact along_last (h (as ++ [a])) hd he hp
  · intro h as
    induction as generalizing c with
    | nil => trivial
    | cons a as ih => exact fun d hd => ⟨fun hp => h (.now hd hp), ih fun hl => h (hl.later hd)⟩

theorem passes_mono {x : C} (h : Passes step c as x) : Passes step c (as ++ bs) x := by
  obtain ⟨pre, a, post, y, rfl, hx, hy⟩ := h
  exact ⟨pre, a, post ++ bs, y, by simp, hx, hy⟩

theorem passes_last (h : run step c as = some d) {e : C} (hs : step d a = some e) : Passes step c (as ++ [a]) d :=
  ⟨as, a, [], e, rfl, h, hs⟩

theorem passes_append {x : C} (h : run step c as = some d) (hx : Passes step d bs x) : Passes step c (as ++ bs) x := by
  obtain ⟨pre, a, post, y, rfl, hpre, hy⟩ := hx
  exact ⟨as ++ pre, a, post, y, by simp, by rw [run_append, h, Option.bind_some, hpre], hy⟩

/-- What holds along a run holds where it passes. -/
theorem along_passes {x : C} (hp : Along step P c as) (h : Passes step c as x) :
    ∃ pre a y, run step c pre = some x ∧ Along step P c pre ∧ step x a = some y ∧ P x a y := by
  obtain ⟨pre, a, post, y, rfl, hx, hy⟩ := h
  obtain ⟨hpre, hrest⟩ := (along_append hx).1 hp
  exact ⟨pre, a, y, hx, hpre, hy, (hrest y hy).1⟩

theorem takes_mono {x : C} {b : A} (h : Takes step c as x b) : Takes step c (as ++ bs) x b := by
  obtain ⟨pre, post, y, rfl, hx, hy⟩ := h
  exact ⟨pre, post ++ bs, y, by simp, hx, hy⟩

theorem takes_last (h : run step c as = some d) {e : C} (hs : step d a = some e) : Takes step c (as ++ [a]) d a :=
  ⟨as, [], e, rfl, h, hs⟩

/-- What holds along a run holds of the steps it takes. -/
theorem along_takes {x : C} (hp : Along step P c as) (h : Takes step c as x a) : ∃ y, step x a = some y ∧ P x a y := by
  obtain ⟨pre, post, y, rfl, hx, hy⟩ := h
  exact ⟨y, hy, (((along_append hx).1 hp).2 y hy).1⟩

/-- The rule for invariants that remember where the run has passed. -/
theorem run_recorded {I : (C → Prop) → C → Prop} (keep : ∀ S c a d, I S c → step c a = some d → ∀ S', S' c →
      (∀ x, S x → S' x) → I S' d) (hi : I (fun _ => False) c) (h : run step c as = some d) : I (Passes step c as) d := by
  induction as using List.reverseRecOn generalizing d with
  | nil =>
    have : c = d := by simpa [run] using h
    subst this
    have hnone : Passes step c [] = fun _ => False := by
      funext x
      simp [Passes]
    rw [hnone]
    exact hi
  | append_singleton as a ih =>
    obtain ⟨m, hm, hs⟩ := run_snoc_some h
    exact keep _ m a d (ih hm) hs _ (passes_last hm hs) fun x => passes_mono

/-- The rule for invariants that hold under a condition on the steps of the run. -/
theorem run_invariant {I : C → Prop} (keep : ∀ c a d, I c → P c a d → step c a = some d → I d)
    (hi : I c) (hp : Along step P c as) (h : run step c as = some d) : I d := by
  induction as generalizing c with
  | nil =>
    have : c = d := by simpa [run] using h
    exact this ▸ hi
  | cons a as ih =>
    obtain ⟨m, hm, ht⟩ := run_cons_some h
    obtain ⟨hc, hr⟩ := hp m hm
    exact ih (keep _ _ _ hi hc hm) hr ht

/-- The rule for invariants that remember the steps the run has taken. -/
theorem run_traced {I : (C → A → Prop) → C → Prop} (keep : ∀ S c a d, I S c → P c a d → step c a = some d →
      ∀ S', S' c a → (∀ x b, S x b → S' x b) → I S' d) (hi : I (fun _ _ => False) c) (hp : Along step P c as)
    (h : run step c as = some d) : I (Takes step c as) d := by
  induction as using List.reverseRecOn generalizing d with
  | nil =>
    have : c = d := by simpa [run] using h
    subst this
    have hnone : Takes step c [] = fun _ _ => False := by
      funext x b
      simp [Takes]
    rw [hnone]
    exact hi
  | append_singleton as a ih =>
    obtain ⟨m, hm, hs⟩ := run_snoc_some h
    have hbefore := ih ((along_append hm).1 hp).1 hm
    exact keep _ m a d hbefore (along_last hp hm hs) hs _ (takes_last hm hs) fun x b => takes_mono

/-- An inductive invariant holds at every configuration of every run. -/
theorem run_inductive {I : C → Prop} (keep : ∀ c a d, I c → step c a = some d → I d)
    (hi : I c) (h : run step c as = some d) : I d := by
  refine run_invariant (P := fun _ _ _ => True) (fun c a d hc _ => keep c a d hc) hi ?_ h
  clear h hi
  induction as generalizing c with
  | nil => trivial
  | cons a as ih => exact fun m _ => ⟨trivial, ih⟩

/-- The rule for what only grows: a preorder between the ends of every step relates the ends of a run. -/
theorem run_monotone {I : C → Prop} {R : C → C → Prop} (refl : ∀ c, R c c) (trans : ∀ c d e, R c d → R d e → R c e)
    (keep : ∀ c a d, I c → step c a = some d → I d) (grow : ∀ c a d, I c → step c a = some d → R c d) (hi : I c)
    (h : run step c as = some d) : R c d := by
  induction as generalizing c with
  | nil =>
    have : c = d := by simpa [run] using h
    exact this ▸ refl c
  | cons a as ih =>
    obtain ⟨m, hm, ht⟩ := run_cons_some h
    exact trans c m d (grow c a m hi hm) (ih (keep c a m hi hm) ht)

/-- A property of single steps that an inductive invariant implies holds all along a run. -/
theorem along_of_inductive {I : C → Prop} (keep : ∀ c a d, I c → step c a = some d → I d)
    (sound : ∀ c a d, I c → step c a = some d → P c a d) (hi : I c) : Along step P c as := by
  induction as generalizing c with
  | nil => trivial
  | cons a as ih => exact fun m hm => ⟨sound _ _ _ hi hm, ih (keep _ _ _ hi hm)⟩

/-- An invariant that holds under a condition on the steps gives a property of the steps. -/
theorem along_of_invariant {I : C → Prop} (keep : ∀ c a d, I c → P c a d → step c a = some d → I d)
    (sound : ∀ c a d, I c → P c a d → step c a = some d → Q c a d) (hi : I c) (hp : Along step P c as) :
    Along step Q c as := by
  induction as generalizing c with
  | nil => trivial
  | cons a as ih =>
    intro d hd
    obtain ⟨hc, ht⟩ := hp d hd
    exact ⟨sound _ _ _ hi hc hd, ih (keep _ _ _ hi hc hd) ht⟩

/-- Two properties of steps that agree under an inductive invariant agree along every run. -/
theorem along_congr {I : C → Prop} (keep : ∀ c a d, I c → step c a = some d → I d)
    (same : ∀ c a d, I c → step c a = some d → (P c a d ↔ Q c a d)) (hi : I c) :
    Along step P c as ↔ Along step Q c as := by
  induction as generalizing c with
  | nil => exact Iff.rfl
  | cons a as ih =>
    refine forall_congr' fun d => forall_congr' fun hd => ?_
    exact and_congr (same c a d hi hd) (ih (keep c a d hi hd))

/-- The same, where the first property is what keeps the invariant. -/
theorem along_iff {I : C → Prop} (keep : ∀ c a d, I c → P c a d → step c a = some d → I d)
    (same : ∀ c a d, I c → step c a = some d → (P c a d ↔ Q c a d)) (hi : I c) :
    Along step P c as ↔ Along step Q c as := by
  induction as generalizing c with
  | nil => exact Iff.rfl
  | cons a as ih =>
    refine forall_congr' fun d => forall_congr' fun hd => ?_
    exact (and_congr_right fun hp => ih (keep c a d hi hp hd)).trans (and_congr_left' (same c a d hi hd))

instance decidableAlong (step : C → A → Option C) (P : C → A → C → Prop) [∀ c a d, Decidable (P c a d)] :
    (c : C) → (as : List A) → Decidable (Along step P c as)
  | _, [] => .isTrue trivial
  | c, a :: as =>
    match h : step c a with
    | none => .isTrue fun d hd => by rw [h] at hd; cases hd
    | some d =>
      have := decidableAlong step P d as
      decidable_of_iff (P c a d ∧ Along step P d as) (along_cons h).symm

theorem tally_cons (p : C → A → C → Bool) (h : step c a = some d) :
    tally step p c (a :: as) = (if p c a d then 1 else 0) + tally step p d as := by
  simp [tally, h]

/-- A quantity that moves with every counted step and no other is the count. -/
theorem tally_eq {I : C → Prop} (keep : ∀ c a d, I c → step c a = some d → I d) {f : C → Nat} {p : C → A → C → Bool}
    (hf : ∀ c a d, I c → step c a = some d → f d = f c + if p c a d then 1 else 0)
    (hi : I c) (h : run step c as = some d) : f d = f c + tally step p c as := by
  induction as generalizing c with
  | nil =>
    have : c = d := by simpa [run] using h
    simp [tally, this]
  | cons a as ih =>
    obtain ⟨m, hm, ht⟩ := run_cons_some h
    rw [ih (keep c a m hi hm) ht, hf c a m hi hm, tally_cons p hm, Nat.add_assoc]

/-- Steps that leave a set of configurations are no more than the steps that enter it,
and one more where the run starts inside. -/
theorem tally_le_entries {I : C → Prop} (keep : ∀ c a d, I c → step c a = some d → I d) {S : C → Bool}
    {p : C → A → C → Bool} (hp : ∀ c a d, I c → step c a = some d → p c a d → S c ∧ S d = false) (hi : I c) :
    tally step p c as ≤ tally step (fun c _ d => !S c && S d) c as + if S c then 1 else 0 := by
  induction as generalizing c with
  | nil => simp [tally]
  | cons a as ih =>
    cases hs : step c a with
    | none => simp [tally, hs]
    | some m =>
      have hm := ih (keep c a m hi hs)
      rw [tally_cons _ hs, tally_cons _ hs]
      cases hpc : p c a m with
      | true =>
        obtain ⟨hc, hd⟩ := hp c a m hi hs hpc
        simp only [hd, Bool.false_eq_true, if_false] at hm
        simp only [hc, if_true]
        omega
      | false =>
        cases hc : S c <;> cases hd : S m <;> simp only [hd, Bool.false_eq_true, if_true, if_false] at hm ⊢ <;> simp <;> omega

end DocAuto.Process
