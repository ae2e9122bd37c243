import DocAuto.Process.Run
import Mathlib.Data.List.Forall2

/-! Forward simulations between partial transition functions. A step of the one is matched by a
step of the other, or by none. -/
namespace DocAuto.Process
variable {C D A B : Type}

/-- Steps that satisfy `P` keep related states related; `M` relates the actions that match. -/
def Simulates (step : C → A → Option C) (step' : D → B → Option D) (P : C → A → C → Prop) (M : B → A → Prop)
    (R : C → D → Prop) : Prop :=
  ∀ c a c' d, R c d → P c a c' → step c a = some c' → R c' d ∨ ∃ b d', M b a ∧ step' d b = some d' ∧ R c' d'

variable {step : C → A → Option C} {step' : D → B → Option D} {P : C → A → C → Prop} {M : B → A → Prop}
  {R : C → D → Prop} {c c' : C} {d : D} {as : List A}

/-- A run is matched by a run whose actions match some of its own, in their order. -/
theorem Simulates.run (hs : Simulates step step' P M R) (hr : R c d) (hp : Along step P c as)
    (h : run step c as = some c') :
    ∃ bs d', List.SublistForall₂ M bs as ∧ run step' d bs = some d' ∧ R c' d' := by
  induction as generalizing c d with
  | nil =>
    obtain rfl : c = c' := by simpa [Process.run] using h
    exact ⟨[], d, .nil, rfl, hr⟩
  | cons a as ih =>
    obtain ⟨m, hm, ht⟩ := run_cons_some h
    obtain ⟨hc, hrest⟩ := hp m hm
    rcases hs c a m d hr hc hm with hr' | ⟨b, e, hb, he, hr'⟩
    · obtain ⟨bs, d', hsub, hrun, hd⟩ := ih hr' hrest ht
      exact ⟨bs, d', .cons_right hsub, hrun, hd⟩
    · obtain ⟨bs, d', hsub, hrun, hd⟩ := ih hr' hrest ht
      exact ⟨b :: bs, d', .cons hb hsub, by rw [Process.run, he, Option.bind_some, hrun], hd⟩

end DocAuto.Process
