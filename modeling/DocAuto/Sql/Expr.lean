import Mathlib.Logic.Relation

/-! Scalar SQL expressions with NULL, casts that may raise, and reduction in any order. A
sub-expression may be reduced whether or not its value is needed, and an operator may
answer as soon as one operand decides it. -/
namespace DocAuto.Sql

inductive Ty where
  | text | uuid | bool
  deriving DecidableEq, Repr

/-- The values of a type other than NULL. -/
@[reducible] def Ty.Val (U : Type) : Ty → Type
  | .text => String
  | .uuid => U
  | .bool => Bool

/-- The operators of two operands. `selected` is a test of a row of a sub-select whose
condition is the first operand. -/
inductive Op : Ty → Ty → Ty → Type where
  | nullIf : Op .text .text .text
  | eq : Op .uuid .uuid .bool
  | and : Op .bool .bool .bool
  | or : Op .bool .bool .bool
  | selected : Op .bool .bool .bool

/-- An expression, the columns being replaced by the values of a row. -/
inductive Expr (U : Type) : Ty → Type where
  | value {t : Ty} (v : Option (t.Val U)) : Expr U t
  | error {t : Ty} : Expr U t
  | currentSetting : Expr U .text
  | toUuid (a : Expr U .text) : Expr U .uuid
  | binary {s t r : Ty} (op : Op s t r) (a : Expr U s) (b : Expr U t) : Expr U r

/-- What an expression reads beside its row: the setting, and the reading of a UUID. -/
structure Context (U : Type) where
  setting : Option String
  cast : String → Option U

section
variable {U : Type} [DecidableEq U] {s t r : Ty}

namespace Op

/-- The result on two values. -/
def apply : Op s t r → Option (s.Val U) → Option (t.Val U) → Option (r.Val U)
  | nullIf, a, b => if a.isSome ∧ a = b then none else a
  | eq, some u, some v => some (decide (u = v))
  | eq, _, _ => none
  | and, some false, _ => some false
  | and, _, some false => some false
  | and, some true, some true => some true
  | and, _, _ => none
  | or, some true, _ => some true
  | or, _, some true => some true
  | or, some false, some false => some false
  | or, _, _ => none
  | selected, some true, b => b
  | selected, _, _ => some false

/-- The result where the first operand alone decides it. -/
def byLeft : Op s t r → Option (s.Val U) → Option (Option (r.Val U))
  | and, some false => some (some false)
  | or, some true => some (some true)
  | selected, none => some (some false)
  | selected, some false => some (some false)
  | _, _ => none

/-- The result where the second operand alone decides it. -/
def byRight : Op s t r → Option (t.Val U) → Option (Option (r.Val U))
  | and, some false => some (some false)
  | or, some true => some (some true)
  | selected, some false => some (some false)
  | _, _ => none

@[simp] theorem apply_eq_true {a b : Option U} : (eq.apply a b : Option Bool) = some true ↔ ∃ u, a = some u ∧ b = some u := by
  cases a <;> cases b <;> simp [apply, eq_comm]

theorem apply_nullIf {s : String} {b : Option String} :
    (nullIf.apply (U := U) (some s) b : Option String) = if some s = b then none else some s := by
  simp [apply]

@[simp] theorem apply_and_true {p q : Option Bool} :
    (and.apply (U := U) p q : Option Bool) = some true ↔ p = some true ∧ q = some true := by
  rcases p with _ | _ | _ <;> rcases q with _ | _ | _ <;> simp [apply]

@[simp] theorem apply_or_true {p q : Option Bool} :
    (or.apply (U := U) p q : Option Bool) = some true ↔ p = some true ∨ q = some true := by
  rcases p with _ | _ | _ <;> rcases q with _ | _ | _ <;> simp [apply]

@[simp] theorem apply_selected_true {p q : Option Bool} :
    (selected.apply (U := U) p q : Option Bool) = some true ↔ p = some true ∧ q = some true := by
  rcases p with _ | _ | _ <;> simp [apply]

theorem apply_of_byLeft {op : Op s t r} {a : Option (s.Val U)} {v : Option (r.Val U)} (h : op.byLeft a = some v)
    (b : Option (t.Val U)) : op.apply a b = v := by
  cases op with
  | nullIf | eq => cases h
  | and | or | selected =>
    rcases a with _ | _ | _ <;> simp only [byLeft, Option.some.injEq, reduceCtorEq] at h
    all_goals subst h; rcases b with _ | _ | _ <;> rfl

theorem apply_of_byRight {op : Op s t r} {b : Option (t.Val U)} {v : Option (r.Val U)} (h : op.byRight b = some v)
    (a : Option (s.Val U)) : op.apply a b = v := by
  cases op with
  | nullIf | eq => cases h
  | and | or | selected =>
    rcases b with _ | _ | _ <;> simp only [byRight, Option.some.injEq, reduceCtorEq] at h
    all_goals subst h; rcases a with _ | _ | _ <;> rfl

end Op

namespace Expr
variable (σ : Context U)

/-- The value of an expression when nothing raises. -/
def meaning : {t : Ty} → Expr U t → Option (t.Val U)
  | _, value v => v
  | _, error => none
  | _, currentSetting => σ.setting
  | _, toUuid a => a.meaning.bind σ.cast
  | _, binary op a b => op.apply a.meaning b.meaning

/-- No cast in the expression meets a text that is no UUID. -/
def Safe : {t : Ty} → Expr U t → Prop
  | _, value _ => True
  | _, error => False
  | _, currentSetting => True
  | _, toUuid a => a.Safe ∧ ∀ s, a.meaning σ = some s → (σ.cast s).isSome
  | _, binary _ a b => a.Safe ∧ b.Safe

def size : {t : Ty} → Expr U t → Nat
  | _, value _ => 0
  | _, error => 0
  | _, currentSetting => 1
  | _, toUuid a => a.size + 1
  | _, binary _ a b => a.size + b.size + 1

/-- A value or an error. -/
def Final : {t : Ty} → Expr U t → Prop
  | _, value _ => True
  | _, error => True
  | _, _ => False

/-- One reduction anywhere in the expression. -/
inductive Step : {t : Ty} → Expr U t → Expr U t → Prop where
  | setting : Step currentSetting (value σ.setting)
  | castNull : Step (toUuid (value none)) (value none)
  | cast {s : String} {u : U} : σ.cast s = some u → Step (toUuid (value (some s))) (value (some u))
  | castError {s : String} : σ.cast s = none → Step (toUuid (value (some s))) error
  | apply {s t r : Ty} (op : Op s t r) (a : Option (s.Val U)) (b : Option (t.Val U)) :
    Step (binary op (value a) (value b)) (value (op.apply a b))
  | byLeft {s t r : Ty} {op : Op s t r} {a : Option (s.Val U)} {v : Option (r.Val U)} (b : Expr U t) :
    op.byLeft a = some v → Step (binary op (value a) b) (value v)
  | byRight {s t r : Ty} {op : Op s t r} {b : Option (t.Val U)} {v : Option (r.Val U)} (a : Expr U s) :
    op.byRight b = some v → Step (binary op a (value b)) (value v)
  | operand {a a' : Expr U .text} : Step a a' → Step (toUuid a) (toUuid a')
  | left {s t r : Ty} (op : Op s t r) {a a' : Expr U s} (b : Expr U t) : Step a a' → Step (binary op a b) (binary op a' b)
  | right {s t r : Ty} (op : Op s t r) (a : Expr U s) {b b' : Expr U t} : Step b b' → Step (binary op a b) (binary op a b')
  | operandError : Step (toUuid error) error
  | leftError {s t r : Ty} (op : Op s t r) (b : Expr U t) : Step (binary op error b) error
  | rightError {s t r : Ty} (op : Op s t r) (a : Expr U s) : Step (binary op a error) error

/-- Some order of reductions ends with `r`. -/
def Evaluates (e r : Expr U t) : Prop := Relation.ReflTransGen (Step σ) e r ∧ r.Final

variable {σ} {e e' : Expr U t}

theorem size_lt_of_step (h : Step σ e e') : e'.size < e.size := by
  induction h <;> simp_all only [size] <;> omega

/-- What is neither a value nor an error can be reduced further. -/
theorem final_or_step (e : Expr U t) : e.Final ∨ ∃ e', Step σ e e' := by
  induction e with
  | value v => exact .inl trivial
  | error => exact .inl trivial
  | currentSetting => exact .inr ⟨_, .setting⟩
  | toUuid a ih =>
    refine .inr ?_
    rcases ih with hf | ⟨a', ha⟩
    · cases a with
      | value v =>
        rcases v with _ | s
        · exact ⟨_, .castNull⟩
        · cases hs : σ.cast s with
          | none => exact ⟨_, .castError hs⟩
          | some u => exact ⟨_, .cast hs⟩
      | error => exact ⟨_, .operandError⟩
      | _ => exact hf.elim
    · exact ⟨_, .operand ha⟩
  | binary op a b iha ihb =>
    refine .inr ?_
    rcases iha with ha | ⟨a', ha⟩
    · rcases ihb with hb | ⟨b', hb⟩
      · cases a with
        | value v =>
          cases b with
          | value w => exact ⟨_, .apply op v w⟩
          | error => exact ⟨_, .rightError op _⟩
          | _ => exact hb.elim
        | error => exact ⟨_, .leftError op _⟩
        | _ => exact ha.elim
      · exact ⟨_, .right op a hb⟩
    · exact ⟨_, .left op b ha⟩

/-- Every order of reductions comes to an end. -/
theorem exists_evaluates (e : Expr U t) : ∃ r, Evaluates σ e r := by
  induction hn : e.size using Nat.strongRecOn generalizing e with
  | ind n ih =>
    rcases final_or_step (σ := σ) e with hf | ⟨e', hs⟩
    · exact ⟨e, .refl, hf⟩
    · obtain ⟨r, hr, hf⟩ := ih e'.size (hn ▸ size_lt_of_step hs) e' rfl
      exact ⟨r, .head hs hr, hf⟩

/-- A reduction of a safe expression leaves it safe, with the same meaning. -/
theorem Step.keeps (h : Step σ e e') (hs : e.Safe σ) : e'.Safe σ ∧ e'.meaning σ = e.meaning σ := by
  induction h with
  | setting => exact ⟨trivial, rfl⟩
  | castNull => exact ⟨trivial, rfl⟩
  | cast hu => exact ⟨trivial, by simp [meaning, hu]⟩
  | castError hu =>
    have := hs.2 _ rfl
    simp [hu] at this
  | apply op a b => exact ⟨trivial, rfl⟩
  | byLeft b hv => exact ⟨trivial, (Op.apply_of_byLeft hv _).symm⟩
  | byRight a hv => exact ⟨trivial, (Op.apply_of_byRight hv _).symm⟩
  | operand _ ih =>
    obtain ⟨ha, hm⟩ := ih hs.1
    exact ⟨⟨ha, hm ▸ hs.2⟩, by simp only [meaning, hm]⟩
  | left op b _ ih =>
    obtain ⟨ha, hm⟩ := ih hs.1
    exact ⟨⟨ha, hs.2⟩, by simp only [meaning, hm]⟩
  | right op a _ ih =>
    obtain ⟨hb, hm⟩ := ih hs.2
    exact ⟨⟨hs.1, hb⟩, by simp only [meaning, hm]⟩
  | operandError => exact hs.1.elim
  | leftError op b => exact hs.1.elim
  | rightError op a => exact hs.2.elim

/-- A safe expression evaluates to its meaning, in whatever order it is reduced. -/
theorem Safe.evaluates_iff (hs : e.Safe σ) {r : Expr U t} : Evaluates σ e r ↔ r = value (e.meaning σ) := by
  have only : ∀ r, Evaluates σ e r → r = value (e.meaning σ) := by
    rintro r ⟨hr, hf⟩
    have hkeep : r.Safe σ ∧ r.meaning σ = e.meaning σ := by
      clear hf
      induction hr with
      | refl => exact ⟨hs, rfl⟩
      | tail _ hstep ih =>
        obtain ⟨hc, hm⟩ := hstep.keeps ih.1
        exact ⟨hc, hm.trans ih.2⟩
    cases r with
    | value v => exact congrArg value hkeep.2
    | error => exact hkeep.1.elim
    | _ => exact hf.elim
  refine ⟨only r, fun h => ?_⟩
  obtain ⟨r', hr'⟩ := exists_evaluates (σ := σ) e
  rwa [h, ← only r' hr']

/-- `x IN (SELECT column FROM …)`: each row with its condition and its column. -/
def isIn (x : Expr U .uuid) (rows : List (Expr U .bool × Expr U .uuid)) : Expr U .bool :=
  rows.foldr (fun row rest => .binary .or (.binary .selected row.1 (.binary .eq x row.2)) rest) (value (some false))

theorem Safe.isIn {x : Expr U .uuid} {rows : List (Expr U .bool × Expr U .uuid)} (hx : x.Safe σ)
    (hrows : ∀ row ∈ rows, row.1.Safe σ ∧ row.2.Safe σ) : (x.isIn rows).Safe σ := by
  induction rows with
  | nil => trivial
  | cons row rows ih =>
    obtain ⟨hc, hv⟩ := hrows row List.mem_cons_self
    exact ⟨⟨hc, hx, hv⟩, ih fun r hr => hrows r (List.mem_cons_of_mem _ hr)⟩

/-- The membership is true of the columns of the rows whose condition is true. -/
theorem meaning_isIn {x : Expr U .uuid} {rows : List (Expr U .bool × Expr U .uuid)} :
    (x.isIn rows).meaning σ = some true ↔ ∃ row ∈ rows, row.1.meaning σ = some true ∧
      ∃ u, x.meaning σ = some u ∧ row.2.meaning σ = some u := by
  induction rows with
  | nil => simp [Expr.isIn, meaning]
  | cons row rows ih =>
    have hrow : (binary .selected row.1 (binary .eq x row.2)).meaning σ = some true ↔
        row.1.meaning σ = some true ∧ ∃ u, x.meaning σ = some u ∧ row.2.meaning σ = some u :=
      Op.apply_selected_true.trans (and_congr_right' Op.apply_eq_true)
    simp only [List.mem_cons, exists_eq_or_imp]
    rw [← hrow, ← ih]
    exact Op.apply_or_true

end Expr
end
end DocAuto.Sql
