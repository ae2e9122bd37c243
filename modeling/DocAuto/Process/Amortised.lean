import DocAuto.Process.Program
import DocAuto.Process.Run
import Mathlib.Algebra.BigOperators.Group.Finset.Basic

/-! Amortised costs: what a program may spend on its commands, what the entries of a table are
worth together, and what a run does against what it is given. -/
namespace DocAuto.Process

section Programs
variable {Cmd : Type} {Resp : Cmd → Type} {Err α β : Type}

/-- Commands are paid for out of a budget. -/
@[reducible] def budget (charge : Cmd → Nat) : Protocol Cmd Resp Err where
  Phase := Nat
  allowed left c := charge c ≤ left
  answers _ _ _ := True
  next left c _ := left - charge c

/-- The program spends `n` at most, whatever its commands answer. -/
def Costs (charge : Cmd → Nat) (n : Nat) (p : Program Cmd Resp Err α) : Prop :=
  ∀ m, (budget charge).wp (fun left _ => m ≤ left) p (n + m)

namespace Costs
variable {charge : Cmd → Nat} {n k : Nat}

/-- With more than its price a program leaves the rest. -/
theorem leaves {p : Program Cmd Resp Err α} (h : Costs charge n p) {m purse : Nat} (hle : n + m ≤ purse) :
    (budget charge).wp (fun left _ => m ≤ left) p purse := by
  have hrest := h (purse - n)
  rw [Nat.add_sub_cancel' (Nat.le_trans (Nat.le_add_right n m) hle)] at hrest
  refine Protocol.wp_mono (fun left _ hleft => ?_) hrest
  exact Nat.le_trans (Nat.le_sub_of_add_le' hle) hleft

theorem mono {p : Program Cmd Resp Err α} (h : Costs charge n p) (hle : n ≤ k) : Costs charge k p :=
  fun m => h.leaves (Nat.add_le_add_right hle m)

theorem ret (a : α) : Costs charge 0 (pure a : Program Cmd Resp Err α) := fun m => Nat.le_of_eq (Nat.zero_add m).symm

theorem throw (e : Err) : Costs charge 0 (MonadExcept.throw e : Program Cmd Resp Err α) :=
  fun m => Nat.le_of_eq (Nat.zero_add m).symm

theorem perform (c : Cmd) : Costs charge (charge c) (.perform c : Program Cmd Resp Err (Resp c)) := by
  intro m
  refine (Protocol.wp_perform _).2 ⟨Nat.le_add_right _ _, fun _ _ => ?_⟩
  exact Nat.le_of_eq (Nat.add_sub_cancel_left (n := charge c) (m := m)).symm

theorem bind {p : Program Cmd Resp Err α} {f : α → Program Cmd Resp Err β} (hp : Costs charge n p)
    (hf : ∀ a, Costs charge k (f a)) : Costs charge (n + k) (p >>= f) := by
  intro m
  rw [Nat.add_assoc]
  refine (Protocol.wp_bind _ _ _).2 (Protocol.wp_mono (fun left r hleft => ?_) (hp (k + m)))
  cases r with
  | error e => exact Nat.le_trans (Nat.le_add_left m k) hleft
  | ok a => exact (hf a).leaves hleft

/-- A failure leaves nothing better than the whole price of the body. -/
theorem tryCatch {p : Program Cmd Resp Err α} {h : Err → Program Cmd Resp Err α} (hp : Costs charge n p)
    (hh : ∀ e, Costs charge k (h e)) : Costs charge (n + k) (MonadExcept.tryCatch p h) := by
  intro m
  rw [Nat.add_assoc]
  refine (Protocol.wp_tryCatch _ _ _).2 (Protocol.wp_mono (fun left r hleft => ?_) (hp (k + m)))
  cases r with
  | ok a => exact Nat.le_trans (Nat.le_add_left m k) hleft
  | error e => exact (hh e).leaves hleft

theorem ite {b : Prop} [Decidable b] {p q : Program Cmd Resp Err α} (hp : Costs charge n p) (hq : Costs charge k q) :
    Costs charge (max n k) (if b then p else q) := by
  split
  · exact hp.mono (Nat.le_max_left n k)
  · exact hq.mono (Nat.le_max_right n k)

end Costs
end Programs

section Tables
variable {κ α : Type} {price : κ → α → Nat} {table : κ → Option α} {n : Nat}

/-- The entries of a table with finitely many of them are worth `n` together. -/
def Worth (price : κ → α → Nat) (table : κ → Option α) (n : Nat) : Prop :=
  ∃ keys : Finset κ, (∀ k, k ∉ keys → table k = none) ∧ keys.sum (fun k => (table k).elim 0 (price k)) = n

theorem worth_empty : Worth price (fun _ => none) 0 := ⟨∅, fun _ _ => rfl, rfl⟩

/-- An update exchanges the worth of one entry. -/
theorem Worth.update [DecidableEq κ] (h : Worth price table n) (k : κ) : ∃ rest, n = rest + (table k).elim 0 (price k) ∧
    ∀ entry, Worth price (Function.update table k entry) (rest + entry.elim 0 (price k)) := by
  obtain ⟨keys, hkeys, hsum⟩ := h
  refine ⟨(keys.erase k).sum fun j => (table j).elim 0 (price j), ?_, fun entry => ⟨insert k (keys.erase k), ?_, ?_⟩⟩
  · by_cases hk : k ∈ keys
    · rw [Finset.sum_erase_add _ _ hk]
      exact hsum.symm
    · rw [Finset.erase_eq_of_notMem hk, hkeys k hk]
      exact hsum.symm
  · intro j hj
    rw [Finset.mem_insert, Finset.mem_erase, not_or, not_and] at hj
    rw [Function.update_of_ne hj.1]
    exact hkeys j (hj.2 hj.1)
  · rw [Finset.sum_insert (Finset.notMem_erase k keys), Function.update_self, Nat.add_comm]
    refine congrArg (· + _) (Finset.sum_congr rfl fun j hj => ?_)
    rw [Function.update_of_ne (Finset.ne_of_mem_erase hj)]

theorem Worth.replace [DecidableEq κ] (h : Worth price table n) {k : κ} {old : α} (hk : table k = some old) :
    ∃ rest, n = rest + price k old ∧
      ∀ entry, Worth price (Function.update table k entry) (rest + entry.elim 0 (price k)) := by
  obtain ⟨rest, hn, hnew⟩ := h.update k
  rw [hk] at hn
  exact ⟨rest, hn, hnew⟩

end Tables

section Runs
variable {C A : Type} {step : C → A → Option C} {p q : C → A → C → Bool} {f g : C → A → C → Nat} {c : C} {as : List A}

/-- What a run is given along its steps. -/
def total (step : C → A → Option C) (f : C → A → C → Nat) : C → List A → Nat
  | _, [] => 0
  | c, a :: as =>
    match step c a with
    | none => 0
    | some d => f c a d + total step f d as

theorem total_cons {a : A} {d : C} (h : step c a = some d) : total step f c (a :: as) = f c a d + total step f d as := by
  simp [total, h]

theorem total_add : total step (fun c a d => f c a d + g c a d) c as = total step f c as + total step g c as := by
  induction as generalizing c with
  | nil => rfl
  | cons a as ih =>
    cases hs : step c a with
    | none => simp [total, hs]
    | some d =>
      rw [total_cons hs, total_cons hs, total_cons hs, ih]
      omega

theorem total_ite (k : Nat) : total step (fun c a d => if q c a d then k else 0) c as = k * tally step q c as := by
  induction as generalizing c with
  | nil => rfl
  | cons a as ih =>
    cases hs : step c a with
    | none => simp [total, tally, hs]
    | some d =>
      rw [total_cons hs, tally_cons q hs, ih, Nat.mul_add]
      cases q c a d <;> simp

theorem tally_append {d : C} {bs : List A} (h : run step c as = some d) :
    tally step p c (as ++ bs) = tally step p c as + tally step p d bs := by
  induction as generalizing c with
  | nil =>
    obtain rfl := Option.some.inj h
    exact (Nat.zero_add _).symm
  | cons a as ih =>
    obtain ⟨m, hm, hrest⟩ := run_cons_some h
    rw [List.cons_append, tally_cons p hm, tally_cons p hm, ih hrest, Nat.add_assoc]

/-- Every step of a run counts, if its action is of a kind that does. -/
theorem tally_all {kind : A → Bool} {d : C} (hk : ∀ a ∈ as, kind a = true) (h : run step c as = some d) :
    tally step (fun _ a _ => kind a) c as = as.length := by
  induction as generalizing c with
  | nil => rfl
  | cons a as ih =>
    obtain ⟨m, hm, hrest⟩ := run_cons_some h
    rw [tally_cons _ hm, ih (fun b hb => hk b (List.mem_cons_of_mem a hb)) hrest, hk a List.mem_cons_self,
      List.length_cons, Nat.add_comm]
    rfl

theorem tally_none {kind : A → Bool} (hk : ∀ a ∈ as, kind a = false) : tally step (fun _ a _ => kind a) c as = 0 := by
  induction as generalizing c with
  | nil => rfl
  | cons a as ih =>
    cases hs : step c a with
    | none => simp [tally, hs]
    | some d =>
      rw [tally_cons _ hs, ih fun b hb => hk b (List.mem_cons_of_mem a hb), hk a List.mem_cons_self]
      rfl

/-- The rule of the potential: a run takes no more of the steps that are paid for than it has at
first and is given. -/
theorem tally_le_total (Holds : C → Nat → Prop) (as : List A) (keep : ∀ c n a d, Holds c n → step c a = some d →
      ∃ m, Holds d m ∧ m + (if p c a d then 1 else 0) ≤ n + f c a d) {n : Nat} (h : Holds c n) :
    tally step p c as ≤ n + total step f c as := by
  induction as generalizing c n with
  | nil => exact Nat.zero_le _
  | cons a as ih =>
    cases hs : step c a with
    | none => simp [tally, hs]
    | some d =>
      obtain ⟨m, hm, hle⟩ := keep c n a d h hs
      have hrest := ih hm
      rw [tally_cons p hs, total_cons hs]
      omega

end Runs
end DocAuto.Process
