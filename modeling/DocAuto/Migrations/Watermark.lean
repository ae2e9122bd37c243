import Mathlib.Data.List.Basic
import Mathlib.Data.List.MinMax
import Mathlib.Data.List.Nodup
import Mathlib.Data.List.TakeDrop

/-! Applying the entries of a growing journal past the largest timestamp applied so far.
Nothing here is about a particular journal. -/
namespace DocAuto.Migrations

structure Entry (T : Type) where
  when : Nat
  tag : T
  deriving DecidableEq, Repr

variable {T : Type}

/-- The entries whose timestamp exceeds the largest one applied, all of them if there is none. -/
def pending (journal applied : List (Entry T)) : List (Entry T) :=
  journal.filter fun e => decide ((applied.map (·.when)).maximum < WithBot.some e.when)

/-- One run over a journal: the pending entries are applied in journal order. -/
def migrate (journal applied : List (Entry T)) : List (Entry T) := applied ++ pending journal applied

/-- No entry from position `n` on is dated before one of the first `n`. -/
def Cut (journal : List (Entry T)) (n : Nat) : Prop :=
  ∀ e ∈ journal.take n, ∀ f ∈ journal.drop n, e.when < f.when

instance (journal : List (Entry T)) (n : Nat) : Decidable (Cut journal n) :=
  inferInstanceAs (Decidable (∀ e ∈ journal.take n, ∀ f ∈ journal.drop n, _))

/-- The runs of one database, each over the first entries of the journal. -/
def migrations (journal : List (Entry T)) (ships : List Nat) (applied : List (Entry T)) : List (Entry T) :=
  ships.foldl (fun db n => migrate (journal.take n) db) applied

variable {journal applied : List (Entry T)} {e f : Entry T}

theorem mem_pending : f ∈ pending journal applied ↔ f ∈ journal ∧ ∀ e ∈ applied, e.when < f.when := by
  rw [pending, List.mem_filter, decide_eq_true_iff]
  refine and_congr_right fun _ => ⟨fun h e he => ?_, fun h => ?_⟩
  · exact WithBot.coe_lt_coe.1 ((List.le_maximum_of_mem' (List.mem_map_of_mem he)).trans_lt h)
  · refine lt_of_not_ge fun hle => ?_
    obtain ⟨m, hm, hw⟩ := List.coe_le_maximum_iff.1 hle
    obtain ⟨e, he, rfl⟩ := List.mem_map.1 hm
    exact absurd (h e he) (not_lt_of_ge hw)

theorem migrate_nil : migrate journal [] = journal := by
  rw [migrate, pending, List.nil_append]
  exact List.filter_eq_self.2 fun f _ => decide_eq_true (WithBot.bot_lt_coe f.when)

/-- From a cut on, a run over more of the journal catches up with it. -/
theorem migrate_take {m n : Nat} (hcut : Cut journal m) (hmn : m ≤ n) :
    migrate (journal.take n) (journal.take m) = journal.take n := by
  have hsplit : journal.take n = journal.take m ++ (journal.drop m).take (n - m) := by
    rw [← List.take_add, Nat.add_sub_cancel' hmn]
  have hold : pending (journal.take m) (journal.take m) = [] := by
    refine List.eq_nil_iff_forall_not_mem.2 fun f hf => ?_
    obtain ⟨hmem, h⟩ := mem_pending.1 hf
    exact (h f hmem).false
  have hnew : pending ((journal.drop m).take (n - m)) (journal.take m) = (journal.drop m).take (n - m) := by
    refine List.filter_eq_self.2 fun f hf => ?_
    exact (List.mem_filter.1 (mem_pending.2 ⟨hf, fun e he => hcut e he f (List.mem_of_mem_take hf)⟩)).2
  have happ : pending (journal.take n) (journal.take m) =
      pending (journal.take m) (journal.take m) ++ pending ((journal.drop m).take (n - m)) (journal.take m) := by
    rw [hsplit]
    exact List.filter_append ..
  rw [migrate, happ, hold, hnew, List.nil_append, ← hsplit]

/-- What has been applied stays, and keeps out the entries dated no later. -/
theorem migrations_skip {ships : List Nat} (he : e ∈ applied) (hf : f ∉ applied) (hw : f.when ≤ e.when) :
    f ∉ migrations journal ships applied := by
  induction ships generalizing applied with
  | nil => exact hf
  | cons n ships ih =>
    refine ih (List.mem_append_left _ he) fun hmem => ?_
    rcases List.mem_append.1 hmem with h | h
    · exact hf h
    · exact absurd ((mem_pending.1 h).2 e he) (by omega)

/-- Runs over longer and longer parts of a journal apply all of it, in order, exactly when one
of them ships all of it and every one ends at a cut. -/
theorem migrations_iff {ships : List Nat} {m : Nat} (hj : journal.Nodup) (hm : Cut journal m)
    (hgrow : (m :: ships).Pairwise (· ≤ ·)) :
    migrations journal ships (journal.take m) = journal ↔
      (∃ n ∈ m :: ships, journal.length ≤ n) ∧ ∀ n ∈ ships, Cut journal n := by
  induction ships generalizing m with
  | nil => simp [migrations, List.take_eq_self_iff]
  | cons n ships ih =>
    have hle : m ≤ n := (List.pairwise_cons.1 hgrow).1 n (by simp)
    have hrun : migrations journal (n :: ships) (journal.take m) = migrations journal ships (journal.take n) :=
      congrArg (migrations journal ships) (migrate_take hm hle)
    rw [hrun, List.forall_mem_cons]
    by_cases hn : Cut journal n
    · have hships : (∃ k ∈ m :: n :: ships, journal.length ≤ k) ↔ ∃ k ∈ n :: ships, journal.length ≤ k := by
        rw [List.exists_mem_cons_iff]
        exact or_iff_right_of_imp fun hlen => ⟨n, by simp, hlen.trans hle⟩
      rw [ih hn (List.pairwise_cons.1 hgrow).2, hships, and_iff_right hn]
    · refine iff_of_false (fun hall => ?_) fun h => hn h.2.1
      obtain ⟨e, he, f, hf, hw⟩ : ∃ e ∈ journal.take n, ∃ f ∈ journal.drop n, f.when ≤ e.when := by
        by_contra hc
        exact hn fun e he f hf => lt_of_not_ge fun hw => hc ⟨e, he, f, hf, hw⟩
      have hnot : f ∉ journal.take n := fun h => List.disjoint_take_drop hj le_rfl h hf
      exact migrations_skip he hnot hw (hall ▸ List.mem_of_mem_drop hf)

end DocAuto.Migrations
