import Mathlib.Data.List.Sort
import Mathlib.Data.List.Nodup
import Mathlib.Order.Basic

/-! Pages of a sorted query. Each page is a query of its own, and rows with equal keys may stand
in a different order in the result of each of them. -/
namespace DocAuto.Paging
variable {α κ : Type} [LinearOrder κ]

/-- A result of `ORDER BY key DESC`. -/
structure Ordered (key : α → κ) (rows out : List α) : Prop where
  perm : out.Perm rows
  sorted : out.Pairwise fun a b => key b ≤ key a

/-- `LIMIT size OFFSET k * size`. -/
def page (size k : Nat) (out : List α) : List α := (out.drop (k * size)).take size

/-- The first `n` pages, each cut out of its own result. -/
def pages (size n : Nat) (out : Nat → List α) : List α := (List.range n).flatMap fun k => page size k (out k)

/-- The number of pages that hold `total` rows. -/
def pageCount (total size : Nat) : Nat := (total + size - 1) / size

/-- Rows of one key stand on both sides of position `m` in every result. -/
def Straddled (key : α → κ) (rows : List α) (m : Nat) : Prop :=
  ∃ a ∈ rows, (rows.countP fun b => key a < key b) < m ∧ m < rows.countP fun b => key a ≤ key b

instance (key : α → κ) (rows : List α) (m : Nat) : Decidable (Straddled key rows m) :=
  inferInstanceAs (Decidable (∃ a ∈ rows, _))

variable {key : α → κ} {rows out out' : List α} {size m n k i : Nat} {a : α}

section PageCount
variable (hs : 0 < size)
include hs

theorem lt_pageCount_iff : k < pageCount n size ↔ k * size < n := by
  rw [pageCount, Nat.lt_iff_add_one_le, Nat.le_div_iff_mul_le hs, Nat.add_mul]
  omega

theorem le_pageCount_mul : n ≤ pageCount n size * size := by
  have := mt (lt_pageCount_iff hs (n := n) (k := pageCount n size)).2 (Nat.lt_irrefl _)
  omega

end PageCount

theorem mem_page (hi : k * size ≤ i) (hi' : i < (k + 1) * size) (h : out[i]? = some a) : a ∈ page size k out := by
  refine List.mem_of_getElem? (i := i - k * size) ?_
  rw [Nat.add_mul, Nat.one_mul] at hi'
  rw [page, List.getElem?_take_of_lt (by omega), List.getElem?_drop, ← h]
  congr 1
  omega

theorem take_succ_mul (size k : Nat) (out : List α) :
    out.take ((k + 1) * size) = out.take (k * size) ++ page size k out := by
  rw [Nat.add_mul, Nat.one_mul, List.take_add, page]

theorem pages_succ (size n : Nat) (out : Nat → List α) :
    pages size (n + 1) out = pages size n out ++ page size n (out n) := by
  simp [pages, List.range_succ]

theorem page_eq_nil (h : out.length ≤ k * size) : page size k out = [] := by
  simp [page, List.drop_eq_nil_of_le h]

namespace Ordered

theorem length_eq (h : Ordered key rows out) : out.length = rows.length := h.perm.length_eq

/-- The keys of a result do not depend on how it breaks ties. -/
theorem keys (h : Ordered key rows out) (h' : Ordered key rows out') : out.map key = out'.map key := by
  refine List.Perm.eq_of_pairwise' (r := fun s t => s ≥ t) ?_ ?_ ((h.perm.trans h'.perm.symm).map key)
  · exact List.pairwise_map.2 h.sorted
  · exact List.pairwise_map.2 h'.sorted

section Prefix
variable {p : α → Bool} (hp : ∀ a b, key a ≤ key b → p a → p b)
include hp

theorem none_of_head {b : α} (h : (b :: out).Pairwise fun a b => key b ≤ key a) (hb : p b = false) :
    ∀ c ∈ b :: out, ¬ p c := by
  rintro c (_ | ⟨_, hc⟩) hpc
  · simp [hpc] at hb
  · simp [hp c b (List.rel_of_pairwise_cons h hc) hpc] at hb

/-- In a sorted list the elements with a property that larger keys inherit come first. -/
theorem lt_countP_iff (h : out.Pairwise fun a b => key b ≤ key a) (hi : i < out.length) :
    i < out.countP p ↔ p out[i] := by
  induction out generalizing i with
  | nil => cases hi
  | cons b out ih =>
    cases hpb : p b with
    | true =>
      rw [List.countP_cons_of_pos hpb]
      cases i with
      | zero => simp [hpb]
      | succ i => simpa using ih h.of_cons (by simpa using hi)
    | false =>
      have hnone := none_of_head hp h hpb
      rw [List.countP_eq_zero.2 hnone]
      exact iff_of_false (Nat.not_lt_zero i) (hnone _ (List.getElem_mem hi))

theorem take_countP (h : out.Pairwise fun a b => key b ≤ key a) : out.take (out.countP p) = out.filter p := by
  induction out with
  | nil => rfl
  | cons b out ih =>
    cases hpb : p b with
    | true => rw [List.countP_cons_of_pos hpb, List.filter_cons_of_pos hpb, List.take_succ_cons, ih h.of_cons]
    | false =>
      have hnone := none_of_head hp h hpb
      rw [List.countP_eq_zero.2 hnone, List.filter_eq_nil_iff.2 hnone, List.take_zero]

end Prefix

/-- Where no rows of one key stand on both sides, all results have the same rows before the position. -/
theorem take_perm (h : Ordered key rows out) (h' : Ordered key rows out') (hm : ¬ Straddled key rows m) :
    (out.take m).Perm (out'.take m) := by
  rcases Nat.lt_or_ge m out.length with hlt | hge
  · let p := fun b => decide (key out[m] < key b)
    have hp : ∀ a b, key a ≤ key b → p a → p b := fun a b hab ha => by
      simpa [p] using (of_decide_eq_true ha).trans_le hab
    have hcount : rows.countP p = m := by
      refine Nat.le_antisymm (Nat.le_of_not_lt fun hc => ?_) (Nat.le_of_not_lt fun hc => hm ?_)
      · rw [← h.perm.countP_eq, lt_countP_iff hp h.sorted hlt] at hc
        simp [p] at hc
      · refine ⟨out[m], h.perm.mem_iff.1 (List.getElem_mem hlt), hc, ?_⟩
        rw [← h.perm.countP_eq, lt_countP_iff (fun a b hab ha => by simpa using (of_decide_eq_true ha).trans hab)
          h.sorted hlt]
        simp
    have hfilter {o : List α} (ho : Ordered key rows o) : o.take m = o.filter p := by
      rw [← take_countP hp ho.sorted, ho.perm.countP_eq, hcount]
    rw [hfilter h, hfilter h']
    exact (h.perm.trans h'.perm.symm).filter p
  · rw [List.take_of_length_le hge, List.take_of_length_le (by rwa [h'.length_eq, ← h.length_eq])]
    exact h.perm.trans h'.perm.symm

/-- Two neighbours of one key may change places. -/
theorem swap {P S : List α} {b : α} (h : Ordered key rows (P ++ a :: b :: S)) (hk : key a = key b) :
    Ordered key rows (P ++ b :: a :: S) := by
  refine ⟨(List.Perm.append_left P (List.Perm.swap a b S)).trans h.perm, ?_⟩
  have hkeys : (P ++ b :: a :: S).map key = (P ++ a :: b :: S).map key := by simp [hk]
  have hs := (List.pairwise_map (R := fun s t => t ≤ s)).2 h.sorted
  rw [← hkeys] at hs
  exact List.pairwise_map.1 hs

/-- Around a straddled position two rows of one key are neighbours. -/
theorem exists_neighbours (h : Ordered key rows out) (hm : Straddled key rows m) :
    ∃ P a b S, out = P ++ a :: b :: S ∧ P.length + 1 = m ∧ key a = key b := by
  obtain ⟨a, -, hnewer, hasNew⟩ := hm
  rw [← h.perm.countP_eq] at hnewer hasNew
  have hlen : m < out.length := Nat.lt_of_lt_of_le hasNew List.countP_le_length
  have hkey (i : Nat) (hi : i < out.length) (hge : ¬ i < out.countP fun b => key a < key b)
      (hlt : i < out.countP fun b => key a ≤ key b) : key out[i] = key a := by
    rw [lt_countP_iff (fun b c hbc hb => by simpa using (of_decide_eq_true hb).trans_le hbc) h.sorted hi] at hge
    rw [lt_countP_iff (fun b c hbc hb => by simpa using (of_decide_eq_true hb).trans hbc) h.sorted hi] at hlt
    exact le_antisymm (by simpa using hge) (by simpa using hlt)
  obtain ⟨i, rfl⟩ : ∃ i, m = i + 1 := ⟨m - 1, by omega⟩
  refine ⟨out.take i, out[i], out[i + 1], out.drop (i + 2), ?_, by simp; omega, ?_⟩
  · rw [← List.drop_eq_getElem_cons, ← List.drop_eq_getElem_cons, List.take_append_drop]
  · rw [hkey i (by omega) (by omega) (by omega), hkey (i + 1) hlen (by omega) hasNew]

end Ordered

section Pages
variable {results : Nat → List α} (hr : ∀ k, Ordered key rows (results k))
include hr

/-- The keys on the pages are those of one result. -/
theorem map_pages (h : Ordered key rows out) : (pages size n results).map key = (out.take (n * size)).map key := by
  induction n with
  | zero => simp [pages]
  | succ n ih =>
    have hpage : (page size n (results n)).map key = (page size n out).map key := by
      simp only [page, List.map_take, List.map_drop, (hr n).keys h]
    rw [pages_succ, List.map_append, ih, take_succ_mul, List.map_append, hpage]

/-- The pages are nonincreasing in the key, however ties are broken. -/
theorem pages_sorted : (pages size n results).Pairwise fun a b => key b ≤ key a := by
  have hs := (List.pairwise_map (R := fun s t => t ≤ s)).2 ((hr 0).sorted.sublist (List.take_sublist (n * size) _))
  rw [← map_pages hr (hr 0)] at hs
  exact List.pairwise_map.1 hs

/-- Where no page boundary is straddled, the pages are what one result has up to the last boundary. -/
theorem pages_perm_take (h : Ordered key rows out) (hn : ∀ k ≤ n, ¬ Straddled key rows (k * size)) :
    (pages size n results).Perm (out.take (n * size)) := by
  induction n with
  | zero => simp [pages]
  | succ n ih =>
    have hbefore := (h.take_perm (hr n) (hn n (Nat.le_succ n))).append_right (page size n (results n))
    have hafter := (hr n).take_perm h (hn (n + 1) (Nat.le_refl _))
    rw [pages_succ]
    refine ((ih fun k hk => hn k (by omega)).append_right _).trans (hbefore.trans ?_)
    rwa [← take_succ_mul]

end Pages

/-- A row that stands on two pages is there twice. -/
theorem not_nodup_pages {results : Nat → List α} (hk : k + 1 < n) (h : a ∈ page size k (results k))
    (h' : a ∈ page size (k + 1) (results (k + 1))) : ¬ (pages size n results).Nodup := by
  intro hnodup
  have hdisjoint := List.pairwise_iff_getElem.1 (List.nodup_flatMap.1 hnodup).2 k (k + 1) (by simp; omega) (by simpa using hk)
    (Nat.lt_succ_self k)
  simp only [List.getElem_range] at hdisjoint
  exact hdisjoint h h'

/-- The pages have every row once, whatever results the queries give, if and only if no page boundary
is straddled. -/
theorem pages_perm_iff (hrows : rows.Nodup) (hs : 0 < size) (h : Ordered key rows out) :
    (∀ results, (∀ k, Ordered key rows (results k)) → (pages size (pageCount rows.length size) results).Perm rows) ↔
      ∀ k, ¬ Straddled key rows (k * size) := by
  constructor
  · intro hall k hstr
    obtain ⟨P, a, b, S, rfl, hP, hkey⟩ := h.exists_neighbours hstr
    obtain ⟨j, rfl⟩ : ∃ j, k = j + 1 := ⟨k - 1, by cases k <;> omega⟩
    rw [Nat.add_mul, Nat.one_mul] at hP
    let results := fun i => if i = j + 1 then P ++ b :: a :: S else P ++ a :: b :: S
    have hr : ∀ i, Ordered key rows (results i) := fun i => by
      dsimp only [results]
      split
      · exact h.swap hkey
      · exact h
    have hcount : j + 1 < pageCount rows.length size := by
      have hlen := h.length_eq
      rw [lt_pageCount_iff hs, Nat.add_mul, Nat.one_mul]
      simp only [List.length_append, List.length_cons] at hlen
      omega
    refine not_nodup_pages (a := a) hcount ?_ ?_ ((hall results hr).nodup_iff.2 hrows)
    · refine mem_page (i := P.length) (by omega) (by rw [Nat.add_mul]; omega) ?_
      simp [results]
    · refine mem_page (i := P.length + 1) (by rw [Nat.add_mul]; omega) (by rw [Nat.add_mul, Nat.add_mul]; omega) ?_
      simp [results]
  · intro hnone results hr
    refine (pages_perm_take hr h fun k _ => hnone k).trans ?_
    rw [List.take_of_length_le (h.length_eq ▸ le_pageCount_mul hs)]
    exact h.perm

end DocAuto.Paging
