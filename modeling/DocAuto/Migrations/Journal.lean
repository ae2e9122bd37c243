import DocAuto.Migrations.Watermark
import Mathlib.Tactic.IntervalCases

/-! The journal of the database migrations and the upgrade paths of a database: each release
ships the first entries of the journal and runs `runMigrations` any number of times. -/
namespace DocAuto.Migrations

inductive Migration where
  | puzzlingTalon
  | enableRowLevelSecurity
  | overconfidentMakkari
  | renameExtractions
  | rainyMastermind
  | addReprocessedAuditEvent
  | fixRlsNullTenantContext
  | addLoginBootstrapFunction
  deriving DecidableEq, Repr

/-- `meta/_journal.json`. -/
def journal : List (Entry Migration) :=
  [⟨1783500057565, .puzzlingTalon⟩,
   ⟨1783500068284, .enableRowLevelSecurity⟩,
   ⟨1783604926277, .overconfidentMakkari⟩,
   ⟨1787577600000, .renameExtractions⟩,
   ⟨1787572165970, .rainyMastermind⟩,
   ⟨1787572166970, .addReprocessedAuditEvent⟩,
   ⟨1787980000000, .fixRlsNullTenantContext⟩,
   ⟨1787990000000, .addLoginBootstrapFunction⟩]

/-- What the migrations make of the extraction table: its old and its present name, and the
unique index on its `document_id`. -/
structure Catalog where
  extractions : Bool := false
  documentsExtraction : Bool := false
  documentIdUnique : Bool := false
  deriving DecidableEq, Repr

/-- The statements about the extraction table; `none` where a table they name is missing. -/
def Migration.execute (c : Catalog) : Migration → Option Catalog
  | .puzzlingTalon => some { c with extractions := true }
  | .enableRowLevelSecurity => if c.extractions then some c else none
  | .renameExtractions =>
    if c.extractions ∧ ¬ c.documentsExtraction then
      some { c with extractions := false, documentsExtraction := true }
    else some c
  | .rainyMastermind => if c.documentsExtraction then some { c with documentIdUnique := true } else none
  | .fixRlsNullTenantContext => if c.documentsExtraction then some c else none
  | .overconfidentMakkari | .addReprocessedAuditEvent | .addLoginBootstrapFunction => some c

/-- The catalog after the applied entries, in order. -/
def catalog (applied : List (Entry Migration)) : Option Catalog :=
  applied.foldlM (fun c e => e.tag.execute c) {}

/-- A release: how many journal entries it ships, and how often it runs `runMigrations`. -/
structure Release where
  ships : Nat
  runs : Nat
  deriving DecidableEq, Repr

def runMigrations (ships : Nat) (applied : List (Entry Migration)) : List (Entry Migration) :=
  migrate (journal.take ships) applied

/-- What a database has applied after a sequence of releases, from an empty one on. -/
def upgrade (releases : List Release) : List (Entry Migration) :=
  releases.foldl (fun applied r => (runMigrations r.ships)^[r.runs] applied) []

/-- Every entry has been executed once, in the order of a fresh installation, and the
extraction worker finds its conflict target. -/
structure Converged (applied : List (Entry Migration)) : Prop where
  once : ∀ e ∈ journal, applied.count e = 1
  order : applied = runMigrations journal.length []
  index : ∃ c, catalog applied = some c ∧ c.documentIdUnique

theorem converged_iff {applied : List (Entry Migration)} : Converged applied ↔ applied = journal := by
  constructor
  · intro h
    exact h.order.trans migrate_nil
  · rintro rfl
    exact ⟨by decide, migrate_nil.symm, _, rfl, rfl⟩

/-- The entry dated after its two successors. -/
theorem cut_iff {n : Nat} : Cut journal n ↔ n ≠ 4 ∧ n ≠ 5 := by
  by_cases hn : n ≤ journal.length
  · have hlen : journal.length = 8 := rfl
    rw [hlen] at hn
    interval_cases n <;> decide
  · refine iff_of_true (fun e _ f hf => ?_) (by simp [journal] at hn; omega)
    rw [List.drop_eq_nil_of_le (by omega)] at hf
    cases hf

/-- The runs of the releases, in order. -/
def Release.all (releases : List Release) : List Nat := releases.flatMap fun r => List.replicate r.runs r.ships

theorem upgrade_eq (releases : List Release) : upgrade releases = migrations journal (Release.all releases) [] := by
  suffices h : ∀ applied, releases.foldl (fun applied r => (runMigrations r.ships)^[r.runs] applied) applied =
      migrations journal (Release.all releases) applied from h []
  induction releases with
  | nil => exact fun _ => rfl
  | cons r releases ih =>
    intro applied
    have hrun : ∀ k applied, (runMigrations r.ships)^[k] applied = migrations journal (List.replicate k r.ships) applied := by
      intro k
      induction k with
      | zero => exact fun _ => rfl
      | succ k ihk => exact fun applied => ihk _
    rw [List.foldl_cons, ih, hrun]
    simp [Release.all, migrations, List.foldl_append]

theorem Release.mem_all {releases : List Release} {n : Nat} :
    n ∈ Release.all releases ↔ ∃ r ∈ releases, 0 < r.runs ∧ r.ships = n := by
  simp [Release.all, List.mem_flatMap, List.mem_replicate, Nat.pos_iff_ne_zero, eq_comm]

theorem Release.all_sorted {releases : List Release} (h : releases.Pairwise (·.ships ≤ ·.ships)) :
    (Release.all releases).Pairwise (· ≤ ·) := by
  induction releases with
  | nil => exact List.Pairwise.nil
  | cons r releases ih =>
    obtain ⟨hr, hrest⟩ := List.pairwise_cons.1 h
    rw [Release.all, List.flatMap_cons, List.pairwise_append]
    refine ⟨List.pairwise_replicate.2 (.inr le_rfl), ih hrest, fun a ha b hb => ?_⟩
    obtain ⟨s, hs, hb⟩ := List.mem_flatMap.1 hb
    rw [List.eq_of_mem_replicate ha, List.eq_of_mem_replicate hb]
    exact hr s hs

/-- Releases that ship ever more of the journal bring a database to where a fresh installation
is exactly when the whole journal has been run and no run shipped the first four or the first
five entries. -/
theorem upgrades_converge_iff {releases : List Release} (hgrow : releases.Pairwise (·.ships ≤ ·.ships)) :
    Converged (upgrade releases) ↔
      (∃ r ∈ releases, journal.length ≤ r.ships ∧ 0 < r.runs) ∧
        ∀ r ∈ releases, 0 < r.runs → r.ships ≠ 4 ∧ r.ships ≠ 5 := by
  have hstart : Cut journal 0 := fun _ h => by cases h
  have hsorted : (0 :: Release.all releases).Pairwise (· ≤ ·) :=
    List.pairwise_cons.2 ⟨fun _ _ => Nat.zero_le _, Release.all_sorted hgrow⟩
  rw [converged_iff, upgrade_eq, ← List.take_zero (l := journal), migrations_iff (by decide) hstart hsorted]
  refine and_congr ⟨?_, ?_⟩ ⟨fun h r hr hruns => ?_, fun h n hn => ?_⟩
  · rintro ⟨n, hn, hlen⟩
    rcases List.mem_cons.1 hn with rfl | hn
    · cases hlen
    · obtain ⟨r, hr, hruns, rfl⟩ := Release.mem_all.1 hn
      exact ⟨r, hr, hlen, hruns⟩
  · rintro ⟨r, hr, hlen, hruns⟩
    exact ⟨r.ships, List.mem_cons_of_mem _ (Release.mem_all.2 ⟨r, hr, hruns, rfl⟩), hlen⟩
  · exact cut_iff.1 (h r.ships (Release.mem_all.2 ⟨r, hr, hruns, rfl⟩))
  · obtain ⟨r, hr, hruns, rfl⟩ := Release.mem_all.1 hn
    exact cut_iff.2 (h r hr hruns)

/-- A release that ended with the rename has run: the next one skips the index. -/
theorem index_skipped : ¬ Converged (upgrade [⟨4, 1⟩, ⟨8, 1⟩]) ∧
    catalog (upgrade [⟨4, 1⟩, ⟨8, 1⟩]) = some { documentsExtraction := true, documentIdUnique := false } := by
  rw [converged_iff]
  decide +kernel

/-- Shipping the rename with its two successors is fine. -/
theorem upgrades_converge_six : Converged (upgrade [⟨3, 1⟩, ⟨6, 2⟩, ⟨8, 1⟩]) :=
  (upgrades_converge_iff (by decide)).2 (by decide)

end DocAuto.Migrations
