import DocAuto.Database.Table
import DocAuto.Database.Transaction
import DocAuto.Json.Value
import DocAuto.Paging.Pages

/-! The pages of the document list. Every page is a request of its own, and the database may
order the documents of one instant differently in each. -/
namespace DocAuto.Database
open Process Paging Table

/-- How a query orders rows by `desc(documents.createdAt)`. -/
structure Sorter where
  order : List DocumentRow → List DocumentRow
  ordered : ∀ rows, Ordered (·.createdAt) rows (order rows)

theorem ordered_orderByCreatedAt {rows out : List DocumentRow} (h : out.Perm rows) :
    Ordered (·.createdAt) rows (orderByCreatedAt out) := by
  refine ⟨(List.mergeSort_perm out _).trans h, ?_⟩
  refine (List.pairwise_mergeSort (fun a b c hab hbc => ?_) (fun a b => ?_) out).imp fun hle => of_decide_eq_true hle
  · simpa using le_trans (of_decide_eq_true hbc) (of_decide_eq_true hab)
  · simpa using le_total b.createdAt a.createdAt

namespace Sorter

/-- Documents of one instant in the order of their insertion. -/
def stable : Sorter := ⟨orderByCreatedAt, fun _ => ordered_orderByCreatedAt (.refl _)⟩

/-- Documents of one instant in the opposite order. -/
def backward : Sorter := ⟨fun rows => orderByCreatedAt rows.reverse, fun rows => ordered_orderByCreatedAt rows.reverse_perm⟩

/-- A query with a given result on some rows. -/
def giving (rows out : List DocumentRow) (h : Ordered (·.createdAt) rows out) : Sorter where
  order l := if l = rows then out else orderByCreatedAt l
  ordered l := by
    split
    · next he => exact he ▸ h
    · exact ordered_orderByCreatedAt (.refl _)

end Sorter

/-- The effect of one statement when the database orders rows by `sorter`. -/
def Statement.execSorted (sorter : Sorter) (s : Session) : (c : Statement) → Db → Except Failure c.Resp × Db
  | .selectDocumentsPage w limit offset, db =>
    (if offset ≤ maxBigint then .ok (((sorter.order (matching s w db)).drop offset).take limit) else .error bigintError, db)
  | c, db => exec s c db

/-- One request to `listDocuments`. -/
def listPage (sorter : Sorter) (rls : Bool) (tenantId : Uuid) (status : Option DocumentStatus) (pageSize : Nat) (db : Db)
    (page : Nat) : Except Failure (List DocumentRow × Nat) × Db :=
  (listDocumentsTx tenantId status page pageSize).exec (Statement.execSorted sorter ⟨rls, tenantId⟩) db

theorem execSorted_stable (s : Session) : Statement.execSorted .stable s = Statement.exec s := by
  funext c db
  cases c <;> rfl

/-- The documents of a tenant, of one status or of all. -/
def documentsOf (tenantId : Uuid) (status : Option DocumentStatus) (db : Db) : List DocumentRow :=
  db.documents.filter fun r => r.tenantId == tenantId && status.all (· == r.status)

variable {sorter : Sorter} {rls : Bool} {tenantId : Uuid} {status : Option DocumentStatus} {pageSize : Nat} {db : Db}

theorem matching_eq_documentsOf : Statement.matching ⟨rls, tenantId⟩ { tenantId := some tenantId, status := status } db =
    documentsOf tenantId status db := by
  refine List.filter_congr fun r _ => ?_
  have ht : (tenantId == r.tenantId) = (r.tenantId == tenantId) := BEq.comm
  simp only [Session.admitsTenant, DocumentsWhere.holds, Option.all_some, Option.all_none, ht]
  cases r.tenantId == tenantId <;> simp

/-- The offset of a page is a `bigint`. -/
def InRange (pageSize page : Nat) : Prop := (page - 1) * pageSize ≤ Statement.maxBigint

instance (pageSize page : Nat) : Decidable (InRange pageSize page) := inferInstanceAs (Decidable (_ ≤ _))

/-- A request for a page beyond fails. -/
theorem listPage_eq (page : Nat) : listPage sorter rls tenantId status pageSize db page =
    (if InRange pageSize page then
      .ok (Paging.page pageSize (page - 1) (sorter.order (documentsOf tenantId status db)),
        (documentsOf tenantId status db).length)
    else .error Statement.bigintError, db) := by
  have hm : Statement.matching ⟨rls, tenantId⟩ { tenantId := some tenantId, status := status } db =
    documentsOf tenantId status db := matching_eq_documentsOf
  rw [← hm]
  by_cases hle : InRange pageSize page
  · rw [if_pos hle]
    refine Program.exec_bind_of_ok _ ((Program.exec_perform _ _ _).trans ?_)
    exact congrArg (·, db) (if_pos hle)
  · rw [if_neg hle]
    refine Program.exec_bind_of_error _ ((Program.exec_perform _ _ _).trans ?_)
    exact congrArg (·, db) (if_neg hle)

/-- With the stable order a request is the transaction as the other modules run it. -/
theorem listPage_stable (rls : Bool) (tenantId : Uuid) (status : Option DocumentStatus) (page pageSize : Nat) (db : Db) :
    listPage .stable rls tenantId status pageSize db page = Tx.run rls (.listDocuments tenantId status page pageSize) db := by
  have hbody : (Tx.listDocuments tenantId status page pageSize).body.exec (Statement.exec ⟨rls, tenantId⟩) db =
      listPage .stable rls tenantId status pageSize db page := by
    rw [listPage, execSorted_stable]
    rfl
  rw [Tx.run, show (Tx.listDocuments tenantId status page pageSize).tenantId = tenantId from rfl, hbody, listPage_eq]
  split <;> rfl

/-- The documents that a request returns, if it does not fail. -/
def rowsOf : Except Failure (List DocumentRow × Nat) × Db → Option (List DocumentRow)
  | (.ok (rows, _), _) => some rows
  | (.error _, _) => none

/-- The documents of the pages 1, 2, … in their order, the request for each page ordered by its own sorter. -/
def listing (sorters : Nat → Sorter) (rls : Bool) (tenantId : Uuid) (status : Option DocumentStatus) (pageSize : Nat)
    (db : Db) : Option (List DocumentRow) :=
  ((List.range (pageCount (documentsOf tenantId status db).length pageSize)).mapM fun k =>
    rowsOf (listPage (sorters (k + 1)) rls tenantId status pageSize db (k + 1))).map List.flatten

/-- The last page that is asked for, when a client goes on to `furthest`. -/
def lastPage (tenantId : Uuid) (status : Option DocumentStatus) (pageSize furthest : Nat) (db : Db) : Nat :=
  max furthest (pageCount (documentsOf tenantId status db).length pageSize)

/-- The requests for all pages up to the last one lose and repeat nothing. -/
structure Complete (sorters : Nat → Sorter) (rls : Bool) (tenantId : Uuid) (status : Option DocumentStatus)
    (pageSize furthest : Nat) (db : Db) : Prop where
  total : ∀ page ≤ lastPage tenantId status pageSize furthest db, ∃ rows,
    (listPage (sorters page) rls tenantId status pageSize db page).1 = .ok (rows, (documentsOf tenantId status db).length)
  listed : ∃ rows, listing sorters rls tenantId status pageSize db = some rows ∧
    (∀ d ∈ documentsOf tenantId status db, rows.count d = 1) ∧ (∀ d ∈ rows, d ∈ documentsOf tenantId status db) ∧
      rows.Pairwise fun a b => b.createdAt ≤ a.createdAt
  later : ∀ page ≤ lastPage tenantId status pageSize furthest db,
    pageCount (documentsOf tenantId status db).length pageSize < page →
      rowsOf (listPage (sorters page) rls tenantId status pageSize db page) = some []

theorem InRange.mono {page last : Nat} (h : InRange pageSize last) (hle : page ≤ last) : InRange pageSize page :=
  Nat.le_trans (Nat.mul_le_mul_right _ (Nat.sub_le_sub_right hle 1)) h

theorem listing_eq (sorters : Nat → Sorter)
    (hr : InRange pageSize (pageCount (documentsOf tenantId status db).length pageSize)) :
    listing sorters rls tenantId status pageSize db =
      some (pages pageSize (pageCount (documentsOf tenantId status db).length pageSize)
        fun k => (sorters (k + 1)).order (documentsOf tenantId status db)) := by
  have hrows : (List.range (pageCount (documentsOf tenantId status db).length pageSize)).mapM
        (fun k => rowsOf (listPage (sorters (k + 1)) rls tenantId status pageSize db (k + 1))) =
      some ((List.range (pageCount (documentsOf tenantId status db).length pageSize)).map
        fun k => page pageSize k ((sorters (k + 1)).order (documentsOf tenantId status db))) := by
    refine Json.mapM_read fun k hk => ?_
    rw [listPage_eq, if_pos (hr.mono (List.mem_range.1 hk))]
    rfl
  rw [listing, hrows]
  rfl

theorem nodup_documentsOf (hk : Keyed (·.id) db.documents) : (documentsOf tenantId status db).Nodup :=
  (hk.filter _).of_map

/-- What the pages show whatever the sorters do; only their order within one instant matters. -/
theorem complete_iff (hk : Keyed (·.id) db.documents) (hs : 1 ≤ pageSize) (sorters : Nat → Sorter) (furthest : Nat) :
    Complete sorters rls tenantId status pageSize furthest db ↔
      InRange pageSize (lastPage tenantId status pageSize furthest db) ∧
        (pages pageSize (pageCount (documentsOf tenantId status db).length pageSize)
          fun k => (sorters (k + 1)).order (documentsOf tenantId status db)).Perm (documentsOf tenantId status db) := by
  have hdocs : (documentsOf tenantId status db).Nodup := nodup_documentsOf hk
  have hlast : pageCount (documentsOf tenantId status db).length pageSize ≤ lastPage tenantId status pageSize furthest db :=
    Nat.le_max_right _ _
  constructor
  · intro h
    have hr : InRange pageSize (lastPage tenantId status pageSize furthest db) := by
      obtain ⟨rows, hrows⟩ := h.total _ (Nat.le_refl _)
      by_contra hno
      rw [listPage_eq, if_neg hno] at hrows
      cases hrows
    obtain ⟨rows, hrows, honce, honly, -⟩ := h.listed
    obtain rfl := Option.some.inj ((listing_eq sorters (hr.mono hlast)).symm.trans hrows)
    refine ⟨hr, (List.perm_ext_iff_of_nodup (List.nodup_iff_count_le_one.2 fun d => ?_) hdocs).2 fun d => ?_⟩
    · rcases Nat.eq_zero_or_pos (List.count d _) with hzero | hpos
      · exact hzero.le.trans (Nat.zero_le 1)
      · exact (honce d (honly d (List.count_pos_iff.1 hpos))).le
    · exact ⟨honly d, fun hd => List.count_pos_iff.1 (by rw [honce d hd]; exact Nat.zero_lt_one)⟩
  · rintro ⟨hr, h⟩
    refine ⟨fun page hpage => ⟨_, by rw [listPage_eq, if_pos (hr.mono hpage)]⟩,
      ⟨_, listing_eq sorters (hr.mono hlast), fun d hd => ?_, fun d hd => h.mem_iff.1 hd, ?_⟩, fun page hpage hlater => ?_⟩
    · rw [h.count_eq, List.count_eq_one_of_mem hdocs hd]
    · exact pages_sorted fun k => (sorters (k + 1)).ordered _
    · obtain ⟨k, rfl⟩ : ∃ k, page = k + 1 := ⟨page - 1, by omega⟩
      rw [listPage_eq, if_pos (hr.mono hpage), rowsOf, Nat.add_sub_cancel]
      refine congrArg some (page_eq_nil ?_)
      rw [((sorters (k + 1)).ordered _).length_eq]
      exact Nat.le_of_not_lt fun hlt => absurd ((lt_pageCount_iff hs).2 hlt) (by omega)

/-- A document of tenant 1 that was uploaded at instant 5. -/
def uploadedAtFive (id : Uuid) : DocumentRow := ⟨id, 1, 2, "key", "a.pdf", "application/pdf", .approved, none, none, 5⟩

/-- Two documents of one instant. -/
def twins : Db where
  tenants := [⟨1, "Acme", "acme", 0.85, none, none⟩]
  users := [⟨2, 1, "a@acme.test", "", .admin⟩]
  documents := [uploadedAtFive 10, uploadedAtFive 11]
  documentsExtraction := []
  documentAuditLog := []
  webhookDeliveries := []
  now := 6

theorem keyed_twins : Keyed (·.id) twins.documents := by simp [Keyed, twins, uploadedAtFive]

end DocAuto.Database
