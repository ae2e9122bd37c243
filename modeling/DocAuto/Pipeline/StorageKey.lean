import DocAuto.Database.Commit
import DocAuto.Pipeline.Standing
import DocAuto.Storage.Drivers

/-! The storage key of a document: the placeholder of its first row, the key its upload
writes, and the keys under which its file is fetched. -/
namespace DocAuto.Pipeline
open Process Database Protocol

/-- The key under which every storage driver puts a file; `uuidText` prints the ids. -/
def uploadKey (uuidText : Uuid → String) (p : Upload) (documentId : Uuid) : String :=
  uuidText p.tenantId ++ "/" ++ uuidText documentId ++ "/" ++ p.fileName

section Key
variable {uuidText : Uuid → String} {p : Upload} {d : Uuid}

theorem uploadKey_eq {env : Storage.Env} {params : Storage.UploadParams} {objects : Storage.Objects}
    (htenant : params.tenantId.chars = (uuidText p.tenantId).toList)
    (hdocument : params.documentId.chars = (uuidText d).toList) (hfile : params.fileName.chars = p.fileName.toList) :
    (uploadKey uuidText p d).toList = (Storage.uploadDocument env params objects).1 := by
  rw [Storage.uploadDocument_eq, Storage.keyOf, htenant, hdocument, hfile]
  simp [uploadKey]

theorem uploadKey_ne_pending : uploadKey uuidText p d ≠ "pending" := by
  intro h
  have hslash : '/' ∈ (uploadKey uuidText p d).toList := by simp [uploadKey]
  rw [h] at hslash
  exact absurd hslash (by decide)

end Key

/-- The answer to an upload is the key of the driver. -/
def driverKey (uuidText : Uuid → String) (c : Config) : Action → Bool
  | .step i (.text s) =>
    match c.command i with
    | some (.uploadDocument p d) => s == uploadKey uuidText p d
    | _ => true
  | _ => true

/-- A file URL reads, and a reprocess reopens, only a row whose key has been written. -/
def keyWritten (c : Config) : Action → Bool
  | .step i .execute =>
    match c.command i with
    | some (.tx (.getStorageKey t d)) =>
      (c.world.db.document d).all fun r => decide (r.tenantId = t → r.storageKey ≠ "pending")
    | some (.tx (.reprocess t d _)) =>
      (c.world.db.document d).all fun r =>
        decide (r.tenantId = t → r.status = .failed ∨ r.status = .rejected → r.storageKey ≠ "pending")
    | _ => true
  | _ => true

/-- One of the steps is the return of an upload of `d` with `key`. -/
def Returned (S : Config → Action → Prop) (d : Uuid) (key : String) : Prop :=
  ∃ c i p, S c (.step i (.text key)) ∧ c.command i = some (.uploadDocument p d)

/-- The document and the key of the file a process is about to fetch: an OCR execution
downloads it, or a call signs a URL for it. -/
def Activity.fetches (p : Activity) : Option (Uuid × String) :=
  match p.owner, p.command with
  | .job (.ocr _ _) data, some (.downloadDocument key) => some (data.documentId, key)
  | .api (.fileUrl _ d), some (.getPresignedUrl key _) => some (d, key)
  | _, _ => none

def Config.fetches (c : Config) (i : ProcId) : Option (Uuid × String) := (c.procs i).bind Activity.fetches

section Fetching

/-- The read from which an owner takes the key of the file it fetches. -/
def Owner.reads : Owner → Option Tx
  | .job (.ocr _ _) data => some (.findDocument data.tenantId data.documentId)
  | .api (.fileUrl t d) => some (.getStorageKey t d)
  | _ => none

/-- Such an owner reads no other document, and fetches only under the key it has read. -/
def Owner.fetches (o : Owner) (held : Option String) : Cmd → Prop
  | .tx (.findDocument t d) => o.reads = some (.findDocument t d)
  | .tx (.getStorageKey t d) => o.reads = some (.getStorageKey t d)
  | .downloadDocument key | .getPresignedUrl key _ => held = some key
  | _ => True

theorem reads_row {o : Owner} {t d : Uuid} (h : o.reads = some (.findDocument t d)) :
    ∃ j run data, o = .job (.ocr j run) data ∧ data.tenantId = t ∧ data.documentId = d := by
  unfold Owner.reads at h
  split at h <;> cases h
  exact ⟨_, _, _, rfl, rfl, rfl⟩

theorem reads_key {o : Owner} {t d : Uuid} (h : o.reads = some (.getStorageKey t d)) : o = .api (.fileUrl t d) := by
  unfold Owner.reads at h
  split at h <;> cases h
  rfl

def heldAfter (held : Option String) (c : Cmd) (r : Except Failure c.Resp) : Option String :=
  match c, r with
  | .tx (.findDocument _ _), .ok (some row) => some row.storageKey
  | .tx (.getStorageKey _ _), .ok (some key) => some key
  | _, _ => held

def fetching (o : Owner) : Protocol Cmd Cmd.Resp Failure where
  Phase := Option String
  allowed held c := o.reads.isSome → o.fetches held c
  answers _ _ _ := True
  next := heldAfter

def fetchings : Conduct := ⟨fetching, fun _ => none, fun _ _ _ => True⟩

/-- The key a process has read. -/
def Activity.held (p : Activity) : Option String := fetchings.phase p

variable {o : Owner} {α : Type}

private theorem free_fetching (ho : o.reads = none) (p : Proc α) (held : Option String) :
    (fetching o).wp (fun _ _ => True) p held := by
  induction p generalizing held with
  | ret a => trivial
  | throw e => trivial
  | call c k ih => exact ⟨fun hs => by simp [ho] at hs, fun r _ => ih r _⟩

private theorem void_fetching {p : Proc α} {held : Option String} (h : (fetching o).wp (fun _ _ => True) p held) :
    (fetching o).wp (fun _ _ => True) p.void held := by
  refine (wp_bind _ _ _).2 (wp_mono (fun _ r _ => ?_) h)
  cases r <;> trivial

private theorem fileUrl_fetching (t d : Uuid) :
    (fetching (.api (.fileUrl t d))).wp (fun _ _ => True) (getDocumentFileUrl t d) none := by
  refine wp_step (fun _ => rfl) (fun _ _ => trivial) fun key _ => ?_
  cases key with
  | none => trivial
  | some key => exact wp_step (fun _ => rfl) (fun _ _ => trivial) fun _ _ => trivial

private theorem aside_fetching {c : Cmd} {K : Option String → Prop} (hf : ∀ held, o.fetches held c)
    (hn : ∀ held r, heldAfter held c r = held) : (fetching o).Keeps K (perform c) := by
  refine .perform fun held hk => ⟨fun _ => hf held, fun r _ => ?_⟩
  rw [show (fetching o).next held c r = held from hn held r]
  exact hk

private theorem runOcr_fetching (job : JobData) (document : DocumentRow) :
    (fetching o).Keeps (· = some document.storageKey) (runOcr job document) := by
  refine .bind (.perform fun _ hk => ⟨fun _ => hk, fun _ _ => hk⟩) fun _ => ?_
  refine .bind (aside_fetching (fun _ => trivial) fun _ _ => rfl) fun _ => ?_
  refine .bind (aside_fetching (fun _ => trivial) fun _ _ => rfl) fun _ => ?_
  refine .bind (aside_fetching (fun _ => trivial) fun _ _ => rfl) fun _ => ?_
  exact .bind (aside_fetching (fun _ => trivial) fun _ _ => rfl) fun _ => .ret _

private theorem ocr_fetching (d : Uuid) (run : RunId) (job : JobData) :
    (fetching (.job (.ocr d run) job)).wp (fun _ _ => True) (ocrProcessor job) none := by
  refine wp_step (fun _ => rfl) (fun _ _ => trivial) fun document _ => ?_
  cases document with
  | none => trivial
  | some document =>
    have hstatus (status : DocumentStatus) : (fetching (.job (.ocr d run) job)).Keeps
        (· = some document.storageKey) (setStatus job status) :=
      aside_fetching (fun _ => trivial) fun _ _ => rfl
    have hrest := (hstatus .ocrProcessing).bind fun _ => .tryCatch (runOcr_fetching job document) fun err =>
      (hstatus .failed).bind fun _ => .throw err
    exact wp_mono (fun _ _ _ => trivial) (hrest _ rfl)

/-- The programs of all owners fetch only what they have read. -/
theorem fetchings_start : fetchings.Starts where
  call call := by
    cases call with
    | fileUrl t d => exact void_fetching (fileUrl_fetching t d)
    | _ => exact free_fetching rfl _ _
  job jobId data draw := by
    cases jobId with
    | ocr d run => exact void_fetching (ocr_fetching d run data)
    | extraction d run | webhook n => exact free_fetching rfl _ _

end Fetching

/-- The record is there, with a key that satisfies `K`. -/
def HasKey (K : String → Prop) (rec : Option Record) : Prop := ∃ r, rec = some r ∧ K r.row.storageKey

/-- What stands at a control point about the key of `d`. -/
def Point.hasKey (K : String → Prop) (d : Uuid) (rec : Option Record) : Point → Prop
  | .upload _ id (.key key) => id = d → K key
  | .upload _ id .announce | .upload _ id .enqueue | .reopen _ id _ => id = d → HasKey K rec
  | _ => True

/-- What stands of a process about the key of `d`. -/
structure Activity.HasKey (K : String → Prop) (d : Uuid) (rec : Option Record) (p : Activity) : Prop where
  point : p.point.hasKey K d rec
  execution : ∀ run data, p.owner = .job (.ocr d run) data → Pipeline.HasKey K rec
  held : ∀ key, p.owner.reads.isSome → p.owner.documentId = some d → p.held = some key → K key

/-- The key of `d` is the placeholder or satisfies `K`, and does satisfy `K` wherever an OCR job
of `d` waits, runs or is about to be enqueued. -/
structure KeyedFor (K : String → Prop) (d : Uuid) (c : Config) : Prop where
  row : ∀ r, (c.view d).record = some r → r.row.storageKey = "pending" ∨ K r.row.storageKey
  procs : ∀ i p, c.procs i = some p → p.HasKey K d (c.view d).record
  jobs : ∀ run job, c.world.jobs (.ocr d run) = some job → HasKey K (c.view d).record

section Steps
variable {K K' : String → Prop} {d : Uuid} {c c' : Config} {a : Action} {rec rec' : Option Record}

theorem HasKey.mono (hK : ∀ key, K key → K' key) (h : HasKey K rec) : HasKey K' rec := by
  obtain ⟨r, hr, hkey⟩ := h
  exact ⟨r, hr, hK _ hkey⟩

theorem Activity.HasKey.mono {p : Activity} (hp : p.HasKey K d rec) (hK : ∀ key, K key → K' key)
    (hrec : Pipeline.HasKey K rec → Pipeline.HasKey K' rec') : p.HasKey K' d rec' := by
  refine ⟨?_, fun run data ho => hrec (hp.execution run data ho), fun key hs hd hh => hK _ (hp.held key hs hd hh)⟩
  have hpt := hp.point
  unfold Point.hasKey at hpt ⊢
  split at hpt
  · exact fun hd => hK _ (hpt hd)
  · exact fun hd => hrec (hpt hd)
  · exact fun hd => hrec (hpt hd)
  · exact fun hd => hrec (hpt hd)
  · trivial

private theorem allows_key {v : View} {owner : Owner} {pt : Point} {t : Uuid} {set : DocumentsSet} {key : String}
    (hp : v.placed d owner pt) (hall : pt.allows (.tx (.updateDocument t d set))) (hset : set.storageKey = some key) :
    ∃ p, pt = .upload p d (.key key) := by
  cases pt with
  | aside | lost | reset _ _ _ _ | reopen _ _ _ => cases hall
  | review t' =>
    obtain ⟨call, -, hc⟩ := hp
    cases call <;> cases hc <;> cases hall
  | upload p id u => cases u <;> cases hall <;> cases hset; exact ⟨p, rfl⟩
  | ocr job o => cases o <;> cases hall <;> cases hset
  | extraction job e => cases e <;> cases hall <;> cases hset

private theorem allows_ocr {pt : Point} {data : JobData} {run : RunId} (hall : pt.allows (.queueAdd data (.ocr d run))) :
    (∃ p, pt = .upload p d .enqueue) ∨ ∃ t u, pt = .reopen t d u := by
  cases pt with
  | aside | lost | review _ | reset _ _ _ _ => cases hall
  | upload p id u => cases u <;> cases hall; exact .inl ⟨p, rfl⟩
  | reopen t id u => cases hall; exact .inr ⟨t, u, rfl⟩
  | ocr job o => cases o <;> cases hall
  | extraction job e => cases e <;> cases hall

private theorem step_key (hr : c.Regular) (hk : KeyedFor K d c) (h : step c a = some c') :
    ((c.view d).record = none ∧ ∀ r', (c'.view d).record = some r' → r'.row.storageKey = "pending") ∨
      ∃ r r', (c.view d).record = some r ∧ (c'.view d).record = some r' ∧
        (r'.row.storageKey = r.row.storageKey ∨ K r'.row.storageKey) := by
  rcases Option.eq_none_or_eq_some (c.view d).record with hrec | ⟨r, hrec⟩ <;>
    rcases step_record (d := d) hr.valid h with he | ⟨i, p, t, k, now, -, hp, -, hall, he, -⟩ <;> rw [hrec] at he
  · exact .inl ⟨hrec, fun r' hr' => by rw [he] at hr'; cases hr'⟩
  · refine .inl ⟨hrec, fun r' hr' => ?_⟩
    rw [he] at hr'
    cases t with
    | insertDocument p id =>
      simp only [Tx.after, Option.ite_none_right_eq_some, Option.some.injEq] at hr'
      exact hr'.2 ▸ rfl
    | _ => cases hr'
  · exact .inr ⟨r, r, hrec, he, .inl rfl⟩
  · rcases Tx.after_cases (d := d) t now r with hs | ⟨hd, -, hs⟩
    · exact .inr ⟨r, r, hrec, he.trans hs, .inl rfl⟩
    refine .inr ⟨r, _, hrec, he.trans hs, (Tx.commit_storageKey t now r).imp_right ?_⟩
    rintro ⟨tid, d', set, key, rfl, hset, hkey⟩
    cases hd
    obtain ⟨q, hq⟩ := allows_key (hr.placed hp) hall hset
    have hpoint := (hk.procs i p hp).point
    rw [hq] at hpoint
    exact hkey ▸ hpoint rfl

private theorem keyed_step (hr : c.Regular) (hk : KeyedFor K d c) (h : step c a = some c')
    (hrec : HasKey K (c.view d).record) : HasKey K (c'.view d).record := by
  obtain ⟨r, hr₀, hkey⟩ := hrec
  rcases step_key hr hk h with ⟨hnone, -⟩ | ⟨s, s', hs, hs', hsame | hnew⟩
  · simp [hnone] at hr₀
  · obtain rfl := Option.some.inj (hr₀.symm.trans hs)
    exact ⟨s', hs', hsame.symm ▸ hkey⟩
  · exact ⟨s', hs', hnew⟩

private theorem keyed_of_written (hk : KeyedFor K d c) {r : Record} (hr : (c.view d).record = some r)
    (hw : r.row.storageKey ≠ "pending") : K r.row.storageKey :=
  (hk.row r hr).resolve_left hw

/-- An upload that has stored the file comes to the key the driver answered. -/
theorem Cmd.exec_upload {p : Upload} {answer : Answer} {w w' : World} {key : String}
    (h : (Cmd.uploadDocument p d).exec answer w = some (.ok key, w')) : answer = .text key := by
  cases answer <;> simp [Cmd.exec] at h
  exact h.1 ▸ rfl

/-- A transaction that has answered was run and has committed. -/
theorem Cmd.exec_committed {t : Tx} {answer : Answer} {w w' : World} {x : t.Result}
    (h : (Cmd.tx t).exec answer w = some (.ok x, w')) : answer = .execute ∧ t.run true w.db = (.ok x, w'.db) := by
  cases answer <;> simp only [Cmd.exec, Option.some.injEq, Prod.mk.injEq, reduceCtorEq, false_and] at h
  obtain ⟨hx, rfl⟩ := h
  exact ⟨rfl, Prod.ext hx rfl⟩

/-- The row a file URL is made from. -/
theorem getStorageKey_ok {db db' : Db} (hs : db.Sound) {t : Uuid} {key : String}
    (h : (Tx.getStorageKey t d).run true db = (.ok (some key), db')) :
    ∃ row, db.document d = some row ∧ row.tenantId = t ∧ row.storageKey = key := by
  have hb := Tx.run_ok h
  simp only [Tx.body, getStorageKeyTx] at hb
  obtain ⟨rows, m, hm, hb⟩ := Program.exec_bind_ok _ hb
  simp only [statement, Program.exec_perform, Statement.exec, Prod.mk.injEq, Except.ok.injEq] at hm
  obtain ⟨rfl, rfl⟩ := hm
  simp only [Tx.tenantId, Program.exec_pure, Prod.mk.injEq, Except.ok.injEq, select_own_head hs] at hb
  obtain ⟨row, hrow, hkey⟩ := Option.map_eq_some_iff.1 hb.1
  obtain ⟨hd, ht⟩ := Option.mem_filter_iff.1 hrow
  exact ⟨row, hd, beq_iff_eq.1 ht, hkey⟩

private theorem reprocess_written {i : ProcId} {t actorId : Uuid} {r : Record} (hrec : (c.view d).record = some r)
    (hc : c.command i = some (.tx (.reprocess t d actorId))) (hw : keyWritten c (.step i .execute))
    (ht : t = r.row.tenantId) (hst : r.row.status = .failed ∨ r.row.status = .rejected) :
    r.row.storageKey ≠ "pending" := by
  simp only [keyWritten, hc, Db.document_of_record hrec, Option.all_some, decide_eq_true_eq] at hw
  exact hw ht.symm hst

private theorem fileUrl_written {i : ProcId} {t : Uuid} {row : DocumentRow} (hd : c.world.db.document d = some row)
    (hc : c.command i = some (.tx (.getStorageKey t d))) (hw : keyWritten c (.step i .execute))
    (ht : row.tenantId = t) : row.storageKey ≠ "pending" := by
  simp only [keyWritten, hc, hd, Option.all_some, decide_eq_true_eq] at hw
  exact hw ht

section Step
variable {i : ProcId} {answer : Answer} {p : Activity} {cmd : Cmd} {k : Except Failure cmd.Resp → Proc Unit}
  {r : Except Failure cmd.Resp} {w : World}

private theorem next_keyed (hr : c.Regular) (hk : KeyedFor K d c) (hp : c.procs i = some p)
    (hc : p.program = .call cmd k) (he : cmd.exec answer c.world = some (r, w))
    (hw : keyWritten c (.step i answer)) (hK : ∀ key, K key → K' key)
    (hrec : HasKey K (c.view d).record → HasKey K' (w.db.record d))
    (hret : ∀ key q, answer = .text key → cmd = .uploadDocument q d → K' key) :
    (p.point.next cmd r).hasKey K' d (w.db.record d) := by
  have hall := hr.valid.allows hp hc
  have hcmd := Config.command_of hp hc
  have heff : Effect d (c.view d) cmd answer r _ := Cmd.exec_effect d c.procs c.issued hr.valid.sound he
  have hplaced : (c.view d).placed d p.owner p.point := hr.placed hp
  have hpoint := (hk.procs i p hp).point
  revert hall hplaced hpoint
  generalize p.point = pt
  intro hall hplaced hpoint
  cases pt with
  | aside | lost | review _ => trivial
  | ocr job o => rcases ocr_next (r := r) hall with hn | hn | ⟨o', hn⟩ <;> rw [hn] <;> trivial
  | extraction job e => rcases extraction_next (r := r) hall with hn | hn | ⟨e', hn⟩ <;> rw [hn] <;> trivial
  | reopen t id run => cases hall; cases r <;> trivial
  | reset t id actorId run =>
    cases hall
    rcases r with e | row
    · trivial
    rintro rfl
    obtain ⟨rfl, now, -, had, -⟩ := heff.committed
    obtain ⟨s, hs, ht, hg⟩ := had rfl
    exact hrec ⟨s, hs, keyed_of_written hk hs (reprocess_written hs hcmd hw ht hg)⟩
  | upload q id u =>
    cases hall
    cases u with
    | insert => rcases r with e | _ | row <;> trivial
    | recover => rcases r with e | x <;> trivial
    | enqueue => rcases r with e | x <;> trivial
    | store =>
      rcases r with e | key
      · trivial
      · rintro rfl
        exact hret key q (Cmd.exec_upload he) rfl
    | announce =>
      rcases r with e | x
      · trivial
      · exact fun hd => hrec (hpoint hd)
    | key key =>
      rcases r with e | x
      · trivial
      rintro rfl
      obtain ⟨-, now, hview, -⟩ := heff.committed
      obtain ⟨s, hs, ht⟩ := hplaced.2 rfl (by rintro ⟨⟩)
      have hafter : (Tx.updateDocument q.tenantId id { storageKey := some key }).after now id (some s) = some _ :=
        Tx.after_own rfl ht.symm
      exact ⟨_, (congrArg View.record hview).trans ((congrArg _ hs).trans hafter), hK key (hpoint rfl)⟩

private theorem next_held (hr : c.Regular) (hf : fetchings.Holds p) (hk : KeyedFor K d c) (hp : c.procs i = some p)
    (hc : p.program = .call cmd k) (he : cmd.exec answer c.world = some (r, w))
    (hw : keyWritten c (.step i answer)) {key : String} (hs : p.owner.reads.isSome) (hd : p.owner.documentId = some d)
    (hheld : heldAfter p.held cmd r = some key) : K key := by
  have hcmd := Config.command_of hp hc
  have hfetch : p.owner.fetches p.held cmd := hf.allows hc hs
  have heff : Effect d (c.view d) cmd answer r _ := Cmd.exec_effect d c.procs c.issued hr.valid.sound he
  have hproc := hk.procs i p hp
  unfold heldAfter at hheld
  split at hheld
  · next t d' row =>
    obtain rfl := Option.some.inj hheld
    obtain ⟨d₀, run, data, howner, rfl, rfl⟩ := reads_row hfetch
    have hdata : data.documentId = d := by simpa [Owner.documentId, howner] using hd
    obtain ⟨-, -, -, -, hret⟩ := heff.committed
    obtain ⟨rec, hrec, rfl⟩ := Option.map_eq_some_iff.1 (hret hdata).symm
    have hd₀ : data.documentId = d₀ :=
      ((hr.standing d).orderly.owners i p.position _ data (Config.view_position hp) howner d₀ run rfl).1
    obtain ⟨s, hs, hkey⟩ := hproc.execution run data (hdata ▸ hd₀ ▸ howner)
    rw [hs] at hrec
    obtain ⟨hsame, -⟩ := Option.mem_filter_iff.1 hrec
    exact Option.some.inj hsame ▸ hkey
  · next t d' key' =>
    obtain rfl := Option.some.inj hheld
    obtain ⟨rfl, hrun⟩ := Cmd.exec_committed he
    obtain rfl : d' = d := by simpa [Owner.documentId, ApiCall.documentId, reads_key hfetch] using hd
    obtain ⟨row, hrow, ht, rfl⟩ := getStorageKey_ok hr.valid.sound hrun
    exact keyed_of_written hk (Db.record_of_document hrow) (fileUrl_written hrow hcmd hw ht)
  · exact hproc.held key hs hd hheld

end Step

private theorem fresh_keyed {owner : Owner} (program : Proc Unit)
    (he : ∀ run data, owner = .job (.ocr d run) data → HasKey K rec) :
    Activity.HasKey K d rec ⟨owner, program, []⟩ := by
  refine ⟨?_, he, fun _ _ _ hh => by cases hh⟩
  show owner.start.hasKey K d rec
  cases owner with
  | api call => cases call <;> trivial
  | job j data => cases j <;> trivial

private theorem update_keyed {procs : ProcId → Option Activity} {id : ProcId} {q : Option Activity}
    (hp : ∀ i p, procs i = some p → p.HasKey K d rec) (hq : ∀ p, q = some p → p.HasKey K d rec) (i : ProcId)
    (p : Activity) (h : Function.update procs id q i = some p) : p.HasKey K d rec := by
  by_cases hi : i = id
  · subst hi
    exact hq p (by simpa using h)
  · exact hp i p (by simpa [hi] using h)

private theorem procs_keyed (hr : c.Regular) (hf : ∀ i p, c.procs i = some p → fetchings.Holds p) (hk : KeyedFor K d c)
    (h : step c a = some c') (hw : keyWritten c a) (hK : ∀ key, K key → K' key)
    (hret : ∀ i key q, a = .step i (.text key) → c.command i = some (.uploadDocument q d) → K' key) :
    ∀ i p, c'.procs i = some p → p.HasKey K' d (c'.view d).record := by
  have hrec : HasKey K (c.view d).record → HasKey K' (c'.view d).record := fun hs => (keyed_step hr hk h hs).mono hK
  have hold : ∀ i p, c.procs i = some p → p.HasKey K' d (c'.view d).record := fun i p hp =>
    (hk.procs i p hp).mono hK hrec
  cases step_turn h with
  | call _ =>
    refine update_keyed hold ?_
    rintro p ⟨⟩
    exact fresh_keyed _ nofun
  | @start id jobId draw job hj hst hfresh =>
    refine update_keyed hold ?_
    rintro p ⟨⟩
    refine fresh_keyed _ fun run data ho => ?_
    cases ho
    exact hrec (hk.jobs run job hj)
  | @step id answer p cmd k r w hp hc he =>
    refine update_keyed hold ?_
    rintro p' ⟨⟩
    refine ⟨?_, fun run data ho => hrec ((hk.procs id p hp).execution run data ho), fun key hs hd hh => ?_⟩
    · exact next_keyed hr hk hp hc he hw hK hrec fun key q ha hq =>
        hret id key q (ha ▸ rfl) (hq ▸ Config.command_of hp hc)
    · exact hK key (next_held hr (hf id p hp) hk hp hc he hw hs hd hh)
  | finish _ _ | crash _ => exact update_keyed hold (by rintro p ⟨⟩)
  | stall _ _ | evict _ _ | tick => exact hold

theorem keyedFor_step (hr : c.Regular) (hf : ∀ i p, c.procs i = some p → fetchings.Holds p) (hk : KeyedFor K d c)
    (h : step c a = some c') (hw : keyWritten c a) (hK : ∀ key, K key → K' key)
    (hret : ∀ i key q, a = .step i (.text key) → c.command i = some (.uploadDocument q d) → K' key) :
    KeyedFor K' d c' := by
  have hrec : HasKey K (c.view d).record → HasKey K' (c'.view d).record := fun hs => (keyed_step hr hk h hs).mono hK
  refine ⟨fun r' hr' => ?_, procs_keyed hr hf hk h hw hK hret, fun run job hj => ?_⟩
  · rcases step_key hr hk h with ⟨-, hnew⟩ | ⟨r, s, hrow, hs, hkey⟩
    · exact .inl (hnew r' hr')
    obtain rfl := Option.some.inj (hs.symm.trans hr')
    rcases hkey with hsame | hnew
    · exact hsame.symm ▸ (hk.row r hrow).imp_right (hK _)
    · exact .inr (hK _ hnew)
  · rcases (step_move d hr.valid h).job_origin hj with ⟨old, hold, -⟩ | ⟨n, hn⟩ | ⟨i, pos, -, hpos, hall, -, -⟩
    · exact hrec (hk.jobs run old hold)
    · cases hn
    · obtain ⟨p, hp, rfl⟩ := Option.map_eq_some_iff.1 hpos
      have hpoint := (hk.procs i p hp).point
      have hocr : (∃ q, p.point = .upload q d .enqueue) ∨ ∃ t u, p.point = .reopen t d u := allows_ocr hall
      rcases hocr with ⟨q, hq⟩ | ⟨t, u, hq⟩ <;> rw [hq] at hpoint
      · exact hrec (hpoint rfl)
      · exact hrec (hpoint rfl)

end Steps

/-- The invariant over the steps `S` that a run has taken. -/
structure Accounted (S : Config → Action → Prop) (c : Config) : Prop where
  regular : c.Regular
  fetches : ∀ i p, c.procs i = some p → fetchings.Holds p
  keyed : ∀ d, KeyedFor (Returned S d) d c

theorem initial_accounted (tenants : List TenantRow) (users : List UserRow) :
    Accounted (fun _ _ => False) (initial tenants users) := by
  refine ⟨initial_regular tenants users, ?_, fun d => ⟨?_, ?_, ?_⟩⟩
  · rintro i p ⟨⟩
  · rintro r ⟨⟩
  · rintro i p ⟨⟩
  · rintro run job ⟨⟩

theorem step_accounted {S S' : Config → Action → Prop} {c c' : Config} {a : Action} (hc : Accounted S c)
    (hw : keyWritten c a) (h : step c a = some c') (hnow : S' c a) (hbefore : ∀ x b, S x b → S' x b) :
    Accounted S' c' := by
  refine ⟨step_regular c a c' hc.regular h, ?_, fun d => ?_⟩
  · exact Conduct.step_holds fetchings_start hc.fetches (fun _ _ _ _ _ _ _ _ _ _ _ => trivial) h
  · refine keyedFor_step hc.regular hc.fetches (hc.keyed d) h hw ?_ ?_
    · rintro key ⟨x, i, p, hx, hcmd⟩
      exact ⟨x, i, p, hbefore _ _ hx, hcmd⟩
    · rintro i key p rfl hcmd
      exact ⟨c, i, p, hnow, hcmd⟩

private theorem held_of_fetches {p : Activity} {d : Uuid} {key : String} (hholds : fetchings.Holds p)
    (h : p.fetches = some (d, key)) : p.owner.reads.isSome ∧ p.owner.documentId = some d ∧ p.held = some key := by
  unfold Activity.fetches at h
  split at h
  · next d' run data key' ho hc =>
    cases h
    obtain ⟨k, hk⟩ := Activity.program_of hc
    have hreads : p.owner.reads.isSome := by rw [ho]; rfl
    exact ⟨hreads, by rw [ho]; rfl, hholds.allows hk hreads⟩
  · next t d' key' ttl ho hc =>
    cases h
    obtain ⟨k, hk⟩ := Activity.program_of hc
    have hreads : p.owner.reads.isSome := by rw [ho]; rfl
    exact ⟨hreads, by rw [ho]; rfl, hholds.allows hk hreads⟩
  · cases h

/-- In a run whose driver answers uploads with its keys, and whose file URLs and reprocesses find
the key of their row written, every file is fetched under a key that an earlier upload of the
same document returned, and never under the placeholder. -/
theorem fetched_keys_returned {uuidText : Uuid → String} {tenants : List TenantRow} {users : List UserRow}
    {actions : List Action} {c : Config}
    (hdriver : Along step (fun c a _ => driverKey uuidText c a) (initial tenants users) actions)
    (hwritten : Along step (fun c a _ => keyWritten c a) (initial tenants users) actions)
    (h : run step (initial tenants users) actions = some c) {i : ProcId} {d : Uuid} {key : String}
    (hf : c.fetches i = some (d, key)) :
    Returned (Takes step (initial tenants users) actions) d key ∧ key ≠ "pending" := by
  have hacc := run_traced (I := Accounted) (P := fun c a _ => keyWritten c a)
    (fun _ _ _ _ hc hw hs _ => step_accounted hc hw hs) (initial_accounted tenants users) hwritten h
  obtain ⟨p, hp, hf⟩ := Option.bind_eq_some_iff.1 hf
  obtain ⟨hreads, hd, hheld⟩ := held_of_fetches (hacc.fetches i p hp) hf
  have hret := ((hacc.keyed d).procs i p hp).held key hreads hd hheld
  refine ⟨hret, ?_⟩
  obtain ⟨x, j, q, hx, hc⟩ := hret
  obtain ⟨y, -, hkey⟩ := along_takes hdriver hx
  simp only [driverKey, hc, beq_iff_eq] at hkey
  exact hkey ▸ uploadKey_ne_pending

section Demo

/-- The storage call of an upload times out, the failed document is reprocessed, and the new
OCR job claims it. -/
def reprocessedUnstored : List Action :=
  [.call 10 (.upload ⟨1, 2, "invoice.pdf", "application/pdf", []⟩ 3), .step 10 .execute,
    .step 10 (.throws (.other "timeout")), .step 10 .execute, .finish 10,
    .call 11 (.reprocess 1 3 2 12), .step 11 .execute, .step 11 .execute, .finish 11,
    .start 20 (.ocr 3 (.reprocess 12)) 21, .step 20 .execute, .step 20 .execute]

/-- A file URL is asked for while the upload is still storing the file. -/
def signedUnstored : List Action :=
  [.call 10 (.upload ⟨1, 2, "invoice.pdf", "application/pdf", []⟩ 3), .step 10 .execute,
    .call 11 (.fileUrl 1 3), .step 11 .execute]

/-- Both fetch the file under the placeholder. -/
theorem placeholder_fetched :
    (run step demo reprocessedUnstored).map (·.fetches 20) = some (some (3, "pending")) ∧
      (run step demo signedUnstored).map (·.fetches 11) = some (some (3, "pending")) := by
  decide +kernel

/-- An upload that goes through, and its OCR execution. -/
def storedUpload : List Action :=
  [.call 10 (.upload ⟨1, 2, "invoice.pdf", "application/pdf", []⟩ 3), .step 10 .execute,
    .step 10 (.text "1/3/invoice.pdf"), .step 10 .execute, .step 10 .execute, .step 10 .execute, .finish 10,
    .start 20 (.ocr 3 .initial) 21, .step 20 .execute, .step 20 .execute]

theorem stored_fetched :
    (run step demo storedUpload).map (·.fetches 20) = some (some (3, "1/3/invoice.pdf")) ∧
      Returned (Takes step demo storedUpload) 3 "1/3/invoice.pdf" ∧ "1/3/invoice.pdf" ≠ "pending" := by
  have hrun : (run step demo storedUpload).map (·.fetches 20) = some (some (3, "1/3/invoice.pdf")) := by decide +kernel
  have hdriver : Along step (fun c a _ => driverKey Nat.repr c a) demo storedUpload := by decide +kernel
  have hwritten : Along step (fun c a _ => keyWritten c a) demo storedUpload := by decide +kernel
  obtain ⟨c, hc, hf⟩ := Option.map_eq_some_iff.1 hrun
  exact ⟨hrun, fetched_keys_returned hdriver hwritten hc hf⟩

end Demo
end DocAuto.Pipeline
