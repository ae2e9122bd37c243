import DocAuto.Storage.Drivers

/-! The objects of different documents: each under the prefix of its document, no two of them under
one name. -/
namespace DocAuto.Storage

/-- Where the driver keeps the objects of all tenants. -/
def root (env : Env) : List Char :=
  match env.storageDriver with
  | .s3 => []
  | .localDir => Posix.root env.localStorageDir
  | .supabase => Url.serialize ((supabasePath env).map Url.encode) ++ ['/']

def UploadParams.document (params : UploadParams) : UuidText × UuidText := (params.tenantId, params.documentId)

/-- The prefix `<tenantId>/<documentId>/` of a document. -/
def UploadParams.directory (params : UploadParams) : List Char :=
  params.tenantId.chars ++ '/' :: params.documentId.chars ++ ['/']

/-- The URL of the upload leaves the directory of its document: what is left of the file name is a
double-dot segment. -/
def Escapes (env : Env) (params : UploadParams) : Prop :=
  env.storageDriver = .supabase ∧ Url.isDoubleDot (Url.visible params.fileName.chars)

instance (env : Env) (params : UploadParams) : Decidable (Escapes env params) := inferInstanceAs (Decidable (_ ∧ _))

/-- The objects of a sequence of uploads are kept apart. -/
structure Separated (env : Env) (uploads : List UploadParams) : Prop where
  under : ∀ params ∈ uploads, root env ++ params.directory <+: objectName env (keyOf params)
  disjoint : ∀ params ∈ uploads, ∀ other ∈ uploads, params.document ≠ other.document →
    objectName env (keyOf params) ≠ objectName env (keyOf other)
  /-- The last upload of a document can be read back by its storage key. -/
  kept : ∀ (objects : Objects) (before : List UploadParams) (params : UploadParams) (after : List UploadParams),
    uploads = before ++ params :: after → (∀ other ∈ after, other.document ≠ params.document) →
    downloadDocument env (uploadDocument env params (uploadAll env before objects)).1 (uploadAll env uploads objects) =
      some params.buffer

section Uuid
variable {id : UuidText} {c d : Char}

theorem UuidText.length_eq (id : UuidText) : id.chars.length = 36 := by
  have h := id.valid
  simp only [isUuid, Bool.and_eq_true, beq_iff_eq] at h
  exact h.1.1

theorem UuidText.mem_chars (h : c ∈ id.chars) : isUuidChar c := by
  have hvalid := id.valid
  simp only [isUuid, Bool.and_eq_true, List.all_eq_true] at hvalid
  exact hvalid.1.2 c h

theorem UuidText.ne_of_mem (h : c ∈ id.chars) (hd : isUuidChar d = false) : c ≠ d := by
  rintro rfl
  exact absurd (mem_chars h) (by rw [hd]; decide)

theorem isUuidChar_range (h : isUuidChar c) : 0x20 < c.toNat ∧ c.toNat < 0x7F := by
  simp only [isUuidChar, Bool.or_eq_true, Bool.and_eq_true, beq_iff_eq, decide_eq_true_eq] at h
  omega

theorem UuidText.posix (id : UuidText) : Posix.Plain id.chars := by
  have hlen := id.length_eq
  refine ⟨?_, ?_, ?_, fun h => ne_of_mem h (by decide) rfl⟩ <;> intro heq <;> simp [heq] at hlen

theorem length_of_dots {s : List Char} (h : Url.isSingleDot s ∨ Url.isDoubleDot s) : s.length ≤ 6 := by
  rw [← List.length_map Char.toLower]
  simp only [Url.isSingleDot, Url.isDoubleDot, decide_eq_true_eq, List.mem_cons, List.not_mem_nil, or_false] at h
  rcases h with (h | h) | h | h | h | h <;> rw [h] <;> decide

theorem UuidText.url (id : UuidText) : Url.Plain id.chars := by
  have hlen := id.length_eq
  have hdots : ¬ (Url.isSingleDot id.chars ∨ Url.isDoubleDot id.chars) := fun h => by
    have := length_of_dots h
    omega
  rw [not_or, Bool.not_eq_true, Bool.not_eq_true] at hdots
  refine ⟨fun c hc => ?_, hdots.1, hdots.2⟩
  have hne : ∀ d, isUuidChar d = false → (c == d) = false := fun d hd => beq_eq_false_iff_ne.2 (ne_of_mem hc hd)
  simp only [Url.isSeparator, Url.endsPath, Url.isTabOrNewline, Bool.or_eq_false_iff]
  exact ⟨⟨hne _ rfl, hne _ rfl⟩, ⟨hne _ rfl, hne _ rfl⟩, ⟨hne _ rfl, hne _ rfl⟩, hne _ rfl⟩

theorem UuidText.encode_eq (id : UuidText) : Url.encode id.chars = id.chars := by
  refine Url.encode_eq_self fun c hc => ?_
  have hrange := isUuidChar_range (mem_chars hc)
  simp only [Url.isEncoded, Bool.or_eq_false_iff, decide_eq_false_iff_not, not_le, List.mem_cons, List.not_mem_nil, or_false, not_or]
  refine ⟨⟨hrange.1, hrange.2⟩, ?_⟩
  refine ⟨?_, ?_, ?_, ?_, ?_, ?_, ?_, ?_⟩ <;> exact ne_of_mem hc rfl

end Uuid
section Names
variable {env : Env} {params other : UploadParams}

theorem keyOf_eq (params : UploadParams) : keyOf params = params.directory ++ params.fileName.chars := by
  simp only [keyOf, UploadParams.directory, List.append_assoc, List.cons_append, List.nil_append]

/-- The last segment of a key names a file of the document's directory. -/
theorem local_name (env : Env) (params : UploadParams) :
    Posix.join env.localStorageDir (keyOf params) = Posix.root env.localStorageDir ++ keyOf params := by
  have hkey : keyOf params = ['/'].intercalate [params.tenantId.chars, params.documentId.chars, params.fileName.chars] := by
    simp [keyOf, List.intercalate_cons_cons]
  have hname : Posix.Plain params.fileName.chars :=
    ⟨params.fileName.nonempty, params.fileName.single, params.fileName.double, params.fileName.slash⟩
  rw [hkey]
  refine Posix.join_plain _ (List.cons_ne_nil _ _) ?_
  simp only [List.forall_mem_cons]
  exact ⟨params.tenantId.posix, params.documentId.posix, hname, fun _ h => absurd h List.not_mem_nil⟩

theorem supabasePath_plain (env : Env) : ∀ s ∈ supabasePath env, Url.Plain s := by
  have hplain := env.plain
  simp only [List.forall_mem_append, List.forall_mem_singleton] at hplain
  simp only [supabasePath, List.forall_mem_append, List.forall_mem_cons]
  refine ⟨hplain.1, ?_, ?_, ?_, hplain.2, fun _ h => absurd h List.not_mem_nil⟩ <;>
    exact .of_all (by decide) (by decide) (by decide)

theorem supabase_name (env : Env) (params : UploadParams) : Url.resolve (supabaseUrl env (keyOf params)) =
    Url.serialize (Url.pushLast ((supabasePath env).map Url.encode ++ [params.tenantId.chars, params.documentId.chars])
      (Url.visible params.fileName.chars)) := by
  have hurl : supabaseUrl env (keyOf params) =
      Url.serialize (supabasePath env ++ [params.tenantId.chars, params.documentId.chars]) ++ '/' :: params.fileName.chars := by
    simp [supabaseUrl, keyOf, Url.serialize]
  have hplain : ∀ s ∈ supabasePath env ++ [params.tenantId.chars, params.documentId.chars], Url.Plain s := by
    simp only [List.forall_mem_append, List.forall_mem_cons]
    exact ⟨supabasePath_plain env, params.tenantId.url, params.documentId.url, fun _ h => absurd h List.not_mem_nil⟩
  have hname : ∀ c ∈ params.fileName.chars, Url.isSeparator c = false := by
    intro c hc
    have hslash : c ≠ '/' := fun h => params.fileName.slash (h ▸ hc)
    have hbackslash : c ≠ '\\' := fun h => params.fileName.backslash (h ▸ hc)
    simp [Url.isSeparator, hslash, hbackslash]
  rw [hurl, Url.resolve_plain hplain hname, List.map_append, List.map_cons, List.map_cons, List.map_nil,
    params.tenantId.encode_eq, params.documentId.encode_eq]

/-- A name that escapes does not depend on the document. -/
theorem escaped_name (h : Escapes env params) : objectName env (keyOf params) =
    Url.serialize ((supabasePath env).map Url.encode ++ [params.tenantId.chars, []]) := by
  have hdriver : objectName env (keyOf params) = Url.resolve (supabaseUrl env (keyOf params)) := by
    rw [objectName, h.1]
  rw [hdriver, supabase_name, Url.pushLast, if_pos h.2]
  congr 1
  simp

/-- An object lies under the prefix of its document unless its file name escapes from it. -/
theorem under_iff (env : Env) (params : UploadParams) :
    root env ++ params.directory <+: objectName env (keyOf params) ↔ ¬ Escapes env params := by
  by_cases hescapes : Escapes env params
  · refine iff_of_false (fun h => ?_) (not_not.2 hescapes)
    have hle := h.length_le
    rw [escaped_name hescapes, root, hescapes.1] at hle
    simp [UploadParams.directory, Url.serialize, UuidText.length_eq] at hle
  · refine iff_of_true ?_ hescapes
    unfold root objectName
    cases hdriver : env.storageDriver with
    | s3 =>
      dsimp only
      rw [keyOf_eq]
      exact List.prefix_append _ _
    | localDir =>
      dsimp only
      rw [local_name, keyOf_eq, ← List.append_assoc]
      exact List.prefix_append _ _
    | supabase =>
      have hunder : ∀ last, Url.serialize ((supabasePath env).map Url.encode) ++ ['/'] ++ params.directory <+:
          Url.serialize ((supabasePath env).map Url.encode ++ [params.tenantId.chars, params.documentId.chars] ++ [last]) :=
        fun last => ⟨last, by simp [UploadParams.directory, Url.serialize]⟩
      dsimp only
      rw [supabase_name, Url.pushLast, if_neg fun hdots => hescapes ⟨hdriver, hdots⟩]
      split <;> exact hunder _

theorem directory_injective (h : params.directory = other.directory) : params.document = other.document := by
  have hlen : params.tenantId.chars.length = other.tenantId.chars.length := by rw [UuidText.length_eq, UuidText.length_eq]
  obtain ⟨htenant, hrest⟩ := List.append_inj (List.append_cancel_right h) hlen
  obtain ⟨-, hdocument⟩ := List.cons.inj hrest
  exact Prod.ext (UuidText.ext htenant) (UuidText.ext hdocument)

/-- A name lies under the prefix of one document only. -/
theorem document_unique {name : List Char} (h : root env ++ params.directory <+: name)
    (h' : root env ++ other.directory <+: name) : params.document = other.document := by
  have hlen : (root env ++ params.directory).length = (root env ++ other.directory).length := by
    simp [UploadParams.directory, UuidText.length_eq]
  have heq := (List.prefix_of_prefix_length_le h h' hlen.le).eq_of_length hlen
  exact directory_injective (List.append_cancel_left heq)

end Names

/-- The objects of a sequence of uploads are kept apart exactly when no file name escapes from the
directory of its document. -/
theorem separated_iff (env : Env) (uploads : List UploadParams) :
    Separated env uploads ↔ ∀ params ∈ uploads, ¬ Escapes env params := by
  constructor
  · exact fun h params hp => (under_iff env params).1 (h.under params hp)
  · intro h
    have hunder : ∀ params ∈ uploads, root env ++ params.directory <+: objectName env (keyOf params) :=
      fun params hp => (under_iff env params).2 (h params hp)
    have hdisjoint : ∀ params ∈ uploads, ∀ other ∈ uploads, params.document ≠ other.document →
        objectName env (keyOf params) ≠ objectName env (keyOf other) := by
      intro params hp other ho hne heq
      exact hne (document_unique (hunder params hp) (heq ▸ hunder other ho))
    refine ⟨hunder, hdisjoint, ?_⟩
    rintro objects before params after rfl hlast
    have hafter : ∀ other ∈ after, objectName env (keyOf other) ≠ objectName env (keyOf params) := by
      intro other ho
      refine hdisjoint other ?_ params ?_ (hlast other ho)
      · exact List.mem_append_right _ (List.mem_cons_of_mem _ ho)
      · exact List.mem_append_right _ List.mem_cons_self
    have hall : uploadAll env (before ++ params :: after) objects =
        uploadAll env after (uploadDocument env params (uploadAll env before objects)).2 := by
      rw [uploadAll, List.foldl_append, List.foldl_cons]
      rfl
    rw [downloadDocument_eq, hall, uploadDocument_eq]
    exact (uploadAll_of_ne env _ hafter).trans (Function.update_self _ _ _)

section Demo

private def demoEnv : Env where
  storageDriver := .supabase
  localStorageDir := "./.local-storage".toList
  supabaseUrlPath := []
  supabaseStorageBucket := ['d', 'o', 'c', 'u', 'm', 'e', 'n', 't', 's']
  plain s hs := by
    obtain rfl := List.mem_singleton.1 hs
    exact .of_all (by decide) (by decide) (by decide)

/-- A file name that is a double-dot segment in a URL. -/
private def encodedDots : FileName where
  chars := ['%', '2', 'e', '%', '2', 'e']
  nonempty := by decide
  single := by decide
  double := by decide
  slash := by decide
  backslash := by decide

private def repeated (c : Char) : List Char :=
  List.replicate 8 c ++ '-' :: List.replicate 4 c ++ '-' :: List.replicate 4 c ++ '-' :: List.replicate 4 c ++
    '-' :: List.replicate 12 c

private def firstUpload : UploadParams :=
  ⟨⟨repeated 'a', by decide⟩, ⟨repeated 'b', by decide⟩, encodedDots, [1]⟩

private def secondUpload : UploadParams :=
  ⟨⟨repeated 'a', by decide⟩, ⟨repeated 'c', by decide⟩, encodedDots, [2]⟩

/-- Two documents of a tenant share one object, and the first one reads the bytes of the second. -/
theorem encoded_dots_collide : firstUpload.document ≠ secondUpload.document ∧
    objectName demoEnv (keyOf firstUpload) = objectName demoEnv (keyOf secondUpload) ∧
    downloadDocument demoEnv (keyOf firstUpload) (uploadAll demoEnv [firstUpload, secondUpload] fun _ => none) =
      some secondUpload.buffer ∧
    ¬ Separated demoEnv [firstUpload, secondUpload] := by
  have hfirst : Escapes demoEnv firstUpload := ⟨rfl, by decide +kernel⟩
  have hsecond : Escapes demoEnv secondUpload := ⟨rfl, by decide +kernel⟩
  have hname : objectName demoEnv (keyOf firstUpload) = objectName demoEnv (keyOf secondUpload) := by
    rw [escaped_name hfirst, escaped_name hsecond]
    rfl
  have hput : uploadAll demoEnv [firstUpload, secondUpload] (fun _ => none) =
      Function.update (uploadAll demoEnv [firstUpload] fun _ => none) (objectName demoEnv (keyOf secondUpload))
        (some secondUpload.buffer) := congrArg Prod.snd (uploadDocument_eq demoEnv secondUpload _)
  refine ⟨by decide +kernel, hname, ?_, fun h => ?_⟩
  · rw [downloadDocument_eq, hname, hput, Function.update_self]
  · exact (under_iff demoEnv firstUpload).1 (h.under firstUpload List.mem_cons_self) hfirst

end Demo
end DocAuto.Storage
