import DocAuto.Path.Posix
import DocAuto.Path.Url
import Mathlib.Logic.Function.Basic

/-! The storage drivers of `lib/storage.ts`. A driver keeps its objects by name: the key of an S3 object,
the path of a file, the path of a Supabase URL. -/
namespace DocAuto.Storage

/-- `-`, `0` to `9` and `a` to `f`: the characters of a UUID as the database prints it. -/
def isUuidChar (c : Char) : Bool :=
  c.toNat == 0x2D || (0x30 ≤ c.toNat && c.toNat ≤ 0x39) || (0x61 ≤ c.toNat && c.toNat ≤ 0x66)

def isUuid (s : List Char) : Bool :=
  s.length == 36 && s.all isUuidChar && (s.splitOn '-').map List.length == [8, 4, 4, 4, 12]

@[ext] structure UuidText where
  chars : List Char
  valid : isUuid chars
  deriving DecidableEq

/-- The `originalname` of an uploaded file. -/
structure FileName where
  chars : List Char
  nonempty : chars ≠ []
  single : chars ≠ ['.']
  double : chars ≠ ['.', '.']
  slash : '/' ∉ chars
  backslash : '\\' ∉ chars
  deriving DecidableEq

/-- The driver `local` is called `localDir` here. -/
inductive StorageDriver where
  | s3 | supabase | localDir
  deriving DecidableEq, Repr

/-- The settings of the drivers. `SUPABASE_URL` is given by the segments of its path, in most cases none. -/
structure Env where
  storageDriver : StorageDriver
  localStorageDir : List Char
  supabaseUrlPath : List (List Char)
  supabaseStorageBucket : List Char
  plain : ∀ s ∈ supabaseUrlPath ++ [supabaseStorageBucket], Url.Plain s

structure UploadParams where
  tenantId : UuidText
  documentId : UuidText
  fileName : FileName
  buffer : List UInt8
  deriving DecidableEq

abbrev Objects := List Char → Option (List UInt8)

/-- The storage key, and the objects after the upload. -/
abbrev Uploaded := List Char × Objects

def uploadToS3 (key : List Char) (buffer : List UInt8) (objects : Objects) : Uploaded :=
  (key, Function.update objects key (some buffer))

/-- The segments of the URL before the key. -/
def supabasePath (env : Env) : List (List Char) :=
  env.supabaseUrlPath ++ [['s', 't', 'o', 'r', 'a', 'g', 'e'], ['v', '1'], ['o', 'b', 'j', 'e', 'c', 't'], env.supabaseStorageBucket]

/-- The URL of a key after its origin. -/
def supabaseUrl (env : Env) (key : List Char) : List Char := Url.serialize (supabasePath env) ++ '/' :: key

/-- `fetch` requests the resolved path of the URL. -/
def uploadToSupabase (env : Env) (key : List Char) (buffer : List UInt8) (objects : Objects) : Uploaded :=
  (key, Function.update objects (Url.resolve (supabaseUrl env key)) (some buffer))

def uploadToLocal (env : Env) (key : List Char) (buffer : List UInt8) (objects : Objects) : Uploaded :=
  (key, Function.update objects (Posix.join env.localStorageDir key) (some buffer))

def downloadFromS3 (key : List Char) (objects : Objects) : Option (List UInt8) := objects key

def downloadFromSupabase (env : Env) (key : List Char) (objects : Objects) : Option (List UInt8) :=
  objects (Url.resolve (supabaseUrl env key))

def downloadFromLocal (env : Env) (key : List Char) (objects : Objects) : Option (List UInt8) :=
  objects (Posix.join env.localStorageDir key)

def keyOf (params : UploadParams) : List Char :=
  params.tenantId.chars ++ '/' :: params.documentId.chars ++ '/' :: params.fileName.chars

def uploadDocument (env : Env) (params : UploadParams) (objects : Objects) : Uploaded :=
  match env.storageDriver with
  | .s3 => uploadToS3 (keyOf params) params.buffer objects
  | .localDir => uploadToLocal env (keyOf params) params.buffer objects
  | .supabase => uploadToSupabase env (keyOf params) params.buffer objects

def downloadDocument (env : Env) (storageKey : List Char) (objects : Objects) : Option (List UInt8) :=
  match env.storageDriver with
  | .s3 => downloadFromS3 storageKey objects
  | .localDir => downloadFromLocal env storageKey objects
  | .supabase => downloadFromSupabase env storageKey objects

/-- Uploads in the order in which their objects are written. -/
def uploadAll (env : Env) (uploads : List UploadParams) (objects : Objects) : Objects :=
  uploads.foldl (fun objects params => (uploadDocument env params objects).2) objects

/-- The name under which the driver keeps the object of a key. -/
def objectName (env : Env) (key : List Char) : List Char :=
  match env.storageDriver with
  | .s3 => key
  | .localDir => Posix.join env.localStorageDir key
  | .supabase => Url.resolve (supabaseUrl env key)

section Objects
variable (env : Env) (params : UploadParams) (objects : Objects)

theorem uploadDocument_eq : uploadDocument env params objects =
    (keyOf params, Function.update objects (objectName env (keyOf params)) (some params.buffer)) := by
  unfold uploadDocument objectName
  cases env.storageDriver <;> rfl

theorem downloadDocument_eq (storageKey : List Char) :
    downloadDocument env storageKey objects = objects (objectName env storageKey) := by
  unfold downloadDocument objectName
  cases env.storageDriver <;> rfl

/-- Uploads to other objects leave an object alone. -/
theorem uploadAll_of_ne {name : List Char} {uploads : List UploadParams}
    (h : ∀ params ∈ uploads, objectName env (keyOf params) ≠ name) : uploadAll env uploads objects name = objects name := by
  induction uploads generalizing objects with
  | nil => rfl
  | cons params uploads ih =>
    obtain ⟨hne, huploads⟩ := List.forall_mem_cons.1 h
    have hput := congrFun (congrArg Prod.snd (uploadDocument_eq env params objects)) name
    exact (ih _ huploads).trans (hput.trans (Function.update_of_ne hne.symm _ _))

end Objects
end DocAuto.Storage
