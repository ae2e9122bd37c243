import DocAuto.Storage.Drivers
import DocAuto.Validators.Documents

/-! The environment of the process: what `envSchema` makes of its strings, and the checks that
refuse to start a production process. -/
namespace DocAuto.Config
open Storage (StorageDriver)

inductive NodeEnv where
  | development | test | production
  deriving DecidableEq, Repr

/-- `process.env`. -/
structure ProcessEnv where
  nodeEnv : Option String := none
  port : Option String := none
  appUrl : Option String := none
  metricsToken : Option String := none
  databaseUrl : Option String := none
  dbPoolMax : Option String := none
  redisUrl : Option String := none
  jwtAccessSecret : Option String := none
  jwtRefreshSecret : Option String := none
  jwtAccessExpiresIn : Option String := none
  jwtRefreshExpiresIn : Option String := none
  anthropicApiKey : Option String := none
  allowMockProcessing : Option String := none
  awsRegion : Option String := none
  awsAccessKeyId : Option String := none
  awsSecretAccessKey : Option String := none
  awsS3Bucket : Option String := none
  supabaseUrl : Option String := none
  supabaseServiceRoleKey : Option String := none
  supabaseStorageBucket : Option String := none
  storageDriver : Option String := none
  localStorageDir : Option String := none
  maxUploadBytes : Option String := none
  deriving DecidableEq, Repr

/-- The parsed environment. -/
structure Env where
  nodeEnv : NodeEnv
  port : Nat
  appUrl : String
  metricsToken : Option String
  databaseUrl : String
  dbPoolMax : Nat
  redisUrl : String
  jwtAccessSecret : String
  jwtRefreshSecret : String
  jwtAccessExpiresIn : String
  jwtRefreshExpiresIn : String
  anthropicApiKey : Option String
  allowMockProcessing : Bool
  awsRegion : String
  awsAccessKeyId : Option String
  awsSecretAccessKey : Option String
  awsS3Bucket : Option String
  supabaseUrl : Option String
  supabaseServiceRoleKey : Option String
  supabaseStorageBucket : String
  storageDriver : StorageDriver
  localStorageDir : String
  maxUploadBytes : Nat
  deriving DecidableEq, Repr

/-- A complaint about a variable. Without a message it has the validator's own text. -/
structure Issue where
  path : String
  message : Option String
  deriving DecidableEq, Repr

/-- The two readings that are left to the validator: `z.coerce.number().int().positive()` and
`z.string().url()`. -/
structure Zod where
  positiveInt : String → Option Nat
  isUrl : String → Bool

abbrev Read (α : Type) := Except (Option String) α

section Readers
variable {α : Type}

def orDefault (default : α) (read : String → Read α) : Option String → Read α
  | none => .ok default
  | some s => read s

def required (read : String → Read α) : Option String → Read α
  | none => .error none
  | some s => read s

def optional (read : String → Read α) : Option String → Read (Option α)
  | none => .ok none
  | some s => (read s).map some

def string (s : String) : Read String := .ok s

def stringMin (n : Nat) (message : Option String) (s : String) : Read String :=
  if n ≤ Text.length s then .ok s else .error message

def stringUrl (z : Zod) (s : String) : Read String := if z.isUrl s then .ok s else .error none

def coercePositive (z : Zod) (s : String) : Read Nat :=
  match z.positiveInt s with
  | some n => .ok n
  | none => .error none

/-- `Boolean(s)`: every string but the empty one is true. -/
def coerceBoolean (s : String) : Read Bool := .ok (decide (s ≠ ""))

def enumeration (values : List (String × α)) (s : String) : Read α :=
  match values.lookup s with
  | some a => .ok a
  | none => .error none

end Readers

namespace EnvSchema
variable (z : Zod) (p : ProcessEnv)

def nodeEnv : Read NodeEnv :=
  orDefault .development (enumeration [("development", .development), ("test", .test), ("production", .production)]) p.nodeEnv
def port : Read Nat := orDefault 3000 (coercePositive z) p.port
def appUrl : Read String := orDefault "http://localhost:3000" (stringUrl z) p.appUrl
def metricsToken : Read (Option String) := optional (stringMin 32 none) p.metricsToken
def databaseUrl : Read String := required (stringMin 1 (some "DATABASE_URL is required")) p.databaseUrl
def dbPoolMax : Read Nat := orDefault 10 (coercePositive z) p.dbPoolMax
def redisUrl : Read String := required (stringMin 1 (some "REDIS_URL is required")) p.redisUrl
def jwtAccessSecret : Read String :=
  required (stringMin 32 (some "JWT_ACCESS_SECRET must be at least 32 characters")) p.jwtAccessSecret
def jwtRefreshSecret : Read String :=
  required (stringMin 32 (some "JWT_REFRESH_SECRET must be at least 32 characters")) p.jwtRefreshSecret
def jwtAccessExpiresIn : Read String := orDefault "15m" string p.jwtAccessExpiresIn
def jwtRefreshExpiresIn : Read String := orDefault "7d" string p.jwtRefreshExpiresIn
def anthropicApiKey : Read (Option String) := optional string p.anthropicApiKey
def allowMockProcessing : Read Bool := orDefault false coerceBoolean p.allowMockProcessing
def awsRegion : Read String := orDefault "us-east-1" string p.awsRegion
def awsAccessKeyId : Read (Option String) := optional string p.awsAccessKeyId
def awsSecretAccessKey : Read (Option String) := optional string p.awsSecretAccessKey
def awsS3Bucket : Read (Option String) := optional string p.awsS3Bucket
def supabaseUrl : Read (Option String) := optional string p.supabaseUrl
def supabaseServiceRoleKey : Read (Option String) := optional string p.supabaseServiceRoleKey
def supabaseStorageBucket : Read String := orDefault "documents" string p.supabaseStorageBucket
def storageDriver : Read StorageDriver :=
  orDefault .supabase (enumeration [("s3", .s3), ("supabase", .supabase), ("local", .localDir)]) p.storageDriver
def localStorageDir : Read String := orDefault "./.local-storage" string p.localStorageDir
def maxUploadBytes : Read Nat := orDefault (15 * 1024 * 1024) (coercePositive z) p.maxUploadBytes

/-- What is reported of a variable. -/
def complaint {α : Type} (path : String) : Read α → List Issue
  | .ok _ => []
  | .error message => [⟨path, message⟩]

def issues : List Issue :=
  List.flatten [
    complaint "NODE_ENV" (nodeEnv p),
    complaint "PORT" (port z p),
    complaint "APP_URL" (appUrl z p),
    complaint "METRICS_TOKEN" (metricsToken p),
    complaint "DATABASE_URL" (databaseUrl p),
    complaint "DB_POOL_MAX" (dbPoolMax z p),
    complaint "REDIS_URL" (redisUrl p),
    complaint "JWT_ACCESS_SECRET" (jwtAccessSecret p),
    complaint "JWT_REFRESH_SECRET" (jwtRefreshSecret p),
    complaint "JWT_ACCESS_EXPIRES_IN" (jwtAccessExpiresIn p),
    complaint "JWT_REFRESH_EXPIRES_IN" (jwtRefreshExpiresIn p),
    complaint "ANTHROPIC_API_KEY" (anthropicApiKey p),
    complaint "ALLOW_MOCK_PROCESSING" (allowMockProcessing p),
    complaint "AWS_REGION" (awsRegion p),
    complaint "AWS_ACCESS_KEY_ID" (awsAccessKeyId p),
    complaint "AWS_SECRET_ACCESS_KEY" (awsSecretAccessKey p),
    complaint "AWS_S3_BUCKET" (awsS3Bucket p),
    complaint "SUPABASE_URL" (supabaseUrl p),
    complaint "SUPABASE_SERVICE_ROLE_KEY" (supabaseServiceRoleKey p),
    complaint "SUPABASE_STORAGE_BUCKET" (supabaseStorageBucket p),
    complaint "STORAGE_DRIVER" (storageDriver p),
    complaint "LOCAL_STORAGE_DIR" (localStorageDir p),
    complaint "MAX_UPLOAD_BYTES" (maxUploadBytes z p)]

def value : Read Env := do
  return {
    nodeEnv := ← nodeEnv p
    port := ← port z p
    appUrl := ← appUrl z p
    metricsToken := ← metricsToken p
    databaseUrl := ← databaseUrl p
    dbPoolMax := ← dbPoolMax z p
    redisUrl := ← redisUrl p
    jwtAccessSecret := ← jwtAccessSecret p
    jwtRefreshSecret := ← jwtRefreshSecret p
    jwtAccessExpiresIn := ← jwtAccessExpiresIn p
    jwtRefreshExpiresIn := ← jwtRefreshExpiresIn p
    anthropicApiKey := ← anthropicApiKey p
    allowMockProcessing := ← allowMockProcessing p
    awsRegion := ← awsRegion p
    awsAccessKeyId := ← awsAccessKeyId p
    awsSecretAccessKey := ← awsSecretAccessKey p
    awsS3Bucket := ← awsS3Bucket p
    supabaseUrl := ← supabaseUrl p
    supabaseServiceRoleKey := ← supabaseServiceRoleKey p
    supabaseStorageBucket := ← supabaseStorageBucket p
    storageDriver := ← storageDriver p
    localStorageDir := ← localStorageDir p
    maxUploadBytes := ← maxUploadBytes z p }

end EnvSchema

/-- `envSchema.safeParse(process.env)`: the values of all variables, or all that is wrong with them. -/
def envSchema (z : Zod) (p : ProcessEnv) : Except (List Issue) Env :=
  match EnvSchema.value z p with
  | .ok e => .ok e
  | .error _ => .error (EnvSchema.issues z p)

/-- Every variable is read as the field of that name. -/
structure Reads (z : Zod) (p : ProcessEnv) (e : Env) : Prop where
  nodeEnv : EnvSchema.nodeEnv p = .ok e.nodeEnv
  port : EnvSchema.port z p = .ok e.port
  appUrl : EnvSchema.appUrl z p = .ok e.appUrl
  metricsToken : EnvSchema.metricsToken p = .ok e.metricsToken
  databaseUrl : EnvSchema.databaseUrl p = .ok e.databaseUrl
  dbPoolMax : EnvSchema.dbPoolMax z p = .ok e.dbPoolMax
  redisUrl : EnvSchema.redisUrl p = .ok e.redisUrl
  jwtAccessSecret : EnvSchema.jwtAccessSecret p = .ok e.jwtAccessSecret
  jwtRefreshSecret : EnvSchema.jwtRefreshSecret p = .ok e.jwtRefreshSecret
  jwtAccessExpiresIn : EnvSchema.jwtAccessExpiresIn p = .ok e.jwtAccessExpiresIn
  jwtRefreshExpiresIn : EnvSchema.jwtRefreshExpiresIn p = .ok e.jwtRefreshExpiresIn
  anthropicApiKey : EnvSchema.anthropicApiKey p = .ok e.anthropicApiKey
  allowMockProcessing : EnvSchema.allowMockProcessing p = .ok e.allowMockProcessing
  awsRegion : EnvSchema.awsRegion p = .ok e.awsRegion
  awsAccessKeyId : EnvSchema.awsAccessKeyId p = .ok e.awsAccessKeyId
  awsSecretAccessKey : EnvSchema.awsSecretAccessKey p = .ok e.awsSecretAccessKey
  awsS3Bucket : EnvSchema.awsS3Bucket p = .ok e.awsS3Bucket
  supabaseUrl : EnvSchema.supabaseUrl p = .ok e.supabaseUrl
  supabaseServiceRoleKey : EnvSchema.supabaseServiceRoleKey p = .ok e.supabaseServiceRoleKey
  supabaseStorageBucket : EnvSchema.supabaseStorageBucket p = .ok e.supabaseStorageBucket
  storageDriver : EnvSchema.storageDriver p = .ok e.storageDriver
  localStorageDir : EnvSchema.localStorageDir p = .ok e.localStorageDir
  maxUploadBytes : EnvSchema.maxUploadBytes z p = .ok e.maxUploadBytes

section
variable {z : Zod} {p : ProcessEnv} {e : Env}

theorem Read.bind_eq_ok {α β : Type} {r : Read α} {f : α → Read β} {b : β} :
    (r >>= f) = .ok b ↔ ∃ a, r = .ok a ∧ f a = .ok b := by
  cases r <;> simp [bind, Except.bind]

theorem value_eq_ok : EnvSchema.value z p = .ok e ↔ Reads z p e := by
  simp only [EnvSchema.value, Read.bind_eq_ok, pure, Except.pure, Except.ok.injEq]
  constructor
  · rintro ⟨_, h1, _, h2, _, h3, _, h4, _, h5, _, h6, _, h7, _, h8, _, h9, _, h10, _, h11, _, h12, _, h13, _, h14, _,
      h15, _, h16, _, h17, _, h18, _, h19, _, h20, _, h21, _, h22, _, h23, rfl⟩
    exact ⟨h1, h2, h3, h4, h5, h6, h7, h8, h9, h10, h11, h12, h13, h14, h15, h16, h17, h18, h19, h20, h21, h22, h23⟩
  · intro h
    exact ⟨_, h.nodeEnv, _, h.port, _, h.appUrl, _, h.metricsToken, _, h.databaseUrl, _, h.dbPoolMax, _, h.redisUrl, _,
      h.jwtAccessSecret, _, h.jwtRefreshSecret, _, h.jwtAccessExpiresIn, _, h.jwtRefreshExpiresIn, _,
      h.anthropicApiKey, _, h.allowMockProcessing, _, h.awsRegion, _, h.awsAccessKeyId, _, h.awsSecretAccessKey, _,
      h.awsS3Bucket, _, h.supabaseUrl, _, h.supabaseServiceRoleKey, _, h.supabaseStorageBucket, _, h.storageDriver,
      _, h.localStorageDir, _, h.maxUploadBytes, rfl⟩

theorem envSchema_eq_ok : envSchema z p = .ok e ↔ Reads z p e := by
  rw [← value_eq_ok, envSchema]
  split <;> simp_all

end

/-- JavaScript's truth of an optional string. -/
def present (s : Option String) : Bool := s.any fun s => decide (s ≠ "")

/-- The checks of a production process. -/
def productionErrors (env : Env) : List String :=
  (if !present env.anthropicApiKey && !env.allowMockProcessing then
    ["ANTHROPIC_API_KEY is required unless ALLOW_MOCK_PROCESSING=true"] else []) ++
  (if !present env.metricsToken then ["METRICS_TOKEN is required in production"] else []) ++
  (if env.storageDriver = .localDir then ["STORAGE_DRIVER=local is not allowed in production"] else []) ++
  (if env.storageDriver = .s3 && !present env.awsS3Bucket then
    ["AWS_S3_BUCKET is required when STORAGE_DRIVER=s3"] else []) ++
  (if env.storageDriver = .supabase && (!present env.supabaseUrl || !present env.supabaseServiceRoleKey) then
    ["SUPABASE_URL and SUPABASE_SERVICE_ROLE_KEY are required when STORAGE_DRIVER=supabase"] else [])

/-- What the process prints before it exits. -/
inductive Refusal where
  | invalid (issues : List Issue)
  | production (errors : List String)
  deriving DecidableEq, Repr

/-- The environment that the other modules import, unless the process exits. -/
def start (z : Zod) (p : ProcessEnv) : Except Refusal Env :=
  match envSchema z p with
  | .error issues => .error (.invalid issues)
  | .ok env =>
    if env.nodeEnv = .production ∧ productionErrors env ≠ [] then .error (.production (productionErrors env))
    else .ok env

section Readers
variable {α : Type} {read : String → Read α} {raw : Option String}

theorem complaint_eq_nil {path : String} {r : Read α} : EnvSchema.complaint path r = [] ↔ ∃ a, r = .ok a := by
  cases r <;> simp [EnvSchema.complaint]

theorem orDefault_isOk {d : α} : (∃ a, orDefault d read raw = .ok a) ↔ ∀ s, raw = some s → ∃ a, read s = .ok a := by
  cases raw <;> simp [orDefault]

theorem required_isOk : (∃ a, required read raw = .ok a) ↔ ∃ s, raw = some s ∧ ∃ a, read s = .ok a := by
  cases raw <;> simp [required]

theorem optional_isOk : (∃ a, optional read raw = .ok a) ↔ ∀ s, raw = some s → ∃ a, read s = .ok a := by
  cases raw with
  | none => simp [optional]
  | some s => cases h : read s <;> simp [optional, h, Except.map]

theorem orDefault_string {d : String} : orDefault d string raw = .ok (raw.getD d) := by
  cases raw <;> rfl

theorem optional_string : optional string raw = .ok raw := by
  cases raw <;> rfl

/-- The coercion is true of exactly the strings that are there and not empty. -/
theorem orDefault_coerceBoolean : orDefault false coerceBoolean raw = .ok (present raw) := by
  cases raw <;> rfl

theorem stringMin_isOk {n : Nat} {message : Option String} {s : String} :
    (∃ a, stringMin n message s = .ok a) ↔ n ≤ Text.length s := by
  unfold stringMin
  split <;> simp_all

theorem required_stringMin {n : Nat} {message : Option String} :
    (∃ a, required (stringMin n message) raw = .ok a) ↔ ∃ s, raw = some s ∧ n ≤ Text.length s := by
  simp only [required_isOk, stringMin_isOk]

theorem stringUrl_isOk {z : Zod} {s : String} : (∃ a, stringUrl z s = .ok a) ↔ z.isUrl s := by
  unfold stringUrl
  split <;> simp_all

theorem coercePositive_isOk {z : Zod} {s : String} : (∃ a, coercePositive z s = .ok a) ↔ (z.positiveInt s).isSome := by
  unfold coercePositive
  split <;> simp_all

theorem enumeration_isOk {values : List (String × α)} {s : String} :
    (∃ a, enumeration values s = .ok a) ↔ s ∈ values.map Prod.fst := by
  have hlookup : (values.lookup s).isSome ↔ s ∈ values.map Prod.fst := by
    rw [List.lookup_isSome_iff, List.mem_map]
    exact exists_congr fun v => and_congr_right' (beq_iff_eq.trans eq_comm)
  rw [← hlookup, enumeration]
  split <;> simp_all

end Readers

/-- Every variable has a text its schema accepts. -/
structure WellFormed (z : Zod) (p : ProcessEnv) : Prop where
  nodeEnv : ∀ s, p.nodeEnv = some s → s ∈ ["development", "test", "production"]
  port : ∀ s, p.port = some s → (z.positiveInt s).isSome
  appUrl : ∀ s, p.appUrl = some s → z.isUrl s
  metricsToken : ∀ s, p.metricsToken = some s → 32 ≤ Text.length s
  databaseUrl : ∃ s, p.databaseUrl = some s ∧ 1 ≤ Text.length s
  dbPoolMax : ∀ s, p.dbPoolMax = some s → (z.positiveInt s).isSome
  redisUrl : ∃ s, p.redisUrl = some s ∧ 1 ≤ Text.length s
  jwtAccessSecret : ∃ s, p.jwtAccessSecret = some s ∧ 32 ≤ Text.length s
  jwtRefreshSecret : ∃ s, p.jwtRefreshSecret = some s ∧ 32 ≤ Text.length s
  storageDriver : ∀ s, p.storageDriver = some s → s ∈ ["s3", "supabase", "local"]
  maxUploadBytes : ∀ s, p.maxUploadBytes = some s → (z.positiveInt s).isSome

variable {z : Zod} {p : ProcessEnv} {e : Env}

/-- A parse that fails reports something. -/
theorem issues_eq_nil : EnvSchema.issues z p = [] ↔ ∃ e, envSchema z p = .ok e := by
  simp only [EnvSchema.issues, List.flatten_eq_nil_iff, List.forall_mem_cons, complaint_eq_nil, envSchema_eq_ok]
  constructor
  · rintro ⟨⟨_, h1⟩, ⟨_, h2⟩, ⟨_, h3⟩, ⟨_, h4⟩, ⟨_, h5⟩, ⟨_, h6⟩, ⟨_, h7⟩, ⟨_, h8⟩, ⟨_, h9⟩, ⟨_, h10⟩, ⟨_, h11⟩,
      ⟨_, h12⟩, ⟨_, h13⟩, ⟨_, h14⟩, ⟨_, h15⟩, ⟨_, h16⟩, ⟨_, h17⟩, ⟨_, h18⟩, ⟨_, h19⟩, ⟨_, h20⟩, ⟨_, h21⟩,
      ⟨_, h22⟩, ⟨_, h23⟩, -⟩
    exact ⟨⟨_, _, _, _, _, _, _, _, _, _, _, _, _, _, _, _, _, _, _, _, _, _, _⟩,
      ⟨h1, h2, h3, h4, h5, h6, h7, h8, h9, h10, h11, h12, h13, h14, h15, h16, h17, h18, h19, h20, h21, h22, h23⟩⟩
  · rintro ⟨e, h⟩
    exact ⟨⟨_, h.nodeEnv⟩, ⟨_, h.port⟩, ⟨_, h.appUrl⟩, ⟨_, h.metricsToken⟩, ⟨_, h.databaseUrl⟩, ⟨_, h.dbPoolMax⟩,
      ⟨_, h.redisUrl⟩, ⟨_, h.jwtAccessSecret⟩, ⟨_, h.jwtRefreshSecret⟩, ⟨_, h.jwtAccessExpiresIn⟩,
      ⟨_, h.jwtRefreshExpiresIn⟩, ⟨_, h.anthropicApiKey⟩, ⟨_, h.allowMockProcessing⟩, ⟨_, h.awsRegion⟩,
      ⟨_, h.awsAccessKeyId⟩, ⟨_, h.awsSecretAccessKey⟩, ⟨_, h.awsS3Bucket⟩, ⟨_, h.supabaseUrl⟩,
      ⟨_, h.supabaseServiceRoleKey⟩, ⟨_, h.supabaseStorageBucket⟩, ⟨_, h.storageDriver⟩,
      ⟨_, h.localStorageDir⟩, ⟨_, h.maxUploadBytes⟩, List.forall_mem_nil _⟩

theorem exists_envSchema : (∃ e, envSchema z p = .ok e) ↔ WellFormed z p := by
  simp only [envSchema_eq_ok]
  constructor
  · rintro ⟨e, h⟩
    exact {
      nodeEnv := fun s hs => enumeration_isOk.1 (orDefault_isOk.1 ⟨_, h.nodeEnv⟩ s hs)
      port := fun s hs => coercePositive_isOk.1 (orDefault_isOk.1 ⟨_, h.port⟩ s hs)
      appUrl := fun s hs => stringUrl_isOk.1 (orDefault_isOk.1 ⟨_, h.appUrl⟩ s hs)
      metricsToken := fun s hs => stringMin_isOk.1 (optional_isOk.1 ⟨_, h.metricsToken⟩ s hs)
      databaseUrl := required_stringMin.1 ⟨_, h.databaseUrl⟩
      dbPoolMax := fun s hs => coercePositive_isOk.1 (orDefault_isOk.1 ⟨_, h.dbPoolMax⟩ s hs)
      redisUrl := required_stringMin.1 ⟨_, h.redisUrl⟩
      jwtAccessSecret := required_stringMin.1 ⟨_, h.jwtAccessSecret⟩
      jwtRefreshSecret := required_stringMin.1 ⟨_, h.jwtRefreshSecret⟩
      storageDriver := fun s hs => enumeration_isOk.1 (orDefault_isOk.1 ⟨_, h.storageDriver⟩ s hs)
      maxUploadBytes := fun s hs => coercePositive_isOk.1 (orDefault_isOk.1 ⟨_, h.maxUploadBytes⟩ s hs) }
  · intro h
    obtain ⟨_, hnodeEnv⟩ : ∃ a, EnvSchema.nodeEnv p = .ok a :=
      orDefault_isOk.2 fun s hs => enumeration_isOk.2 (h.nodeEnv s hs)
    obtain ⟨_, hport⟩ : ∃ a, EnvSchema.port z p = .ok a :=
      orDefault_isOk.2 fun s hs => coercePositive_isOk.2 (h.port s hs)
    obtain ⟨_, happUrl⟩ : ∃ a, EnvSchema.appUrl z p = .ok a :=
      orDefault_isOk.2 fun s hs => stringUrl_isOk.2 (h.appUrl s hs)
    obtain ⟨_, hmetricsToken⟩ : ∃ a, EnvSchema.metricsToken p = .ok a :=
      optional_isOk.2 fun s hs => stringMin_isOk.2 (h.metricsToken s hs)
    obtain ⟨_, hdatabaseUrl⟩ : ∃ a, EnvSchema.databaseUrl p = .ok a := required_stringMin.2 h.databaseUrl
    obtain ⟨_, hdbPoolMax⟩ : ∃ a, EnvSchema.dbPoolMax z p = .ok a :=
      orDefault_isOk.2 fun s hs => coercePositive_isOk.2 (h.dbPoolMax s hs)
    obtain ⟨_, hredisUrl⟩ : ∃ a, EnvSchema.redisUrl p = .ok a := required_stringMin.2 h.redisUrl
    obtain ⟨_, hjwtAccessSecret⟩ : ∃ a, EnvSchema.jwtAccessSecret p = .ok a := required_stringMin.2 h.jwtAccessSecret
    obtain ⟨_, hjwtRefreshSecret⟩ : ∃ a, EnvSchema.jwtRefreshSecret p = .ok a := required_stringMin.2 h.jwtRefreshSecret
    obtain ⟨_, hstorageDriver⟩ : ∃ a, EnvSchema.storageDriver p = .ok a :=
      orDefault_isOk.2 fun s hs => enumeration_isOk.2 (h.storageDriver s hs)
    obtain ⟨_, hmaxUploadBytes⟩ : ∃ a, EnvSchema.maxUploadBytes z p = .ok a :=
      orDefault_isOk.2 fun s hs => coercePositive_isOk.2 (h.maxUploadBytes s hs)
    exact ⟨⟨_, _, _, _, _, _, _, _, _, _, _, _, _, _, _, _, _, _, _, _, _, _, _⟩, {
      nodeEnv := hnodeEnv, port := hport, appUrl := happUrl, metricsToken := hmetricsToken, databaseUrl := hdatabaseUrl
      dbPoolMax := hdbPoolMax, redisUrl := hredisUrl, jwtAccessSecret := hjwtAccessSecret
      jwtRefreshSecret := hjwtRefreshSecret, jwtAccessExpiresIn := orDefault_string, jwtRefreshExpiresIn := orDefault_string
      anthropicApiKey := optional_string, allowMockProcessing := orDefault_coerceBoolean, awsRegion := orDefault_string
      awsAccessKeyId := optional_string, awsSecretAccessKey := optional_string, awsS3Bucket := optional_string
      supabaseUrl := optional_string, supabaseServiceRoleKey := optional_string, supabaseStorageBucket := orDefault_string
      storageDriver := hstorageDriver, localStorageDir := orDefault_string, maxUploadBytes := hmaxUploadBytes }⟩

/-- What a production process needs to start besides the means to process documents. -/
structure Deployable (z : Zod) (p : ProcessEnv) : Prop extends WellFormed z p where
  metrics : p.metricsToken.isSome
  storage : (p.storageDriver = some "s3" ∧ present p.awsS3Bucket) ∨
    ((p.storageDriver = none ∨ p.storageDriver = some "supabase") ∧ present p.supabaseUrl ∧
      present p.supabaseServiceRoleKey)

namespace Reads
variable (h : Reads z p e)
include h

theorem anthropicApiKey_eq : e.anthropicApiKey = p.anthropicApiKey :=
  (Except.ok.inj (h.anthropicApiKey.symm.trans optional_string))

theorem awsAccessKeyId_eq : e.awsAccessKeyId = p.awsAccessKeyId :=
  (Except.ok.inj (h.awsAccessKeyId.symm.trans optional_string))

theorem awsSecretAccessKey_eq : e.awsSecretAccessKey = p.awsSecretAccessKey :=
  (Except.ok.inj (h.awsSecretAccessKey.symm.trans optional_string))

theorem awsS3Bucket_eq : e.awsS3Bucket = p.awsS3Bucket := (Except.ok.inj (h.awsS3Bucket.symm.trans optional_string))

theorem supabaseUrl_eq : e.supabaseUrl = p.supabaseUrl := (Except.ok.inj (h.supabaseUrl.symm.trans optional_string))

theorem supabaseServiceRoleKey_eq : e.supabaseServiceRoleKey = p.supabaseServiceRoleKey :=
  (Except.ok.inj (h.supabaseServiceRoleKey.symm.trans optional_string))

theorem allowMockProcessing_eq : e.allowMockProcessing = present p.allowMockProcessing :=
  (Except.ok.inj (h.allowMockProcessing.symm.trans orDefault_coerceBoolean))

theorem nodeEnv_eq (hp : p.nodeEnv = some "production") : e.nodeEnv = .production := by
  have hn := h.nodeEnv
  rw [EnvSchema.nodeEnv, hp] at hn
  exact (Except.ok.inj hn).symm

/-- A token long enough for the schema is not empty. -/
theorem present_metricsToken : present e.metricsToken = p.metricsToken.isSome := by
  have hm := h.metricsToken
  unfold EnvSchema.metricsToken at hm
  cases hp : p.metricsToken with
  | none =>
    rw [hp] at hm
    rw [← Except.ok.inj hm]
    rfl
  | some s =>
    rw [hp, optional, stringMin] at hm
    split at hm
    · next hlen =>
      rw [← Except.ok.inj hm]
      refine decide_eq_true fun hs => ?_
      rw [hs] at hlen
      exact absurd hlen (by decide)
    · cases hm

theorem storageDriver_eq : p.storageDriver = some "s3" ∧ e.storageDriver = .s3 ∨
    (p.storageDriver = none ∨ p.storageDriver = some "supabase") ∧ e.storageDriver = .supabase ∨
    p.storageDriver = some "local" ∧ e.storageDriver = .localDir := by
  have hd := h.storageDriver
  unfold EnvSchema.storageDriver at hd
  cases hp : p.storageDriver with
  | none =>
    rw [hp] at hd
    exact .inr (.inl ⟨.inl rfl, (Except.ok.inj hd).symm⟩)
  | some s =>
    rw [hp] at hd
    have hs := enumeration_isOk.1 ⟨_, hd⟩
    simp only [List.map_cons, List.map_nil, List.mem_cons, List.not_mem_nil, or_false] at hs
    rcases hs with rfl | rfl | rfl
    · exact .inl ⟨rfl, (Except.ok.inj hd).symm⟩
    · exact .inr (.inl ⟨.inr rfl, (Except.ok.inj hd).symm⟩)
    · exact .inr (.inr ⟨rfl, (Except.ok.inj hd).symm⟩)

/-- The checks pass where there is a key for extraction or any text in `ALLOW_MOCK_PROCESSING`, and the rest
is deployable. -/
theorem productionErrors_eq_nil : productionErrors e = [] ↔
    (present p.anthropicApiKey ∨ present p.allowMockProcessing) ∧ Deployable z p := by
  have hw : WellFormed z p := exists_envSchema.1 ⟨e, envSchema_eq_ok.2 h⟩
  have hdeploy : Deployable z p ↔ p.metricsToken.isSome ∧ ((p.storageDriver = some "s3" ∧ present p.awsS3Bucket) ∨
      ((p.storageDriver = none ∨ p.storageDriver = some "supabase") ∧ present p.supabaseUrl ∧
        present p.supabaseServiceRoleKey)) := ⟨fun hd => ⟨hd.metrics, hd.storage⟩, fun hd => ⟨hw, hd.1, hd.2⟩⟩
  rw [hdeploy, productionErrors, h.present_metricsToken, h.anthropicApiKey_eq, h.allowMockProcessing_eq, h.awsS3Bucket_eq,
    h.supabaseUrl_eq, h.supabaseServiceRoleKey_eq]
  have hkey : (present p.anthropicApiKey = false → present p.allowMockProcessing = true) ↔
      present p.anthropicApiKey ∨ present p.allowMockProcessing := by
    cases present p.anthropicApiKey <;> simp
  rcases h.storageDriver_eq with ⟨hp, he⟩ | ⟨hp, he⟩ | ⟨hp, he⟩
  · simp [he, hp, hkey, Option.isSome_iff_ne_none]
  · rcases hp with hp | hp <;> simp [he, hp, hkey, Option.isSome_iff_ne_none]
  · simp [he, hp]

end Reads

/-- When a production process starts. -/
theorem start_eq_ok (hp : p.nodeEnv = some "production") : start z p = .ok e ↔
    Reads z p e ∧ (present p.anthropicApiKey ∨ present p.allowMockProcessing) ∧ Deployable z p := by
  have hiff : start z p = .ok e ↔ envSchema z p = .ok e ∧ ¬ (e.nodeEnv = .production ∧ productionErrors e ≠ []) := by
    unfold start
    cases hs : envSchema z p with
    | error issues => simp
    | ok env =>
      simp only [Except.ok.injEq]
      split
      · next hr => simpa using fun he : env = e => he ▸ hr
      · next hr =>
        rw [Except.ok.injEq]
        exact ⟨fun he => ⟨he, he ▸ hr⟩, And.left⟩
  rw [hiff, envSchema_eq_ok]
  refine and_congr_right fun h => ?_
  rw [← h.productionErrors_eq_nil]
  simp [h.nodeEnv_eq hp]

end DocAuto.Config
