import Mathlib.Data.List.Basic

/-! JSON texts of objects whose members are strings: what `JSON.stringify` writes, and what
`JSON.parse` reads of them. -/
namespace DocAuto.Json

/-- The name and the value of each member, in order. -/
abbrev Members := List (String × String)

/-- A character as it stands in a string. -/
def escape (c : Char) : List Char :=
  if c = '"' then ['\\', '"']
  else if c = '\\' then ['\\', '\\']
  else if c = '\x08' then ['\\', 'b']
  else if c = '\x0c' then ['\\', 'f']
  else if c = '\n' then ['\\', 'n']
  else if c = '\x0d' then ['\\', 'r']
  else if c = '\t' then ['\\', 't']
  else if c.toNat < 32 then ['\\', 'u', '0', '0', (c.toNat / 16).digitChar, (c.toNat % 16).digitChar]
  else [c]

/-- A string without its opening quotation mark. -/
def quoted (s : String) : List Char := s.toList.flatMap escape ++ ['"']

def member (m : String × String) : List Char := '"' :: quoted m.1 ++ ':' :: '"' :: quoted m.2

/-- The members up to the closing brace. -/
def body : Members → List Char
  | [] => ['}']
  | [m] => member m ++ ['}']
  | m :: ms => member m ++ ',' :: body ms

def stringify (ms : Members) : String := String.ofList ('{' :: body ms)

def hexValue (c : Char) : Option Nat :=
  if '0' ≤ c ∧ c ≤ '9' then some (c.toNat - '0'.toNat)
  else if 'a' ≤ c ∧ c ≤ 'f' then some (c.toNat - 'a'.toNat + 10)
  else if 'A' ≤ c ∧ c ≤ 'F' then some (c.toNat - 'A'.toNat + 10)
  else none

/-- The character of a `\u` escape; half of a surrogate pair is none. -/
def codeUnit (a b c d : Char) : Option Char := do
  let n := (((← hexValue a) * 16 + (← hexValue b)) * 16 + (← hexValue c)) * 16 + (← hexValue d)
  if n.isValidChar then some (Char.ofNat n) else none

/-- What a character after a backslash stands for. -/
def simpleEscape : Char → Option Char
  | '"' => some '"'
  | '\\' => some '\\'
  | '/' => some '/'
  | 'b' => some '\x08'
  | 'f' => some '\x0c'
  | 'n' => some '\n'
  | 'r' => some '\x0d'
  | 't' => some '\t'
  | _ => none

/-- A string after its opening quotation mark, and the text after its closing one. -/
def string : List Char → Option (List Char × List Char)
  | [] => none
  | '"' :: text => some ([], text)
  | '\\' :: 'u' :: a :: b :: c :: d :: text => do
    let x ← codeUnit a b c d
    let (s, text) ← string text
    return (x :: s, text)
  | '\\' :: e :: text => do
    let x ← simpleEscape e
    let (s, text) ← string text
    return (x :: s, text)
  | c :: text => do
    let (s, text) ← if c.toNat < 32 ∨ c = '\\' then none else string text
    return (c :: s, text)

def isSpace (c : Char) : Bool := c == ' ' || c == '\t' || c == '\n' || c == '\x0d'

def skip (text : List Char) : List Char := text.dropWhile isSpace

/-- The rest of a text that has `c` next. -/
def token (c : Char) (text : List Char) : Option (List Char) :=
  match skip text with
  | d :: text => if d = c then some text else none
  | [] => none

/-- Members up to the closing brace, at most `fuel` of them. -/
def members : Nat → List Char → Option (Members × List Char)
  | 0, _ => none
  | fuel + 1, text => do
    let (name, text) ← string (← token '"' text)
    let (value, text) ← string (← token '"' (← token ':' text))
    let m := (String.ofList name, String.ofList value)
    match token ',' text with
    | some text =>
      let (ms, text) ← members fuel text
      return (m :: ms, text)
    | none => return ([m], ← token '}' text)

def parse (s : String) : Option Members := do
  let text ← token '{' s.toList
  let (ms, text) ← match token '}' text with
    | some text => some ([], text)
    | none => members text.length text
  if skip text = [] then some ms else none

/-- Of two members of one name, the later is meant. -/
def field (name : String) (ms : Members) : Option String := (ms.reverse.find? (·.1 == name)).map (·.2)

section RoundTrip
variable {text : List Char} {ms : Members} {fuel : Nat}

theorem codeUnit_control : ∀ n < 32, codeUnit '0' '0' (n / 16).digitChar (n % 16).digitChar = some (Char.ofNat n) := by
  decide

theorem string_simple {e c : Char} (hu : e ≠ 'u') (he : simpleEscape e = some c) :
    string ('\\' :: e :: text) = (string text).map fun p => (c :: p.1, p.2) := by
  cases hs : string text <;> simp [string, hu, he, hs]

theorem string_plain {c : Char} (hq : c ≠ '"') (hb : c ≠ '\\') (hlow : ¬ c.toNat < 32) :
    string (c :: text) = (string text).map fun p => (c :: p.1, p.2) := by
  cases hs : string text <;> simp [string, hb, hlow, hs]

theorem string_escape (c : Char) (text : List Char) :
    string (escape c ++ text) = (string text).map fun p => (c :: p.1, p.2) := by
  unfold escape
  split_ifs with hq hb h8 hc hn hd ht hlow
  iterate 7
    subst_vars
    exact string_simple (by decide) rfl
  · have hcode := codeUnit_control c.toNat hlow
    rw [Char.ofNat_toNat] at hcode
    cases hs : string text <;> simp [string, hcode, hs]
  · exact string_plain hq hb hlow

theorem string_quoted (s : String) (text : List Char) : string (quoted s ++ text) = some (s.toList, text) := by
  unfold quoted
  induction s.toList with
  | nil => rfl
  | cons c cs ih => rw [List.flatMap_cons, List.append_assoc, List.append_assoc, string_escape, ← List.append_assoc, ih]; rfl

theorem token_self {c : Char} (hc : ¬ isSpace c) : token c (c :: text) = some text := by
  unfold token skip
  rw [List.dropWhile_cons_of_neg hc]
  exact if_pos rfl

theorem token_other {c d : Char} (hd : ¬ isSpace d) (hne : d ≠ c) : token c (d :: text) = none := by
  unfold token skip
  rw [List.dropWhile_cons_of_neg hd]
  exact if_neg hne

/-- One member, and what follows it. -/
theorem members_member (m : String × String) (fuel : Nat) (text : List Char) : members (fuel + 1) (member m ++ text) =
    match token ',' text with
    | some text => (members fuel text).map fun p => (m :: p.1, p.2)
    | none => (token '}' text).map fun text => ([m], text) := by
  have hopen : ∀ text, token '"' ('"' :: text) = some text := fun _ => token_self (by decide)
  have hcolon : ∀ text, token ':' (':' :: text) = some text := fun _ => token_self (by decide)
  simp only [members, member, List.append_assoc, List.cons_append, hopen, hcolon, Option.bind_eq_bind, Option.bind_some,
    string_quoted, String.ofList_toList]
  cases token ',' text with
  | none => cases token '}' text <;> rfl
  | some text =>
    dsimp only
    cases members fuel text <;> rfl

theorem members_body (m : String × String) (h : ms.length < fuel) :
    members fuel (body (m :: ms) ++ text) = some (m :: ms, text) := by
  induction ms generalizing m fuel with
  | nil =>
    obtain ⟨fuel, rfl⟩ := Nat.exists_eq_add_one_of_ne_zero (Nat.ne_of_gt h)
    have hcomma : token ',' ('}' :: text) = none := token_other (by decide) (by decide)
    have hclose : token '}' ('}' :: text) = some text := token_self (by decide)
    rw [body, List.append_assoc, members_member, List.singleton_append, hcomma]
    dsimp only
    rw [hclose]
    rfl
  | cons n ms ih =>
    obtain ⟨fuel, rfl⟩ := Nat.exists_eq_add_one_of_ne_zero (Nat.ne_of_gt (Nat.zero_lt_of_lt h))
    have hcomma : ∀ text, token ',' (',' :: text) = some text := fun _ => token_self (by decide)
    rw [body, List.append_assoc, members_member, List.cons_append, hcomma]
    · dsimp only
      rw [ih n (Nat.lt_of_succ_lt_succ h)]
      rfl
    · exact nofun

theorem length_body (m : String × String) : ms.length < (body (m :: ms)).length := by
  induction ms generalizing m with
  | nil => simp [body]
  | cons n ms ih =>
    have := ih n
    simp only [body, List.length_append, List.length_cons] at this ⊢
    omega

/-- What is written is read back. -/
theorem parse_stringify (ms : Members) : parse (stringify ms) = some ms := by
  have hopen : token '{' ('{' :: body ms) = some (body ms) := token_self (by decide)
  unfold parse stringify
  rw [String.toList_ofList, hopen]
  cases ms with
  | nil => rfl
  | cons m ms =>
    have hclose : token '}' (body (m :: ms)) = none := by
      cases ms <;> exact token_other (by decide) (by decide)
    have hmembers := @members_body [] ms _ m (length_body m)
    rw [List.append_nil] at hmembers
    simp only [Option.bind_eq_bind, Option.bind_some, hclose, hmembers]
    rfl

end RoundTrip
end DocAuto.Json
