import Mathlib.Data.List.DropRight

/-! The path of an `http` or `https` URL, as the URL standard resolves it. A URL is given by what
follows its origin. -/
namespace DocAuto.Url

def isC0OrSpace (c : Char) : Bool := c.toNat ≤ 0x20

def isTabOrNewline (c : Char) : Bool := c == '\t' || c == '\n' || c == '\r'

/-- What the parser reads of the end of a URL. -/
def clean (s : List Char) : List Char := (s.rdropWhile isC0OrSpace).filter (!isTabOrNewline ·)

def isSeparator (c : Char) : Bool := c == '/' || c == '\\'

/-- The path ends before the query and the fragment. -/
def endsPath (c : Char) : Bool := c == '?' || c == '#'

def isSingleDot (s : List Char) : Bool := s.map Char.toLower ∈ [['.'], ['%', '2', 'e']]

def isDoubleDot (s : List Char) : Bool :=
  s.map Char.toLower ∈ [['.', '.'], ['.', '%', '2', 'e'], ['%', '2', 'e', '.'], ['%', '2', 'e', '%', '2', 'e']]

/-- The path percent-encode set. -/
def isEncoded (c : Char) : Bool :=
  c.toNat ≤ 0x20 || 0x7F ≤ c.toNat || c ∈ ['"', '#', '<', '>', '?', '\x60', '\x7b', '\x7d']

def percentEncode (b : UInt8) : List Char := ['%', (b.toNat / 16).digitChar.toUpper, (b.toNat % 16).digitChar.toUpper]

def encodeChar (c : Char) : List Char :=
  if isEncoded c then (String.utf8EncodeChar c).flatMap percentEncode else [c]

/-- Percent-encoding leaves dots, `%` and hexadecimal digits alone, so that the dot segments may be
told apart before it. -/
def encode (s : List Char) : List Char := s.flatMap encodeChar

/-- A segment that is followed by a separator. -/
def push (segments : List (List Char)) (s : List Char) : List (List Char) :=
  if isDoubleDot s then segments.dropLast else if isSingleDot s then segments else segments ++ [encode s]

/-- The last segment; a dot segment leaves an empty one. -/
def pushLast (segments : List (List Char)) (s : List Char) : List (List Char) :=
  if isDoubleDot s then segments.dropLast ++ [[]] else if isSingleDot s then segments ++ [[]] else segments ++ [encode s]

/-- The segments of a path after its first separator. -/
def segmentsOf (s : List Char) : List (List Char) :=
  let parts := (s.takeWhile (!endsPath ·)).splitOnP isSeparator
  pushLast (parts.dropLast.foldl push []) (parts.getLast?.getD [])

def serialize (segments : List (List Char)) : List Char := segments.flatMap ('/' :: ·)

/-- The path of the URL. -/
def resolve (s : List Char) : List Char := serialize (segmentsOf (clean s).tail)

/-- A segment that the parser reads as it stands. -/
structure Plain (s : List Char) : Prop where
  chars : ∀ c ∈ s, isSeparator c = false ∧ endsPath c = false ∧ isTabOrNewline c = false
  single : isSingleDot s = false
  double : isDoubleDot s = false

/-- The part of a last segment that belongs to the path. -/
def visible (s : List Char) : List Char := (clean s).takeWhile (!endsPath ·)

section Plain
variable {segments : List (List Char)} {s : List Char} {c : Char}

theorem Plain.of_all (hchars : s.all fun c => !isSeparator c && !endsPath c && !isTabOrNewline c)
    (hsingle : isSingleDot s = false) (hdouble : isDoubleDot s = false) : Plain s := by
  refine ⟨fun c hc => ?_, hsingle, hdouble⟩
  have h := List.all_eq_true.1 hchars c hc
  simpa [and_assoc] using h

theorem encode_eq_self (h : ∀ c ∈ s, isEncoded c = false) : encode s = s := by
  have hchar : ∀ c ∈ s, encodeChar c = [c] := fun c hc => by rw [encodeChar, h c hc]; rfl
  rw [encode, List.flatMap_congr hchar, List.flatMap_singleton']

theorem foldl_push (h : ∀ s ∈ segments, Plain s) (start : List (List Char)) :
    segments.foldl push start = start ++ segments.map encode := by
  induction segments generalizing start with
  | nil => exact (List.append_nil _).symm
  | cons s segments ih =>
    obtain ⟨hs, hsegments⟩ := List.forall_mem_cons.1 h
    have hpush : push start s = start ++ [encode s] := by
      rw [push, hs.double, hs.single]
      rfl
    rw [List.foldl_cons, hpush, ih hsegments, List.append_assoc, List.singleton_append, List.map_cons]

theorem rdropWhile_append_cons (p : Char → Bool) (before s : List Char) (h : p c = false) :
    (before ++ c :: s).rdropWhile p = before ++ c :: s.rdropWhile p := by
  induction s using List.reverseRecOn with
  | nil => simp [List.rdropWhile_concat_neg, h]
  | append_singleton s x ih =>
    have hassoc : before ++ c :: (s ++ [x]) = (before ++ c :: s) ++ [x] := by simp
    rw [hassoc, List.rdropWhile_concat, List.rdropWhile_concat]
    split
    · exact ih
    · exact hassoc.symm

theorem serialize_chars {p : Char → Bool} (hslash : p '/' = false) (h : ∀ s ∈ segments, ∀ c ∈ s, p c = false) :
    ∀ c ∈ serialize segments, p c = false := by
  intro c hc
  obtain ⟨s, hs, hmem⟩ := List.mem_flatMap.1 hc
  rcases List.mem_cons.1 hmem with rfl | hmem
  · exact hslash
  · exact h s hs c hmem

theorem clean_under (h : ∀ s ∈ segments, Plain s) (s : List Char) :
    clean (serialize segments ++ '/' :: s) = serialize segments ++ '/' :: clean s := by
  have hkept : (serialize segments).filter (!isTabOrNewline ·) = serialize segments := by
    refine List.filter_eq_self.2 fun c hc => ?_
    rw [serialize_chars rfl (fun s hs c hc => ((h s hs).chars c hc).2.2) c hc]
    rfl
  rw [clean, rdropWhile_append_cons isC0OrSpace _ _ rfl, List.filter_append, hkept, List.filter_cons_of_pos rfl]
  rfl

theorem splitOnP_under (h : ∀ s ∈ segments, Plain s) (hs : ∀ c ∈ s, isSeparator c = false) :
    ((serialize segments ++ '/' :: s).tail.takeWhile (!endsPath ·)).splitOnP isSeparator =
      segments ++ [s.takeWhile (!endsPath ·)] := by
  induction segments with
  | nil => exact List.splitOnP_eq_singleton fun c hc => hs c (List.takeWhile_subset _ hc)
  | cons s' segments ih =>
    obtain ⟨hs', hsegments⟩ := List.forall_mem_cons.1 h
    have hcons : ∃ tail, serialize segments ++ '/' :: s = '/' :: tail := by
      cases segments with
      | nil => exact ⟨_, rfl⟩
      | cons s'' segments => exact ⟨_, rfl⟩
    obtain ⟨tail, htail⟩ := hcons
    have hrest := ih hsegments
    rw [htail, List.tail_cons] at hrest
    have hwhole : (serialize (s' :: segments) ++ '/' :: s).tail = s' ++ '/' :: tail := by
      rw [serialize, List.flatMap_cons, List.append_assoc, ← serialize, htail]
      rfl
    have hread : ∀ c ∈ s', (!endsPath c) = true := fun c hc => by rw [(hs'.chars c hc).2.1]; rfl
    rw [hwhole, List.takeWhile_append_of_pos hread, List.takeWhile_cons_of_pos rfl,
      List.splitOnP_append_cons_of_forall_mem (fun c hc => (hs'.chars c hc).1) '/' rfl, hrest, List.cons_append]

/-- The segments before the last name are read as they stand. -/
theorem resolve_plain (h : ∀ s ∈ segments, Plain s) (hs : ∀ c ∈ s, isSeparator c = false) :
    resolve (serialize segments ++ '/' :: s) = serialize (pushLast (segments.map encode) (visible s)) := by
  have hclean : ∀ c ∈ clean s, isSeparator c = false := fun c hc =>
    hs c ((List.rdropWhile_prefix isC0OrSpace _).subset (List.mem_of_mem_filter hc))
  rw [resolve, clean_under h, segmentsOf, splitOnP_under h hclean]
  rw [List.dropLast_concat, List.getLast?_concat, foldl_push h, List.nil_append, Option.getD_some, visible]

end Plain
end DocAuto.Url
