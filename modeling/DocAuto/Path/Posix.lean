import Mathlib.Data.List.Basic

/-! Normalisation and joining of file paths, as Node does it on POSIX systems. -/
namespace DocAuto.Posix

/-- One segment in `normalizeString`. -/
def push (allowAboveRoot : Bool) (segments : List (List Char)) (s : List Char) : List (List Char) :=
  if s = [] ∨ s = ['.'] then segments
  else if s = ['.', '.'] then
    if segments = [] ∨ segments.getLast? = some ['.', '.'] then if allowAboveRoot then segments ++ [s] else segments
    else segments.dropLast
  else segments ++ [s]

def isAbsolute (path : List Char) : Bool := path.head? == some '/'

def segmentsOf (path : List Char) : List (List Char) := (path.splitOn '/').foldl (push !isAbsolute path) []

def normalize (path : List Char) : List Char :=
  let segments := segmentsOf path
  let trailing : List Char := if path.getLast? = some '/' then ['/'] else []
  if segments = [] then if isAbsolute path then ['/'] else '.' :: trailing
  else (if isAbsolute path then ['/'] else []) ++ ['/'].intercalate segments ++ trailing

def join (base path : List Char) : List Char :=
  if base = [] then normalize path
  else if path = [] then normalize base
  else normalize (base ++ '/' :: path)

/-- A segment that names an entry of its directory. -/
structure Plain (s : List Char) : Prop where
  nonempty : s ≠ []
  single : s ≠ ['.']
  double : s ≠ ['.', '.']
  unseparated : '/' ∉ s

/-- The directory under which `join base` puts plain segments. -/
def root (base : List Char) : List Char :=
  (if isAbsolute base then ['/'] else []) ++ (segmentsOf base).flatMap (· ++ ['/'])

section Plain
variable {segments : List (List Char)} {base : List Char} {allow : Bool}

theorem foldl_push (h : ∀ s ∈ segments, Plain s) (start : List (List Char)) :
    segments.foldl (push allow) start = start ++ segments := by
  induction segments generalizing start with
  | nil => exact (List.append_nil _).symm
  | cons s segments ih =>
    obtain ⟨hs, hsegments⟩ := List.forall_mem_cons.1 h
    have hpush : push allow start s = start ++ [s] := by
      rw [push, if_neg (not_or.2 ⟨hs.nonempty, hs.single⟩), if_neg hs.double]
    rw [List.foldl_cons, hpush, ih hsegments, List.append_assoc, List.singleton_append]

/-- Plain segments neither begin nor end with a separator. -/
theorem intercalate_ends (hne : segments ≠ []) (h : ∀ s ∈ segments, Plain s) :
    ['/'].intercalate segments ≠ [] ∧ (['/'].intercalate segments).head? ≠ some '/' ∧
      (['/'].intercalate segments).getLast? ≠ some '/' := by
  induction segments with
  | nil => exact absurd rfl hne
  | cons s segments ih =>
    obtain ⟨hs, hsegments⟩ := List.forall_mem_cons.1 h
    have hhead : s.head? ≠ some '/' := fun heq => hs.unseparated (List.mem_of_head? heq)
    cases segments with
    | nil =>
      rw [List.intercalate_singleton]
      exact ⟨hs.nonempty, hhead, fun heq => hs.unseparated (List.mem_of_getLast? heq)⟩
    | cons s' segments =>
      obtain ⟨hne', -, hlast⟩ := ih (List.cons_ne_nil _ _) hsegments
      rw [List.intercalate_cons_cons]
      refine ⟨by simp, ?_, ?_⟩
      · rw [List.append_assoc, List.head?_append_of_ne_nil _ hs.nonempty]
        exact hhead
      · rwa [List.getLast?_append_of_ne_nil _ hne']

theorem intercalate_append (hne : segments ≠ []) (before : List (List Char)) :
    ['/'].intercalate (before ++ segments) = before.flatMap (· ++ ['/']) ++ ['/'].intercalate segments := by
  induction before with
  | nil => rfl
  | cons s before ih =>
    rw [List.cons_append, List.intercalate_cons_of_ne_nil (by simp [hne]), ih, List.flatMap_cons]
    simp only [List.append_assoc]

theorem normalize_under {path : List Char} (hne : segments ≠ []) (habs : isAbsolute path = isAbsolute base)
    (hseg : segmentsOf path = segmentsOf base ++ segments) (hlast : path.getLast? ≠ some '/') :
    normalize path = root base ++ ['/'].intercalate segments := by
  have hsome : segmentsOf base ++ segments ≠ [] := fun h => hne (List.append_eq_nil_iff.1 h).2
  rw [normalize, hseg, if_neg hlast, if_neg hsome, habs, intercalate_append hne, List.append_nil, root]
  simp only [List.append_assoc]

/-- Plain segments keep their place under the base. -/
theorem join_plain (base : List Char) (hne : segments ≠ []) (h : ∀ s ∈ segments, Plain s) :
    join base (['/'].intercalate segments) = root base ++ ['/'].intercalate segments := by
  obtain ⟨hkey, hhead, hlast⟩ := intercalate_ends hne h
  have hsplit : (['/'].intercalate segments).splitOn '/' = segments :=
    List.splitOn_intercalate '/' (fun s hs => (h s hs).unseparated) hne
  rw [join]
  by_cases hbase : base = []
  · rw [if_pos hbase]
    have habs : isAbsolute (['/'].intercalate segments) = false := beq_eq_false_iff_ne.2 hhead
    subst hbase
    refine normalize_under hne habs ?_ hlast
    rw [segmentsOf, hsplit, foldl_push h]
    rfl
  · rw [if_neg hbase, if_neg hkey]
    have habs : isAbsolute (base ++ '/' :: ['/'].intercalate segments) = isAbsolute base := by
      rw [isAbsolute, List.head?_append_of_ne_nil _ hbase, isAbsolute]
    refine normalize_under hne habs ?_ ?_
    · rw [segmentsOf, habs, List.splitOn_append_cons_self, hsplit, List.foldl_append, foldl_push h]
      rfl
    · rw [List.getLast?_append_of_ne_nil _ (List.cons_ne_nil _ _), List.getLast?_cons_of_ne_nil hkey]
      exact hlast

end Plain
end DocAuto.Posix
