import HttpServer.Lib.Bytes

/-!
# Paths, resolved textually

A path is a list of components between slashes, of which `.` and the empty one stay where they are
and `..` goes up.  `resolve` reads a path as a place in the tree, without looking at the tree, and a
path is strictly below a directory when its place extends that of the directory
(`StrictlyBelow`).  A name that never climbs above its own start leads below every directory that it
is joined to with a slash between (`strictlyBelow_append`).
-/

namespace HttpServer.Lib

def components (path : Bytes) : List Bytes := path.splitOnP (· = SLASH)

/-- A place in the tree: under the root, or so many levels up from the working directory, and down
from there along `names`. -/
structure Place where
  absolute : Bool
  ups : ℕ
  names : List Bytes
  deriving DecidableEq, Repr

/-- One component of a path; above the root there is the root. -/
def Place.enter (p : Place) (c : Bytes) : Place :=
  if c = [] ∨ c = lit "." then p
  else if c = lit ".." then
    if p.names = [] then (if p.absolute then p else { p with ups := p.ups + 1 })
    else { p with names := p.names.dropLast }
  else { p with names := p.names ++ [c] }

def resolve (path : Bytes) : Place :=
  (components path).foldl Place.enter ⟨path.head? = some SLASH, 0, []⟩

/-- `path` leads to a place under that of `dir`, and not to `dir` itself. -/
def StrictlyBelow (dir path : Bytes) : Prop :=
  ∃ rest, rest ≠ [] ∧ resolve path = { resolve dir with names := (resolve dir).names ++ rest }

/-- The names under the start that components lead to, unless they climb above it. -/
def descend : List Bytes → List Bytes → Option (List Bytes)
  | [], names => some names
  | c :: cs, names =>
    if c = [] ∨ c = lit "." then descend cs names
    else if c = lit ".." then (if names = [] then none else descend cs names.dropLast)
    else descend cs (names ++ [c])

/-- `dir` and `name` are joined with a slash between them. -/
def Joined (dir name : Bytes) : Prop :=
  dir.getLast? = some SLASH ∨ dir ≠ [] ∧ name.head? = some SLASH

instance (dir name : Bytes) : Decidable (Joined dir name) := by unfold Joined; infer_instance

section Below

variable {cs names rest : List Bytes} {dir name : Bytes}

/-- Components that do not climb add their names to the place they start from. -/
theorem foldl_enter_of_descend (h : descend cs names = some rest) (p : Place) :
    cs.foldl Place.enter { p with names := p.names ++ names } =
      { p with names := p.names ++ rest } := by
  induction cs generalizing names with
  | nil =>
    cases h
    rfl
  | cons c cs ih =>
    rw [List.foldl_cons]
    rw [descend] at h
    by_cases hstay : c = [] ∨ c = lit "."
    · rw [if_pos hstay] at h
      rw [Place.enter, if_pos hstay, ih h]
    rw [if_neg hstay] at h
    by_cases hup : c = lit ".."
    · rw [if_pos hup] at h
      by_cases hnames : names = []
      · rw [if_pos hnames] at h
        cases h
      · rw [if_neg hnames] at h
        have hne : ¬ p.names ++ names = [] := by simp [hnames]
        have := ih h
        rw [Place.enter, if_neg hstay, if_pos hup, if_neg hne]
        rwa [← List.dropLast_append_of_ne_nil hnames] at this
    · rw [if_neg hup] at h
      have := ih h
      rw [Place.enter, if_neg hstay, if_neg hup]
      rwa [← List.append_assoc] at this

theorem components_append (a b : Bytes) :
    components (a ++ SLASH :: b) = components a ++ components b :=
  List.splitOnP_append_cons a b (by simp)

/-- The components of a joined path are those of the directory and those of the name, up to empty
ones. -/
theorem foldl_components_append (h : Joined dir name) (p : Place) :
    (components (dir ++ name)).foldl Place.enter p =
      (components name).foldl Place.enter ((components dir).foldl Place.enter p) := by
  have hempty : ∀ q : Place, q.enter [] = q := fun q => by simp [Place.enter]
  rcases h with hdir | ⟨-, hname⟩
  · obtain ⟨d, rfl⟩ := List.getLast?_eq_some_iff.1 hdir
    have h1 := components_append d name
    have h2 := components_append d []
    have h3 : components [] = [[]] := rfl
    rw [List.append_assoc, List.cons_append, List.nil_append, h1, h2, h3]
    simp [List.foldl_append, hempty]
  · obtain ⟨n, rfl⟩ := List.head?_eq_some_iff.1 hname
    have h1 := components_append dir n
    have h2 := components_append [] n
    have h3 : components [] = [[]] := rfl
    rw [List.nil_append] at h2
    rw [h1, h2, h3]
    simp [List.foldl_append, hempty]

/-- **A name that does not climb stays below.** -/
theorem strictlyBelow_append (h : Joined dir name) (hd : descend (components name) [] = some rest)
    (hrest : rest ≠ []) : StrictlyBelow dir (dir ++ name) := by
  have hne : dir ≠ [] := by
    rcases h with h | h
    · rintro rfl
      cases h
    · exact h.1
  have hhead : (dir ++ name).head? = dir.head? := List.head?_append_of_ne_nil dir hne
  have hfold := foldl_enter_of_descend hd (resolve dir)
  rw [List.append_nil] at hfold
  refine ⟨rest, hrest, ?_⟩
  rw [← hfold, resolve, hhead, foldl_components_append h]
  rfl

end Below

end HttpServer.Lib
