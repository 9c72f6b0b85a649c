/-!
Paths of the flat tree. A path is the text that a request gives, taken as it stands: nothing
normalises it, so `/a//b` and `/a/b` are different paths and a path may end in a slash. All
structure of the tree is read off these texts by `Path.parent` and `Path.Under`.
-/

namespace FlatTree

/-- A path, character by character. Characters are Unicode scalar values, so a text with half of a
surrogate pair in it is no path here. -/
abbrev Path := List Char

namespace Path

/-- The path of the root directory, a single slash. -/
def root : Path := ['/']

/-- The last segment: what follows the last slash, or the whole path if it has none. -/
def base (path : Path) : Path :=
  (path.reverse.takeWhile (· != '/')).reverse

/-- What stands before the last segment, its closing slash included. -/
def stem (path : Path) : Path :=
  (path.reverse.dropWhile (· != '/')).reverse

/-- The stem without its trailing slashes. A stem of slashes alone stays as it is. -/
def parent (path : Path) : Path :=
  let trimmed := (path.stem.reverse.dropWhile (· == '/')).reverse
  if trimmed = [] then path.stem else trimmed

/-- A path is under a directory's path when it continues it with a slash. -/
def Under (path directory : Path) : Prop :=
  directory ++ ['/'] <+: path

instance (path directory : Path) : Decidable (path.Under directory) :=
  inferInstanceAs (Decidable (directory ++ ['/'] <+: path))

/-- The path with `target` in the place of the text at its front that is as long as `source`. -/
def rebase (path source target : Path) : Path :=
  target ++ path.drop source.length

/-- The order of the code points, character by character. A path comes before its continuations. -/
def le : Path → Path → Bool
  | [], _ => true
  | _ :: _, [] => false
  | c :: path, d :: other => c.toNat < d.toNat || (c.toNat == d.toNat && le path other)

/-- Puts a path into a list in code point order. -/
def insertSorted (path : Path) : List Path → List Path
  | [] => [path]
  | first :: rest =>
      if path.le first then path :: first :: rest else first :: insertSorted path rest

/-- Paths in the order of their code points. -/
def sort (paths : List Path) : List Path :=
  paths.foldr insertSorted []

/-- Stem and last segment make up the path. -/
theorem stem_append_base (path : Path) : path.stem ++ path.base = path := by
  simp [stem, base, ← List.reverse_append, List.takeWhile_append_dropWhile]

/-- The last segment holds no slash. -/
theorem slash_not_mem_base (path : Path) : '/' ∉ path.base := by
  intro member
  have := List.all_eq_true.1 (List.all_takeWhile (p := (· != '/')) (l := path.reverse)) '/'
    (by simpa [base] using member)
  simp at this

theorem mem_insertSorted {path other : Path} {paths : List Path} :
    other ∈ insertSorted path paths ↔ other = path ∨ other ∈ paths := by
  induction paths with
  | nil => simp [insertSorted]
  | cons first rest ih =>
      simp only [insertSorted]
      split
      · simp
      · simp only [List.mem_cons, ih]
        grind

/-- Sorting neither adds nor drops a path. -/
theorem mem_sort {path : Path} {paths : List Path} : path ∈ sort paths ↔ path ∈ paths := by
  induction paths with
  | nil => simp [sort]
  | cons first rest ih => simpa [sort, mem_insertSorted] using or_congr_right ih

end Path

end FlatTree
