import Mathlib.Tactic

/-!
# Paths and the directories they lead to

A `Tree` is what the names of a path are looked up in. Links, mounts and `..` are left to its
`enter`.

* `names_join`: the names of a path that was put together at a slash.
* `holder_join`: a name put behind a directory and a slash lies in that directory.
-/

namespace Path

/-- The names between the slashes of a path. -/
def names (p : List Char) : List (List Char) := (p.splitOn '/').filter (· ≠ [])

theorem names_join (p q : List Char) : names (p ++ '/' :: q) = names p ++ names q := by
  unfold names
  rw [List.splitOn_append_cons_self, List.filter_append]

theorem names_single {p : List Char} (h : '/' ∉ p) (hne : p ≠ []) : names p = [p] := by
  unfold names
  rw [List.splitOn_eq_singleton h]
  simp [hne]

/-- Directories `N`, and where a name leads from one of them. -/
structure Tree (N : Type) where
  root : N
  cwd : N
  enter : N → List Char → Option N
  dot : ∀ n, enter n ['.'] = some n

namespace Tree

variable {N : Type} (T : Tree N)

/-- Where the lookup of a path begins. -/
def start (p : List Char) : N := if p.head? = some '/' then T.root else T.cwd

/-- The directory that a path names; the empty path names none. -/
def dir (p : List Char) : Option N := if p = [] then none else (names p).foldlM T.enter (T.start p)

/-- The directory in which the last name of a path is looked up. -/
def holder (p : List Char) : Option N := (names p).dropLast.foldlM T.enter (T.start p)

theorem start_append {p : List Char} (hp : p ≠ []) (q : List Char) : T.start (p ++ q) = T.start p := by
  cases p with
  | nil => exact absurd rfl hp
  | cons c p => rfl

/-- **A name behind a slash lies in the directory before the slash**, which is the root when
nothing stands there. -/
theorem holder_join {p q : List Char} (hq : '/' ∉ q) (hne : q ≠ []) :
    T.holder (p ++ '/' :: q) = if p = [] then some T.root else T.dir p := by
  unfold holder dir
  rw [names_join, names_single hq hne, List.dropLast_concat]
  by_cases hp : p = []
  · rw [if_pos hp, hp]
    rfl
  · rw [if_neg hp, if_neg hp, T.start_append hp]

/-- The directory `.` is the current one. -/
theorem dir_dot : T.dir ['.'] = some T.cwd := by
  have hnames : names ['.'] = [['.']] := names_single (by decide) (by decide)
  unfold dir
  rw [if_neg (by decide), hnames, List.foldlM_cons, T.dot]
  rfl

/-- Directories without links or `..`: every name leads one level down, and `home` is the
current directory. -/
def lexical (home : List (List Char)) : Tree (List (List Char)) where
  root := []
  cwd := home
  enter n x := some (if x = ['.'] then n else n ++ [x])
  dot _ := rfl

end Tree

end Path
