import CodeNotes.Path.Basic

/-!
# Relative paths

Two ways to say where a path lies as seen from a directory.  `Path.under?` cuts a directory off the
front, component by component, and keeps the rest as it was written.  `Path.relativeTo` always gives
an answer: where the directory is no prefix it climbs with `..` from the longest common start.
-/

namespace CodeNotes.Path

/-- Drops separators and `.` pieces from the front. -/
def dropIdle : List (List Char) → List (List Char)
  | [] => []
  | piece :: rest => if (inner? piece).isNone then dropIdle rest else piece :: rest

/-- Joins pieces with separators. -/
def joinPieces (l : List (List Char)) : List Char :=
  List.intercalate ['/'] l

/-- Walks along `dir` over the pieces that follow the first position. -/
def dropComponents : List Component → List (List Char) → Option (List (List Char))
  | [], pieces => some pieces
  | c :: cs, pieces =>
    match dropIdle pieces with
    | [] => none
    | piece :: rest => if inner? piece == some c then dropComponents cs rest else none

/-- Cuts the idle pieces off both ends of what is left and joins the rest. -/
def remainder (l : List (List Char)) : Path :=
  ⟨String.ofList (joinPieces (dropIdle (dropIdle l).reverse).reverse)⟩

/-- What is left of `p` after `dir`, as written, when `dir` is a prefix of it by components.  The
first piece of a path is its first component, since a relative path starts with a piece of its own
and the first piece of an absolute path is the empty one before the root. -/
def under? (p dir : Path) : Option Path :=
  match dir.components, p.components with
  | [], _ => some p
  | c :: cs, first :: _ =>
    if first == c then (dropComponents cs (pieces p.text.toList).tail).map remainder else none
  | _ :: _, [] => none

/-- The length of the longest common start. -/
def commonLength : List Component → List Component → Nat
  | a :: as, b :: bs => if a == b then commonLength as bs + 1 else 0
  | _, _ => 0

/-- `p` as seen from `dir`. -/
def relativeTo (p dir : Path) : Path :=
  match p.under? dir with
  | some rest => rest
  | none =>
    let parts := p.components
    let base := dir.components
    let common := commonLength parts base
    let climb := List.replicate (base.length - common) ".."
    (climb ++ (parts.drop common).map Component.text).foldl push ⟨""⟩

/-- The components of a path with `/` between them, as a link shows it. -/
def linkText (p : Path) : String :=
  "/".intercalate (p.components.map Component.text)

end CodeNotes.Path
