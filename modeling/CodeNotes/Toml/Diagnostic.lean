import CodeNotes.Text.Quoted
import CodeNotes.Toml.Basic

/-!
# Values of the wrong kind

The report on a value that is not of the kind it should be shows the line it stands on and
underlines it.  Columns count characters, but the underline is as long as the value has bytes, up
to the length of the line.
-/

namespace CodeNotes.Toml

/-- What a value should have been. -/
inductive Expected where
  | text
  | sequence
  /-- A table with known keys. -/
  | options
deriving DecidableEq, Repr

/-- The wording of what was expected. -/
def Expected.phrase : Expected → String
  | .text => "a string"
  | .sequence => "a sequence"
  | .options => "struct RenderOptions"

/-- The text of a number with a point or an exponent. -/
def Real.phrase : Real → String
  | .undefined => "NaN"
  | .infinite negative => if negative then "-inf" else "inf"
  | .finite negative value =>
    let mark := if negative then "-" else ""
    if value.digits = 0 then mark ++ "0.0"
    else
      match Binary.nearest value with
      | none => mark ++ "inf"
      | some b => mark ++ if b.significand = 0 then "0.0" else b.shortest.positional

/-- The wording of what an item is. -/
def Item.phrase : Item → String
  | .scalar (.text s) _ => "string " ++ Text.quoted s
  | .scalar (.integer n) _ => "integer \x60" ++ toString n ++ "\x60"
  | .scalar (.real r) _ => "floating point \x60" ++ r.phrase ++ "\x60"
  | .scalar (.truth b) _ => "boolean \x60" ++ (if b then "true" else "false") ++ "\x60"
  | .scalar .moment _ => "map"
  | .array _ _ | .tables _ => "sequence"
  | .table _ _ _ => "map"

/-- A value of the wrong kind, and where it stands. -/
structure Mismatch where
  found : String
  expected : Expected
  span : Span
deriving DecidableEq, Repr

namespace Mismatch

/-- The report on a value of the wrong kind in a text. -/
def report (m : Mismatch) (source : String) : String :=
  let cs := source.toList
  let before := cs.take m.span.start
  let column := (Position.sinceBreak before).length
  let line := before.count '\n' + 1
  let content := (cs.drop (m.span.start - column)).takeWhile (· != '\n')
  let gutter := String.ofList (List.replicate (line.repr.length + 1) ' ')
  let width := min (Text.byteLength (m.span.text cs)) (Text.byteLength content)
  let spaces (n : Nat) : String := String.ofList (List.replicate n ' ')
  let carets := String.ofList (List.replicate (max width 1) '^')
  "TOML parse error at line " ++ line.repr ++ ", column " ++ (column + 1).repr ++ "\n" ++
    gutter ++ "|\n" ++
    line.repr ++ " | " ++ String.ofList content ++ "\n" ++
    gutter ++ "|" ++ spaces (column + 1) ++ carets ++ "\n" ++
    "invalid type: " ++ m.found ++ ", expected " ++ m.expected.phrase ++ "\n"

end Mismatch

end CodeNotes.Toml
