import CodeNotes.Toml.Basic
import CodeNotes.Toml.Cursor

/-!
# Values without parts

Strings in their four forms, numbers, dates and times, and the two truth values.  Each function
reads one of them at a cursor and gives the cursor after it.
-/

namespace CodeNotes.Toml

/-! ### Strings -/

/-- A hexadecimal digit. -/
def isHexDigit (c : Char) : Bool :=
  c.isDigit || ('a' ≤ c && c ≤ 'f') || ('A' ≤ c && c ≤ 'F')

/-- The value of a digit in a base up to sixteen. -/
def digitValue (c : Char) : Nat :=
  if c.isDigit then c.toNat - 48 else c.toLower.toNat - 87

/-- The number written by digits in a base. -/
def numberIn (base : Nat) (digits : List Char) : Nat :=
  digits.foldl (fun n c => n * base + digitValue c) 0

/-- The character with a code, if there is one. -/
def charOfCode? (n : Nat) : Option Char :=
  if n.isValidChar then some (Char.ofNat n) else none

/-- An escape, from after its backslash. -/
def escape? (c : Cursor) : Option (Char × Cursor) :=
  let coded (count : Nat) : Option (Char × Cursor) :=
    let digits := (c.rest.drop 1).take count
    if digits.length == count && digits.all isHexDigit then
      (charOfCode? (numberIn 16 digits)).map fun x => (x, c.advance (count + 1))
    else none
  let plain (x : Char) : Option (Char × Cursor) := some (x, c.advance 1)
  match c.peek? with
  | some 'b' => plain '\x08'
  | some 'f' => plain '\x0c'
  | some 'n' => plain '\n'
  | some 'r' => plain '\r'
  | some 't' => plain '\t'
  | some '\\' => plain '\\'
  | some '"' => plain '"'
  | some 'u' => coded 4
  | some 'U' => coded 8
  | _ => none

/-- The rest of a string in double quotes, from after the opening quote. -/
def basicText : Nat → Cursor → List Char → Option (String × Cursor)
  | 0, _, _ => none
  | fuel + 1, c, done =>
    match c.peek? with
    | some '"' => some (String.ofList done.reverse, c.advance 1)
    | some '\\' => (escape? (c.advance 1)).bind fun (x, c) => basicText fuel c (x :: done)
    | some x => if isPlain x then basicText fuel (c.advance 1) (x :: done) else none
    | none => none

/-- The rest of a string in single quotes, from after the opening quote. -/
def literalText (c : Cursor) : Option (String × Cursor) :=
  let (taken, c) := c.span fun x => isPlain x && x != '\''
  (c.eat? '\'').map fun c => (String.ofList taken, c)

/-- The quotes at the end of a string over several lines: three close it, and up to two more in
front of them belong to it. -/
def closingQuotes (quote : Char) (c : Cursor) : Option (List Char × Cursor) :=
  let run := (c.rest.takeWhile (· == quote)).length
  if run < 3 then none
  else
    let kept := min (run - 3) 2
    some (List.replicate kept quote, c.advance (kept + 3))

/-- Passes over a backslash at the end of a line and all white space after it. -/
def foldedLine? (c : Cursor) : Option Cursor :=
  (c.eat? '\\').bind fun c =>
    c.skipGap.eatBreak?.map fun c =>
      let rec go : Nat → Cursor → Cursor
        | 0, c => c
        | fuel + 1, c =>
          match c.skipGap.eatBreak? with
          | some next => go fuel next
          | none => c.skipGap
      go c.rest.length c

/-- The rest of a string over several lines in double quotes. -/
def basicLines : Nat → Cursor → List Char → Option (String × Cursor)
  | 0, _, _ => none
  | fuel + 1, c, done =>
    match c.peek? with
    | none => none
    | some '"' =>
      match closingQuotes '"' c with
      | some (kept, c) => some (String.ofList (done.reverse ++ kept), c)
      | none => basicLines fuel (c.advance 1) ('"' :: done)
    | some '\\' =>
      match foldedLine? c with
      | some c => basicLines fuel c done
      | none => (escape? (c.advance 1)).bind fun (x, c) => basicLines fuel c (x :: done)
    | some x =>
      match c.eatBreak? with
      | some c => basicLines fuel c ('\n' :: done)
      | none => if isPlain x then basicLines fuel (c.advance 1) (x :: done) else none

/-- The rest of a string over several lines in single quotes. -/
def literalLines : Nat → Cursor → List Char → Option (String × Cursor)
  | 0, _, _ => none
  | fuel + 1, c, done =>
    match c.peek? with
    | none => none
    | some '\'' =>
      match closingQuotes '\'' c with
      | some (kept, c) => some (String.ofList (done.reverse ++ kept), c)
      | none => literalLines fuel (c.advance 1) ('\'' :: done)
    | some x =>
      match c.eatBreak? with
      | some c => literalLines fuel c ('\n' :: done)
      | none => if isPlain x then literalLines fuel (c.advance 1) (x :: done) else none

/-- Passes over a line end right after the opening of a string over several lines. -/
def afterOpening (c : Cursor) : Cursor :=
  (c.eatBreak?).getD c

/-- A string on one line. -/
def lineString? (c : Cursor) : Option (String × Cursor) :=
  match c.peek? with
  | some '"' => basicText (c.rest.length + 1) (c.advance 1) []
  | some '\'' => literalText (c.advance 1)
  | _ => none

/-- A string in any form. -/
def string? (c : Cursor) : Option (String × Cursor) :=
  match c.eatAll? ['"', '"', '"'], c.eatAll? ['\'', '\'', '\''] with
  | some inner, _ => basicLines (c.rest.length + 1) (afterOpening inner) []
  | none, some inner => literalLines (c.rest.length + 1) (afterOpening inner) []
  | none, none => lineString? c

/-! ### Numbers -/

/-- One or more digits, with single underscores between them; the underscores are dropped. -/
def digits? (isDigit : Char → Bool) (c : Cursor) : Option (List Char × Cursor) :=
  let rec go : List Char → Nat → List Char × Nat
    | x :: rest, n =>
      if isDigit x then
        let (taken, m) := go rest (n + 1)
        (x :: taken, m)
      else
        match rest with
        | y :: rest' =>
          if x == '_' && isDigit y then
            let (taken, m) := go rest' (n + 2)
            (y :: taken, m)
          else ([], n)
        | [] => ([], n)
    | [], n => ([], n)
  match c.rest with
  | x :: _ =>
    if isDigit x then
      let (taken, n) := go c.rest 0
      let after := c.advance n
      -- an underscore must stand between digits
      if after.peek? == some '_' then none else some (taken, after)
    else none
  | [] => none

/-- A sign: whether it is a minus. -/
def sign (c : Cursor) : Bool × Cursor :=
  match c.peek? with
  | some '-' => (true, c.advance 1)
  | some '+' => (false, c.advance 1)
  | _ => (false, c)

/-- The digits of a decimal number, of which the first is not a needless zero. -/
def wholeDigits? (c : Cursor) : Option (List Char × Cursor) :=
  if c.peek? == some '0' then some (['0'], c.advance 1) else digits? Char.isDigit c

/-- A whole number has to fit into 64 bits with sign. -/
def inRange (n : Int) : Bool :=
  -9223372036854775808 ≤ n && n < 9223372036854775808

/-- A whole number. -/
def integer? (c : Cursor) : Option (Scalar × Cursor) :=
  let based (base : Nat) (isDigit : Char → Bool) : Option (Scalar × Cursor) :=
    (digits? isDigit (c.advance 2)).bind fun (ds, c) =>
      let n : Int := numberIn base ds
      if inRange n then some (.integer n, c) else none
  match c.rest with
  | '0' :: 'x' :: _ => based 16 isHexDigit
  | '0' :: 'o' :: _ => based 8 fun x => '0' ≤ x && x ≤ '7'
  | '0' :: 'b' :: _ => based 2 fun x => x == '0' || x == '1'
  | _ =>
    let (negative, c) := sign c
    (wholeDigits? c).bind fun (ds, c) =>
      let n : Int := numberIn 10 ds
      let n := if negative then -n else n
      if inRange n then some (.integer n, c) else none

/-- What a number can be read as. -/
inductive RealReading where
  /-- Not one with a point or an exponent. -/
  | other
  /-- One that is not written as it should be. -/
  | bad
  | good (r : Real) (after : Cursor)

/-- A number with a point or an exponent, or `inf` or `nan`. -/
def real? (c : Cursor) : RealReading :=
  let (negative, c) := sign c
  match c.eatAll? "inf".toList, c.eatAll? "nan".toList with
  | some c, _ => .good (.infinite negative) c
  | none, some c => .good .undefined c
  | none, none =>
    match wholeDigits? c with
    | none => .other
    | some (whole, c) =>
      let exponent (ds fraction : List Char) (c : Cursor) : RealReading :=
        let finish (e : Int) (c : Cursor) : RealReading :=
          let value : Decimal := ⟨numberIn 10 ds, e - (fraction.length : Int)⟩
          -- a positive number must not be too great
          if (Binary.nearest value).isNone && !negative then .bad
          else .good (.finite negative value) c
        match c.peek? with
        | some x =>
          if x == 'e' || x == 'E' then
            let (down, c) := sign (c.advance 1)
            match digits? Char.isDigit c with
            | some (es, c) =>
              let e : Int := numberIn 10 es
              finish (if down then -e else e) c
            | none => .bad
          else finish 0 c
        | none => finish 0 c
      match c.peek? with
      | some '.' =>
        match digits? Char.isDigit (c.advance 1) with
        | some (fraction, c) => exponent (whole ++ fraction) fraction c
        | none => .bad
      | some 'e' | some 'E' => exponent whole [] c
      | _ => .other

/-! ### Dates and times -/

/-- A number of exactly `count` digits within bounds. -/
def field? (count low high : Nat) (c : Cursor) : Option (Nat × Cursor) :=
  let digits := c.rest.take count
  let n := numberIn 10 digits
  if digits.length == count && digits.all Char.isDigit && low ≤ n && n ≤ high then
    some (n, c.advance count)
  else none

/-- The number of days of a month. -/
def daysOf (year month : Nat) : Nat :=
  if month == 2 then if year % 4 == 0 && (year % 100 != 0 || year % 400 == 0) then 29 else 28
  else if month == 4 || month == 6 || month == 9 || month == 11 then 30
  else 31

/-- Whether what stands at a cursor is read as a date or a time: not at all, wrongly, or up to a
cursor. -/
inductive MomentReading where
  | other
  | bad
  | good (after : Cursor)

/-- A time of day. -/
def time (c : Cursor) : MomentReading :=
  match (field? 2 0 23 c).bind fun (_, c) => c.eat? ':' with
  | none => .other
  | some c =>
    let rest := do
      let (_, c) ← field? 2 0 59 c
      let c ← c.eat? ':'
      let (_, c) ← field? 2 0 60 c
      match c.eat? '.' with
      | some after =>
        let (fraction, c) := after.span Char.isDigit
        if fraction.isEmpty then none else some c
      | none => some c
    match rest with
    | some c => .good c
    | none => .bad

/-- The distance from universal time, if it is given. -/
def offset (c : Cursor) : MomentReading :=
  match c.peek? with
  | some 'Z' | some 'z' => .good (c.advance 1)
  | some '+' | some '-' =>
    let rest := do
      let (_, c) ← field? 2 0 23 (c.advance 1)
      let c ← c.eat? ':'
      let (_, c) ← field? 2 0 59 c
      return c
    match rest with
    | some c => .good c
    | none => .bad
  | _ => .good c

/-- A date, a time, or both. -/
def moment (c : Cursor) : MomentReading :=
  match (field? 4 0 9999 c).bind fun (year, c) => (c.eat? '-').map fun c => (year, c) with
  | none => time c
  | some (year, c) =>
    let date := do
      let (month, c) ← field? 2 1 12 c
      let c ← c.eat? '-'
      let (_, c) ← field? 2 1 (daysOf year month) c
      return c
    match date with
    | none => .bad
    | some c =>
      match c.peek? with
      | some x =>
        if x == 'T' || x == 't' || x == ' ' then
          match time (c.advance 1) with
          | .good c => offset c
          | .bad => .bad
          | .other => .good c
        else .good c
      | none => .good c

/-- A number, a date or a time. -/
def numeric? (c : Cursor) : Option (Scalar × Cursor) :=
  match moment c with
  | .good c => some (.moment, c)
  | .bad => none
  | .other =>
    match real? c with
    | .good r c => some (.real r, c)
    | .bad => none
    | .other => integer? c

/-- A value without parts. -/
def scalar? (c : Cursor) : Option (Scalar × Cursor) :=
  let word (text : String) (value : Scalar) : Option (Scalar × Cursor) :=
    (c.eatAll? text.toList).map fun c => (value, c)
  match c.peek? with
  | some '"' | some '\'' => (string? c).map fun (s, c) => (.text s, c)
  | some 't' => word "true" (.truth true)
  | some 'f' => word "false" (.truth false)
  | some 'i' => word "inf" (.real (.infinite false))
  | some 'n' => word "nan" (.real .undefined)
  | some x => if x.isDigit || x == '+' || x == '-' then numeric? c else none
  | none => none

end CodeNotes.Toml
