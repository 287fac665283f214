import CodeNotes.Text.Space

/-!
# Rendering options

How the document is written: the line separator, the marker of the title's heading and the start of
every link.  Options are *valid* when the separator is not empty and the heading marker is one or
more `#`.
-/

namespace CodeNotes

/-- The formatting of the rendered document. -/
structure RenderOptions where
  /-- The line separator. -/
  eol : String := "\n"
  /-- The heading marker of the title; the headings of notes nest below it. -/
  titleLevel : String := "#"
  /-- What every link starts with. -/
  base : String := "."
deriving DecidableEq

namespace RenderOptions

/-- What is wrong with a set of options. -/
inductive Fault where
  | emptyEol
  | badTitleLevel (given : String)
deriving DecidableEq

/-- The wording of a fault. -/
def Fault.message : Fault → String
  | .emptyEol => "eol must not be empty"
  | .badTitleLevel given => "title_level must be one or more `#`, got `" ++ given ++ "`"

/-- Whether a text is one or more `#`. -/
def isTitleLevel (s : String) : Bool :=
  !s.isEmpty && s.toList.all (· == '#')

/-- The first fault of the options, the separator being looked at first. -/
def validate (o : RenderOptions) : Except Fault Unit :=
  if o.eol.isEmpty then .error .emptyEol
  else if !isTitleLevel o.titleLevel then .error (.badTitleLevel o.titleLevel)
  else .ok ()

/-! ### Laws -/

/-- Options are valid iff there is a separator and the heading marker is one or more `#`. -/
theorem validate_eq_ok_iff (o : RenderOptions) :
    o.validate = .ok () ↔
      o.eol ≠ "" ∧ o.titleLevel ≠ "" ∧ ∀ c ∈ o.titleLevel.toList, c = '#' := by
  have htitle : isTitleLevel o.titleLevel = true ↔
      o.titleLevel ≠ "" ∧ ∀ c ∈ o.titleLevel.toList, c = '#' := by
    simp [isTitleLevel]
  rw [← htitle]
  unfold validate
  by_cases heol : o.eol = ""
  · simp [heol]
  · cases isTitleLevel o.titleLevel <;> simp [heol]

end RenderOptions

end CodeNotes
