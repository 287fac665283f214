import CodeNotes.Command.Arguments
import CodeNotes.Proofs.Disk.Write

/-!
# What a command line gives

The words of a command line give patterns and values of settings, one after another
(`assignments`).  Reading keeps what was given so far: one argument adds its own value to the place
it is for and touches no other one (`Holds.set`, `Holds.addPattern`), so a command line that asks
for a document is read as what all of its words give (`holds_of_parse`).
-/

namespace CodeNotes.Command

/-! ### Assignments -/

/-- A text with the setting it is the value of; without one, the text is a pattern. -/
abbrev Assignment := Option Setting × String

/-- What words give, in order, until one of them ends the reading. -/
def assignments : List Word → List Assignment
  | [] => []
  | .text s :: rest => (none, s) :: assignments rest
  | .pattern s :: rest => (none, s) :: assignments rest
  | .attached s value :: rest => (some s, value) :: assignments rest
  | .flag (.setting s) :: .text value :: rest => (some s, value) :: assignments rest
  | .flag (.switch _) :: rest => assignments rest
  | _ => []

/-- The texts that are given to a setting, or as patterns. -/
def valuesAt (place : Option Setting) (given : List Assignment) : List String :=
  (given.filter (·.1 = place)).map Prod.snd

theorem valuesAt_concat_self (place : Option Setting) (given : List Assignment) (value : String) :
    valuesAt place (given ++ [(place, value)]) = valuesAt place given ++ [value] := by
  simp [valuesAt]

theorem valuesAt_concat_of_ne {place other : Option Setting} (given : List Assignment)
    (value : String) (h : other ≠ place) :
    valuesAt place (given ++ [(other, value)]) = valuesAt place given := by
  simp [valuesAt, h]

/-- Arguments hold what was given: lists as a whole, single values as far as there are any, and the
separator that a name stands for. -/
structure Holds (a : Arguments) (given : List Assignment) : Prop where
  patterns : a.patterns = valuesAt none given
  ignore : a.ignore = valuesAt (some .ignore) given
  base : a.base.toList = valuesAt (some .base) given
  titleLevel : a.titleLevel.toList = valuesAt (some .titleLevel) given
  eol : a.eol.toList.map some = (valuesAt (some .eol) given).map lineSeparator?

theorem holds_nothing : Holds {} [] := ⟨rfl, rfl, rfl, rfl, rfl⟩

/-! ### One argument -/

section Step

variable {a a' : Arguments} {given : List Assignment}

theorem once_eq_ok {α : Type} {s : Setting} {old v : Option α} {new : Except Misuse α}
    (h : once s old new = .ok v) : old = none ∧ ∃ w, new = .ok w ∧ v = some w := by
  unfold once at h
  cases old with
  | some w => nomatch h
  | none =>
    cases new with
    | error m => nomatch h
    | ok w => exact ⟨rfl, w, rfl, (Except.ok.inj h).symm⟩

theorem meaning_of_namedValue {α : Type} {s : Setting} {value : String} {meaning : Option α}
    {v : α} (h : namedValue s value meaning = .ok v) : meaning = some v := by
  unfold namedValue at h
  cases meaning with
  | some w => exact congrArg some (Except.ok.inj h)
  | none =>
    dsimp only at h
    split at h <;> nomatch h

theorem Holds.addPattern (h : Holds a given) (pattern : String) :
    Holds (a.addPattern pattern) (given ++ [(none, pattern)]) := by
  obtain ⟨hpatterns, hignore, hbase, htitle, heol⟩ := h
  unfold Arguments.addPattern
  constructor <;> simp [valuesAt_concat_self, valuesAt_concat_of_ne, *]

theorem Holds.turnOn (h : Holds a given) {s : Switch} (hset : a.turnOn s = .ok a') :
    Holds a' given := by
  unfold Arguments.turnOn at hset
  split at hset
  · nomatch hset
  · obtain rfl := Except.ok.inj hset
    exact ⟨h.patterns, h.ignore, h.base, h.titleLevel, h.eol⟩

/-- A setting gets the value given to it, and all others keep theirs. -/
theorem Holds.set (h : Holds a given) {s : Setting} {value : String}
    (hset : a.set s value = .ok a') : Holds a' (given ++ [(some s, value)]) := by
  obtain ⟨hpatterns, hignore, hbase, htitle, heol⟩ := h
  cases s with
  | ignore =>
    obtain rfl := Except.ok.inj hset
    constructor <;> simp [valuesAt_concat_self, valuesAt_concat_of_ne, *]
  | cwd | config | format | output =>
    obtain ⟨v, -, rfl⟩ := Disk.map_eq_ok hset
    constructor <;> simp [valuesAt_concat_of_ne, *]
  | base =>
    obtain ⟨v, hv, rfl⟩ := Disk.map_eq_ok hset
    obtain ⟨hold, w, hw, rfl⟩ := once_eq_ok hv
    obtain rfl := Except.ok.inj hw
    have hnone : valuesAt (some .base) given = [] := by rw [← hbase, hold, Option.toList_none]
    constructor <;> simp [valuesAt_concat_self, valuesAt_concat_of_ne, *]
  | titleLevel =>
    obtain ⟨v, hv, rfl⟩ := Disk.map_eq_ok hset
    obtain ⟨hold, w, hw, rfl⟩ := once_eq_ok hv
    obtain rfl := Except.ok.inj hw
    have hnone : valuesAt (some .titleLevel) given = [] := by
      rw [← htitle, hold, Option.toList_none]
    constructor <;> simp [valuesAt_concat_self, valuesAt_concat_of_ne, *]
  | eol =>
    obtain ⟨v, hv, rfl⟩ := Disk.map_eq_ok hset
    obtain ⟨hold, w, hw, rfl⟩ := once_eq_ok hv
    have hmeaning := meaning_of_namedValue hw
    have hnone : (valuesAt (some .eol) given).map lineSeparator? = [] := by
      rw [← heol, hold, Option.toList_none, List.map_nil]
    constructor <;> simp [valuesAt_concat_self, valuesAt_concat_of_ne, *]

end Step

/-! ### A whole command line -/

theorem eq_of_checked {a a' : Arguments} (h : a.checked = .ok a') : a' = a := by
  unfold Arguments.checked at h
  split at h
  · nomatch h
  · exact (Except.ok.inj h).symm

/-- **Reading keeps what is given.** -/
theorem Holds.read {a b : Arguments} {given : List Assignment} (h : Holds a given) {ws : List Word}
    (hread : Command.read a ws = .ok (.document b)) : Holds b (given ++ assignments ws) := by
  -- The induction follows the reading: each word that lets it go on adds what it gives, and a word
  -- that ends it leaves no document.
  fun_induction Command.read a ws generalizing given with
  | case1 a =>
    obtain ⟨a', ha', hb⟩ := Disk.map_eq_ok hread
    cases hb
    rw [eq_of_checked ha', assignments, List.append_nil]
    exact h
  | case3 a s rest ih | case4 a s rest ih =>
    rw [assignments, List.append_cons]
    exact ih (h.addPattern s) hread
  | case5 a s value rest ih =>
    obtain ⟨a', ha', hread⟩ := Disk.bind_eq_ok hread
    rw [assignments, List.append_cons]
    exact ih a' (h.set ha') hread
  | case7 a s rest ih =>
    obtain ⟨a', ha', hread⟩ := Disk.bind_eq_ok hread
    rw [assignments]
    exact ih a' (h.turnOn ha') hread
  | case10 a s value rest hrest ih =>
    obtain ⟨a', ha', hread⟩ := Disk.bind_eq_ok hread
    rw [assignments, List.append_cons]
    exact ih a' (h.set ha') hread
  | case2 | case6 | case8 | case9 | case11 => nomatch hread

/-- A command line that asks for a document is read as what its words give. -/
theorem holds_of_parse {arguments : List String} {a : Arguments}
    (h : parse arguments = .ok (.document a)) : Holds a (assignments (words arguments)) :=
  holds_nothing.read h

end CodeNotes.Command
