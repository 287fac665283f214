import CodeNotes.Config.Project
import CodeNotes.Proofs.Disk.Write
import CodeNotes.Proofs.Project.Collect
import CodeNotes.Proofs.Toml.Keys

/-!
# Settings in layers

A setting has up to three sources: what is given besides the document, what the document says under
the setting's name, and a default.  The first of them that has a value decides, for each setting by
itself (`Layer`, `Layered`).  The settings that are read from a document are those with nothing
given besides, and they can be read exactly if every name that is known has an item of the right
kind (`ofDocument_eq_ok_iff`).  Names that are not known do not count (`ofDocument_known`).

Reading goes through the entries of a table in the order in which they stand.  One step sets at most
the setting with the entry's name (`SetsOption`, `SetsField`), and since every name comes once, the
whole run leaves each setting as its own entry says (`layer_of_foldlM`).
-/

namespace CodeNotes

open Toml

/-! ### Items of a kind -/

namespace Toml.Item

/-- An item that is a text. -/
inductive IsText : Item → String → Prop
  | intro (s : String) (span : Span) : IsText (.scalar (.text s) span) s

/-- The members of an item that is a sequence. -/
def members? : Item → Option (List Item)
  | .array items _ => some items
  | .tables elements => some elements
  | _ => none

/-- An item that is a sequence of texts. -/
def IsTexts (item : Item) (l : List String) : Prop :=
  ∃ members, item.members? = some members ∧ List.Forall₂ IsText members l

/-- An item that is a table. -/
def IsTable (item : Item) : Prop :=
  ∃ origin span entries, item = .table origin span entries

theorem rightUnique_isText : Relator.RightUnique IsText := by
  intro item s s' h h'
  cases h
  cases h'
  rfl

theorem rightUnique_isTexts : Relator.RightUnique IsTexts := by
  rintro item l l' ⟨members, hmembers, hl⟩ ⟨members', hmembers', hl'⟩
  obtain rfl := Option.some.inj (hmembers.symm.trans hmembers')
  exact List.right_unique_forall₂' rightUnique_isText hl hl'

end Toml.Item

namespace ProjectConfig

theorem text_eq_ok_iff {key : Span} {item : Item} {s : String} :
    text key item = .ok s ↔ item.IsText s := by
  constructor
  · intro h
    unfold text at h
    split at h
    · next s' span =>
      obtain rfl := Except.ok.inj h
      exact .intro s' span
    · nomatch h
  · rintro ⟨s, span⟩
    rfl

theorem texts_eq_ok_iff {key : Span} {item : Item} {l : List String} :
    texts key item = .ok l ↔ item.IsTexts l := by
  have hmapM : ∀ members, members.mapM (text key) = .ok l ↔
      List.Forall₂ Item.IsText members l := by
    intro members
    rw [Project.mapM_eq_ok_iff]
    simp only [text_eq_ok_iff]
  constructor
  · intro h
    unfold texts at h
    split at h
    · exact ⟨_, rfl, (hmapM _).mp h⟩
    · exact ⟨_, rfl, (hmapM _).mp h⟩
    · nomatch h
  · rintro ⟨members, hmembers, hl⟩
    cases item with
    | array items span =>
      obtain rfl := Option.some.inj hmembers
      exact (hmapM _).mpr hl
    | tables elements =>
      obtain rfl := Option.some.inj hmembers
      exact (hmapM _).mpr hl
    | scalar | table => nomatch hmembers

/-! ### Layers -/

/-- Where the value of a setting comes from: what is given for it, else the item that a document has
under its name, else the default. -/
inductive Layer {α : Type} (Is : Item → α → Prop) (fallback : α) :
    Option α → Option Item → α → Prop
  | given (v : α) (item? : Option Item) : Layer Is fallback (some v) item? v
  | said {item : Item} {v : α} (h : Is item v) : Layer Is fallback none (some item) v
  | fallback : Layer Is fallback none none fallback

/-- What is given besides a document. -/
structure Overrides where
  patterns : Option (List String) := none
  ignore : Option (List String) := none
  base : Option String := none
  titleLevel : Option String := none
  eol : Option String := none

/-- Rendering options in layers: `said?` is what there is under a name. -/
structure LayeredOptions (given : Overrides) (said? : String → Option Item) (o : RenderOptions) :
    Prop where
  base : Layer Item.IsText "." given.base (said? "base") o.base
  titleLevel : Layer Item.IsText "#" given.titleLevel (said? "title_level") o.titleLevel
  eol : Layer Item.IsText "\n" given.eol (said? "eol") o.eol

/-- What a document says under the name of a rendering option. -/
def option? (document : Item) (name : String) : Option Item :=
  (document.get? "render").bind (·.get? name)

/-- Settings in layers, each by itself. -/
structure Layered (given : Overrides) (document : Item) (c : ProjectConfig) : Prop where
  patterns : Layer Item.IsTexts ["**/*.js"] given.patterns (document.get? "patterns") c.patterns
  ignore : Layer Item.IsTexts ["**/node_modules/**"] given.ignore (document.get? "ignore") c.ignore
  render : LayeredOptions given (option? document) c.render

/-- Every name that is known has an item of the right kind. -/
structure RightTypes (document : Item) : Prop where
  patterns {item : Item} (h : document.get? "patterns" = some item) : ∃ l, item.IsTexts l
  ignore {item : Item} (h : document.get? "ignore" = some item) : ∃ l, item.IsTexts l
  render {item : Item} (h : document.get? "render" = some item) : item.IsTable
  options {name : String} (hname : name ∈ ["base", "title_level", "eol"]) {item : Item}
    (h : option? document name = some item) : ∃ s, item.IsText s

section Layer

variable {α : Type} {Is : Item → α → Prop} {fallback v v' : α} {given : Option α}
  {item? : Option Item}

theorem Layer.unique (hIs : Relator.RightUnique Is)
    (h : Layer Is fallback given item? v) (h' : Layer Is fallback given item? v') : v = v' := by
  cases h with
  | given => cases h'; rfl
  | said hv =>
    cases h' with
    | said hv' => exact hIs hv hv'
  | fallback => cases h'; rfl

theorem Layer.is_of_said {item : Item} (h : Layer Is fallback none item? v)
    (hitem : item? = some item) : Is item v := by
  subst hitem
  cases h with
  | said hv => exact hv

theorem Layer.eq_fallback (h : Layer Is fallback none item? v) (hitem : item? = none) :
    v = fallback := by
  subst hitem
  cases h
  rfl

/-- A value with nothing given is what there is where something is given, unless it is replaced. -/
theorem Layer.override (h : Layer Is fallback none item? v) (given : Option α) :
    Layer Is fallback given item? (given.getD v) := by
  cases given with
  | none => exact h
  | some w => exact .given w item?

/-- There is a value if the item, where there is one, is of the kind. -/
theorem exists_layer (fallback : α) (h : ∀ item, item? = some item → ∃ v, Is item v) :
    ∃ v, Layer Is fallback none item? v := by
  cases item? with
  | none => exact ⟨fallback, .fallback⟩
  | some item =>
    obtain ⟨v, hv⟩ := h item rfl
    exact ⟨v, .said hv⟩

end Layer

theorem LayeredOptions.unique {given : Overrides} {said? : String → Option Item}
    {o o' : RenderOptions} (h : LayeredOptions given said? o) (h' : LayeredOptions given said? o') :
    o = o' := by
  have hbase := h.base.unique Item.rightUnique_isText h'.base
  have htitle := h.titleLevel.unique Item.rightUnique_isText h'.titleLevel
  have heol := h.eol.unique Item.rightUnique_isText h'.eol
  cases o
  cases o'
  cases hbase
  cases htitle
  cases heol
  rfl

theorem Layered.unique {given : Overrides} {document : Item} {c c' : ProjectConfig}
    (h : Layered given document c) (h' : Layered given document c') : c = c' := by
  have hpatterns := h.patterns.unique Item.rightUnique_isTexts h'.patterns
  have hignore := h.ignore.unique Item.rightUnique_isTexts h'.ignore
  have hrender := h.render.unique h'.render
  cases c
  cases c'
  cases hpatterns
  cases hignore
  cases hrender
  rfl

/-- A document has settings by itself exactly if the known names have items of the right kind. -/
theorem rightTypes_iff (document : Item) :
    RightTypes document ↔
      (∀ {item}, document.get? "render" = some item → item.IsTable) ∧
        ∃ c, Layered {} document c := by
  constructor
  · intro h
    obtain ⟨patterns, hpatterns⟩ := exists_layer ["**/*.js"] fun _ hitem => h.patterns hitem
    obtain ⟨ignore, hignore⟩ := exists_layer ["**/node_modules/**"] fun _ hitem => h.ignore hitem
    have hoption : ∀ name ∈ ["base", "title_level", "eol"], ∀ fallback,
        ∃ s, Layer Item.IsText fallback none (option? document name) s :=
      fun _ hname fallback => exists_layer fallback fun _ hitem => h.options hname hitem
    obtain ⟨base, hbase⟩ := hoption "base" (by simp) "."
    obtain ⟨titleLevel, htitle⟩ := hoption "title_level" (by simp) "#"
    obtain ⟨eol, heol⟩ := hoption "eol" (by simp) "\n"
    exact ⟨h.render, ⟨patterns, ignore, eol, titleLevel, base⟩, hpatterns, hignore, hbase, htitle,
      heol⟩
  · rintro ⟨htable, c, hc⟩
    refine ⟨fun h => ⟨_, hc.patterns.is_of_said h⟩, fun h => ⟨_, hc.ignore.is_of_said h⟩, htable,
      fun hname item h => ?_⟩
    simp only [List.mem_cons, List.not_mem_nil, or_false] at hname
    rcases hname with rfl | rfl | rfl
    · exact ⟨_, hc.render.base.is_of_said h⟩
    · exact ⟨_, hc.render.titleLevel.is_of_said h⟩
    · exact ⟨_, hc.render.eol.is_of_said h⟩

/-! ### Entries one after another -/

section Entries

variable {σ ε : Type} {step : σ → Key × Item → Except ε σ} {entries : List (Key × Item)}

/-- The item under a name among entries. -/
def under (entries : List (Key × Item)) (name : String) : Option Item :=
  (entries.find? fun e => e.1.name == name).map Prod.snd

theorem under_cons_self {key : Key} {item : Item} {name : String} (h : key.name = name) :
    under ((key, item) :: entries) name = some item := by
  have hfind : (key.name == name) = true := beq_iff_eq.mpr h
  simp only [under, List.find?_cons, hfind, Option.map_some]

theorem under_cons_of_ne {key : Key} {item : Item} {name : String} (h : key.name ≠ name) :
    under ((key, item) :: entries) name = under entries name := by
  have hfind : (key.name == name) = false := beq_eq_false_iff_ne.mpr h
  simp only [under, List.find?_cons, hfind]

theorem under_eq_none {name : String} (h : name ∉ entries.map (·.1.name)) :
    under entries name = none := by
  rw [under, Option.map_eq_none_iff, List.find?_eq_none]
  intro e he hname
  exact h (List.mem_map.mpr ⟨e, he, beq_iff_eq.mp hname⟩)

theorem under_of_mem (hnames : (entries.map (·.1.name)).Nodup) {key : Key} {item : Item}
    (h : (key, item) ∈ entries) : under entries key.name = some item := by
  induction entries with
  | nil => nomatch h
  | cons e entries ih =>
    rw [List.map_cons, List.nodup_cons] at hnames
    rcases List.mem_cons.mp h with rfl | h
    · exact under_cons_self rfl
    · rw [under_cons_of_ne, ih hnames.2 h]
      intro hname
      exact hnames.1 (List.mem_map.mpr ⟨(key, item), h, hname.symm⟩)

/-- **Each setting is as its own entry says.**  If a step sets what `get` shows to what its item is
under one name, and leaves it under all others, then a run over entries with different names sets it
to what the item under the name is, or leaves it. -/
theorem layer_of_foldlM {α : Type} {Is : Item → α → Prop} {name : String} (get : σ → α)
    (hset : ∀ {s s' key item}, step s (key, item) = .ok s' → key.name = name → Is item (get s'))
    (hkeep : ∀ {s s' key item}, step s (key, item) = .ok s' → key.name ≠ name → get s' = get s)
    (hnames : (entries.map (·.1.name)).Nodup) {s s' : σ} (h : entries.foldlM step s = .ok s') :
    Layer Is (get s) none (under entries name) (get s') := by
  induction entries generalizing s with
  | nil =>
    obtain rfl := Except.ok.inj h
    exact .fallback
  | cons e entries ih =>
    obtain ⟨key, item⟩ := e
    rw [List.map_cons, List.nodup_cons] at hnames
    rw [List.foldlM_cons] at h
    obtain ⟨s₁, hstep, h⟩ := Disk.bind_eq_ok h
    have hrest := ih hnames.2 h
    by_cases hname : key.name = name
    · -- The name does not come again, so what was set here stays.
      rw [under_cons_self hname, hrest.eq_fallback (under_eq_none (hname ▸ hnames.1))]
      exact .said (hset hstep hname)
    · -- Another setting's entry: what the step starts from is what the rest starts from.
      rw [under_cons_of_ne hname, ← hkeep hstep hname]
      exact hrest

theorem exists_foldlM (hstep : ∀ s, ∀ e ∈ entries, ∃ s', step s e = .ok s') (s : σ) :
    ∃ s', entries.foldlM step s = .ok s' := by
  induction entries generalizing s with
  | nil => exact ⟨s, rfl⟩
  | cons e entries ih =>
    obtain ⟨s₁, h₁⟩ := hstep s e List.mem_cons_self
    obtain ⟨s', h'⟩ := ih (fun s e he => hstep s e (List.mem_cons_of_mem _ he)) s₁
    refine ⟨s', ?_⟩
    rw [List.foldlM_cons, h₁]
    exact h'

end Entries

/-! ### One entry -/

/-- The names of the rendering options. -/
def optionNames : List String := ["eol", "title_level", "base"]

/-- The names of the settings. -/
def settingNames : List String := ["patterns", "ignore", "render"]

/-- What one entry of a table of rendering options does. -/
inductive SetsOption (o : RenderOptions) : Key × Item → RenderOptions → Prop
  | eol {key : Key} {item : Item} {s : String} (hname : key.name = "eol") (hitem : item.IsText s) :
      SetsOption o (key, item) { o with eol := s }
  | titleLevel {key : Key} {item : Item} {s : String} (hname : key.name = "title_level")
      (hitem : item.IsText s) : SetsOption o (key, item) { o with titleLevel := s }
  | base {key : Key} {item : Item} {s : String} (hname : key.name = "base")
      (hitem : item.IsText s) : SetsOption o (key, item) { o with base := s }
  | unknown {key : Key} {item : Item} (hname : key.name ∉ optionNames) : SetsOption o (key, item) o

theorem setOption_eq_ok_iff {o o' : RenderOptions} {e : Key × Item} :
    setOption o e = .ok o' ↔ SetsOption o e o' := by
  obtain ⟨key, item⟩ := e
  constructor
  · intro h
    unfold setOption at h
    dsimp only at h
    split at h
    · next hname =>
      obtain ⟨s, hs, rfl⟩ := Disk.map_eq_ok h
      exact .eol hname (text_eq_ok_iff.mp hs)
    · next hname =>
      obtain ⟨s, hs, rfl⟩ := Disk.map_eq_ok h
      exact .titleLevel hname (text_eq_ok_iff.mp hs)
    · next hname =>
      obtain ⟨s, hs, rfl⟩ := Disk.map_eq_ok h
      exact .base hname (text_eq_ok_iff.mp hs)
    · next heol htitle hbase =>
      obtain rfl := Except.ok.inj h
      refine .unknown ?_
      simp only [optionNames, List.mem_cons, List.not_mem_nil, or_false, not_or]
      exact ⟨heol, htitle, hbase⟩
  · intro h
    unfold setOption
    cases h with
    | eol hname hitem => simp only [hname, text_eq_ok_iff.mpr hitem, Except.map]
    | titleLevel hname hitem => simp only [hname, text_eq_ok_iff.mpr hitem, Except.map]
    | base hname hitem => simp only [hname, text_eq_ok_iff.mpr hitem, Except.map]
    | unknown hname =>
      simp only [optionNames, List.mem_cons, List.not_mem_nil, or_false, not_or] at hname
      obtain ⟨heol, htitle, hbase⟩ := hname
      dsimp only
      split
      · next h => exact absurd h heol
      · next h => exact absurd h htitle
      · next h => exact absurd h hbase
      · rfl

/-- An entry sets the option with its name and no other one. -/
theorem SetsOption.sets {o o' : RenderOptions} {key : Key} {item : Item}
    (h : SetsOption o (key, item) o') :
    (key.name = "base" → item.IsText o'.base) ∧ (key.name ≠ "base" → o'.base = o.base) ∧
    (key.name = "title_level" → item.IsText o'.titleLevel) ∧
    (key.name ≠ "title_level" → o'.titleLevel = o.titleLevel) ∧
    (key.name = "eol" → item.IsText o'.eol) ∧ (key.name ≠ "eol" → o'.eol = o.eol) := by
  cases h with
  | eol hname hitem => simp [hname, hitem]
  | titleLevel hname hitem => simp [hname, hitem]
  | base hname hitem => simp [hname, hitem]
  | unknown hname =>
    simp only [optionNames, List.mem_cons, List.not_mem_nil, or_false, not_or] at hname
    simp [hname]

/-- What one entry of a document does. -/
inductive SetsField (c : ProjectConfig) : Key × Item → ProjectConfig → Prop
  | patterns {key : Key} {item : Item} {l : List String} (hname : key.name = "patterns")
      (hitem : item.IsTexts l) : SetsField c (key, item) { c with patterns := l }
  | ignore {key : Key} {item : Item} {l : List String} (hname : key.name = "ignore")
      (hitem : item.IsTexts l) : SetsField c (key, item) { c with ignore := l }
  | render {key : Key} {item : Item} {o : RenderOptions} (hname : key.name = "render")
      (hitem : options key.span item = .ok o) : SetsField c (key, item) { c with render := o }
  | unknown {key : Key} {item : Item} (hname : key.name ∉ settingNames) :
      SetsField c (key, item) c

theorem setField_eq_ok_iff {c c' : ProjectConfig} {e : Key × Item} :
    setField c e = .ok c' ↔ SetsField c e c' := by
  obtain ⟨key, item⟩ := e
  constructor
  · intro h
    unfold setField at h
    dsimp only at h
    split at h
    · next hname =>
      obtain ⟨l, hl, rfl⟩ := Disk.map_eq_ok h
      exact .patterns hname (texts_eq_ok_iff.mp hl)
    · next hname =>
      obtain ⟨l, hl, rfl⟩ := Disk.map_eq_ok h
      exact .ignore hname (texts_eq_ok_iff.mp hl)
    · next hname =>
      obtain ⟨o, ho, rfl⟩ := Disk.map_eq_ok h
      exact .render hname ho
    · next hpatterns hignore hrender =>
      obtain rfl := Except.ok.inj h
      refine .unknown ?_
      simp only [settingNames, List.mem_cons, List.not_mem_nil, or_false, not_or]
      exact ⟨hpatterns, hignore, hrender⟩
  · intro h
    unfold setField
    cases h with
    | patterns hname hitem => simp only [hname, texts_eq_ok_iff.mpr hitem, Except.map]
    | ignore hname hitem => simp only [hname, texts_eq_ok_iff.mpr hitem, Except.map]
    | render hname hitem => simp only [hname, hitem, Except.map]
    | unknown hname =>
      simp only [settingNames, List.mem_cons, List.not_mem_nil, or_false, not_or] at hname
      obtain ⟨hpatterns, hignore, hrender⟩ := hname
      dsimp only
      split
      · next h => exact absurd h hpatterns
      · next h => exact absurd h hignore
      · next h => exact absurd h hrender
      · rfl

/-- An entry sets the setting with its name and no other one. -/
theorem SetsField.sets {c c' : ProjectConfig} {key : Key} {item : Item}
    (h : SetsField c (key, item) c') :
    (key.name = "patterns" → item.IsTexts c'.patterns) ∧
    (key.name ≠ "patterns" → c'.patterns = c.patterns) ∧
    (key.name = "ignore" → item.IsTexts c'.ignore) ∧
    (key.name ≠ "ignore" → c'.ignore = c.ignore) ∧
    (key.name = "render" → ∃ span, options span item = .ok c'.render) ∧
    (key.name ≠ "render" → c'.render = c.render) := by
  cases h with
  | patterns hname hitem => simp [hname, hitem]
  | ignore hname hitem => simp [hname, hitem]
  | render hname hitem => simpa [hname] using ⟨_, hitem⟩
  | unknown hname =>
    simp only [settingNames, List.mem_cons, List.not_mem_nil, or_false, not_or] at hname
    simp [hname]

/-! ### Whole tables -/

theorem layeredOptions_of_foldlM {entries : List (Key × Item)} {o : RenderOptions}
    (hnames : (entries.map (·.1.name)).Nodup) (h : entries.foldlM setOption {} = .ok o) :
    LayeredOptions {} (under entries) o where
  base := layer_of_foldlM (·.base) (fun hstep => (setOption_eq_ok_iff.mp hstep).sets.1)
    (fun hstep => (setOption_eq_ok_iff.mp hstep).sets.2.1) hnames h
  titleLevel := layer_of_foldlM (·.titleLevel)
    (fun hstep => (setOption_eq_ok_iff.mp hstep).sets.2.2.1)
    (fun hstep => (setOption_eq_ok_iff.mp hstep).sets.2.2.2.1) hnames h
  eol := layer_of_foldlM (·.eol)
    (fun hstep => (setOption_eq_ok_iff.mp hstep).sets.2.2.2.2.1)
    (fun hstep => (setOption_eq_ok_iff.mp hstep).sets.2.2.2.2.2) hnames h

/-- Rendering options can be read from a table whose known names have texts. -/
theorem exists_setOption {entries : List (Key × Item)} {o : RenderOptions}
    (hnames : (entries.map (·.1.name)).Nodup) (h : LayeredOptions {} (under entries) o)
    (s : RenderOptions) : ∀ e ∈ entries, ∃ s', setOption s e = .ok s' := by
  rintro ⟨key, item⟩ he
  have hunder := under_of_mem hnames he
  by_cases hname : key.name ∈ optionNames
  · simp only [optionNames, List.mem_cons, List.not_mem_nil, or_false] at hname
    rcases hname with hname | hname | hname
    · rw [hname] at hunder
      exact ⟨_, setOption_eq_ok_iff.mpr (.eol hname (h.eol.is_of_said hunder))⟩
    · rw [hname] at hunder
      exact ⟨_, setOption_eq_ok_iff.mpr (.titleLevel hname (h.titleLevel.is_of_said hunder))⟩
    · rw [hname] at hunder
      exact ⟨_, setOption_eq_ok_iff.mpr (.base hname (h.base.is_of_said hunder))⟩
  · exact ⟨s, setOption_eq_ok_iff.mpr (.unknown hname)⟩

/-- The rendering options of an item that is no sequence: it has to be a table, and each option is
what the table says, or its default. -/
theorem options_eq_ok_iff {key : Span} {item : Item} (hkeyed : item.Keyed)
    (hlist : item.members? = none) {o : RenderOptions} :
    options key item = .ok o ↔ item.IsTable ∧ LayeredOptions {} item.get? o := by
  cases item with
  | array | tables => nomatch hlist
  | scalar value span =>
    refine ⟨fun h => (nomatch h), fun h => ?_⟩
    obtain ⟨⟨origin, span, entries, htable⟩, -⟩ := h
    nomatch htable
  | table origin span entries =>
    have hnames := hkeyed.entries.names
    constructor
    · intro h
      exact ⟨⟨origin, span, entries, rfl⟩, layeredOptions_of_foldlM hnames h⟩
    · rintro ⟨-, hlayered⟩
      obtain ⟨o', ho'⟩ := exists_foldlM (exists_setOption hnames hlayered) {}
      rw [hlayered.unique (layeredOptions_of_foldlM hnames ho')]
      exact ho'

/-- The rendering options of a document, once its settings have been gone through. -/
theorem layeredOptions_of_layer {document : Item} (hkeyed : document.Keyed)
    (hlist : ∀ {item}, document.get? "render" = some item → item.members? = none)
    {o : RenderOptions} (h : Layer (fun item o => ∃ span, options span item = .ok o) {} none
      (document.get? "render") o) :
    (∀ {item}, document.get? "render" = some item → item.IsTable) ∧
      LayeredOptions {} (option? document) o := by
  unfold option?
  cases hrender : document.get? "render" with
  | none =>
    rw [h.eq_fallback hrender]
    exact ⟨fun hitem => (nomatch hitem), .fallback, .fallback, .fallback⟩
  | some item =>
    obtain ⟨span, hoptions⟩ := h.is_of_said hrender
    obtain ⟨htable, hlayered⟩ :=
      (options_eq_ok_iff (hkeyed.get? hrender) (hlist hrender)).mp hoptions
    refine ⟨fun hitem => ?_, hlayered⟩
    rw [← Option.some.inj hitem]
    exact htable

theorem layered_of_ofDocument {document : Item} (hkeyed : document.Keyed)
    (hlist : ∀ {item}, document.get? "render" = some item → item.members? = none)
    {c : ProjectConfig} (h : ofDocument document = .ok c) :
    (∀ {item}, document.get? "render" = some item → item.IsTable) ∧ Layered {} document c := by
  have hnames := hkeyed.entries.names
  have hpatterns : Layer Item.IsTexts ["**/*.js"] none (document.get? "patterns") c.patterns :=
    layer_of_foldlM (·.patterns) (fun hstep => (setField_eq_ok_iff.mp hstep).sets.1)
      (fun hstep => (setField_eq_ok_iff.mp hstep).sets.2.1) hnames h
  have hignore : Layer Item.IsTexts ["**/node_modules/**"] none (document.get? "ignore") c.ignore :=
    layer_of_foldlM (·.ignore) (fun hstep => (setField_eq_ok_iff.mp hstep).sets.2.2.1)
      (fun hstep => (setField_eq_ok_iff.mp hstep).sets.2.2.2.1) hnames h
  have hrender : Layer (fun item o => ∃ span, options span item = .ok o) {} none
      (document.get? "render") c.render :=
    layer_of_foldlM (·.render) (fun hstep => (setField_eq_ok_iff.mp hstep).sets.2.2.2.2.1)
      (fun hstep => (setField_eq_ok_iff.mp hstep).sets.2.2.2.2.2) hnames h
  obtain ⟨htable, hoptions⟩ := layeredOptions_of_layer hkeyed hlist hrender
  exact ⟨htable, hpatterns, hignore, hoptions⟩

/-- Settings can be read from a document whose known names have items of the right kind. -/
theorem exists_setField {document : Item} (hkeyed : document.Keyed)
    (hlist : ∀ {item}, document.get? "render" = some item → item.members? = none)
    (htable : ∀ {item}, document.get? "render" = some item → item.IsTable) {c : ProjectConfig}
    (h : Layered {} document c) (s : ProjectConfig) :
    ∀ e ∈ document.entries, ∃ s', setField s e = .ok s' := by
  rintro ⟨key, item⟩ he
  have hunder : document.get? key.name = some item := under_of_mem hkeyed.entries.names he
  by_cases hname : key.name ∈ settingNames
  · simp only [settingNames, List.mem_cons, List.not_mem_nil, or_false] at hname
    rcases hname with hname | hname | hname
    · rw [hname] at hunder
      exact ⟨_, setField_eq_ok_iff.mpr (.patterns hname (h.patterns.is_of_said hunder))⟩
    · rw [hname] at hunder
      exact ⟨_, setField_eq_ok_iff.mpr (.ignore hname (h.ignore.is_of_said hunder))⟩
    · rw [hname] at hunder
      have hlayered : LayeredOptions {} item.get? c.render := by
        have hrender := h.render
        unfold option? at hrender
        rwa [hunder] at hrender
      have hoptions : options key.span item = .ok c.render :=
        (options_eq_ok_iff (hkeyed.get? hunder) (hlist hunder)).mpr ⟨htable hunder, hlayered⟩
      exact ⟨_, setField_eq_ok_iff.mpr (.render hname hoptions)⟩
  · exact ⟨s, setField_eq_ok_iff.mpr (.unknown hname)⟩

/-- **A document is read setting by setting.**  Where the rendering options are not given as a
sequence, settings are read exactly if the known names have items of the right kind, and they are
those that the document says, or their defaults. -/
theorem ofDocument_eq_ok_iff {document : Item} (hkeyed : document.Keyed)
    (hlist : ∀ {item}, document.get? "render" = some item → item.members? = none)
    {c : ProjectConfig} :
    ofDocument document = .ok c ↔ RightTypes document ∧ Layered {} document c := by
  constructor
  · intro h
    obtain ⟨htable, hlayered⟩ := layered_of_ofDocument hkeyed hlist h
    exact ⟨(rightTypes_iff document).mpr ⟨htable, c, hlayered⟩, hlayered⟩
  · rintro ⟨htypes, hlayered⟩
    -- The run over the entries ends somewhere, and there is only one place where it can.
    obtain ⟨c', hc'⟩ := exists_foldlM (exists_setField hkeyed hlist htypes.render hlayered) {}
    rw [hlayered.unique (layered_of_ofDocument hkeyed hlist hc').2]
    exact hc'

/-! ### Names that are not known -/

/-- Rendering options without the names that are not known. -/
def knownOptions : Item → Item
  | .table origin span entries => .table origin span (entries.filter (·.1.name ∈ optionNames))
  | other => other

/-- A document without the names that are not known, also among the rendering options. -/
def known : Item → Item
  | .table origin span entries =>
    .table origin span ((entries.filter (·.1.name ∈ settingNames)).map fun e =>
      (e.1, if e.1.name = "render" then knownOptions e.2 else e.2))
  | other => other

theorem foldlM_filter_of_skip {σ ε : Type} {step : σ → Key × Item → Except ε σ}
    {test : Key × Item → Bool} (hskip : ∀ s e, test e = false → step s e = .ok s)
    (entries : List (Key × Item)) (s : σ) :
    (entries.filter test).foldlM step s = entries.foldlM step s := by
  rw [List.foldlM_filter]
  congr 1
  funext s e
  split
  · rfl
  · next htest => exact (hskip s e (Bool.not_eq_true _ ▸ htest)).symm

theorem options_knownOptions (key : Span) (item : Item) :
    options key (knownOptions item) = options key item := by
  cases item with
  | scalar | array | tables => rfl
  | table origin span entries =>
    refine foldlM_filter_of_skip (fun o e htest => ?_) entries ({} : RenderOptions)
    exact setOption_eq_ok_iff.mpr (.unknown (of_decide_eq_false htest))

theorem setField_knownOptions (c : ProjectConfig) (e : Key × Item) :
    setField c (e.1, if e.1.name = "render" then knownOptions e.2 else e.2) = setField c e := by
  split
  · next hname =>
    unfold setField
    simp only [hname, options_knownOptions]
  · rfl

/-- **Names that are not known change nothing**, not even the report on an item of the wrong
kind. -/
theorem ofDocument_known (document : Item) : ofDocument (known document) = ofDocument document := by
  cases document with
  | scalar | array | tables => rfl
  | table origin span entries =>
    unfold ofDocument known
    dsimp only [Item.entries]
    rw [List.foldlM_map]
    simp only [setField_knownOptions]
    refine foldlM_filter_of_skip (fun c e htest => ?_) entries ({} : ProjectConfig)
    exact setField_eq_ok_iff.mpr (.unknown (of_decide_eq_false htest))

end ProjectConfig

end CodeNotes
