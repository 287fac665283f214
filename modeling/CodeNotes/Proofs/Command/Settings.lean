import CodeNotes.Proofs.Command.Arguments
import CodeNotes.Proofs.Command.Run
import CodeNotes.Proofs.Config.Layers
import CodeNotes.Proofs.Project.Union

/-!
# The settings of a run

A run takes its settings from the command line, from a file and from defaults, for each setting by
itself (`Layered`).  The options are looked at twice: as the file has them, and once more with what
the command line says on top.  Where either look fails, the run ends before any file is looked for:
its failure is the same wherever files come from (`makeFrom`), and no other failure has its code
(`settings_layer_by_layer`).
-/

namespace CodeNotes

open Toml

/-! ### The file with the settings -/

namespace ProjectConfig

variable {disk : Disk} {path : Path} {document document' : Item} {c : ProjectConfig}

/-- The document in which settings are looked up: the one in the file, or one that says nothing if
there is no such file. -/
inductive Consulted (disk : Disk) (path : Path) : Item → Prop
  | missing (hread : disk.readText path = .error .notFound) :
      Consulted disk path (.table .header none [])
  | read {source : String} {document : Item} (hread : disk.readText path = .ok source)
      (hparse : Toml.parse? source = some document) : Consulted disk path document

/-- Why the settings in a file cannot be used, whatever else is given. -/
inductive Unusable (disk : Disk) (path : Path) : Prop
  | unreadable {fault : Disk.Fault} (hread : disk.readText path = .error fault)
      (hfault : fault ≠ .notFound)
  | malformed {source : String} (hread : disk.readText path = .ok source)
      (hparse : Toml.parse? source = none)
  | wrongTypes {document : Item} (hdocument : Consulted disk path document)
      (htypes : ¬RightTypes document)
  | badOptions {document : Item} {c : ProjectConfig} (hdocument : Consulted disk path document)
      (hlayered : Layered {} document c) (hoptions : c.render.validate ≠ .ok ())

theorem Consulted.keyed (h : Consulted disk path document) : document.Keyed := by
  cases h with
  | missing => exact Item.keyed_empty _ _
  | read hread hparse => exact keyed_of_parse? hparse

theorem Consulted.unique (h : Consulted disk path document) (h' : Consulted disk path document') :
    document = document' := by
  cases h with
  | missing hread =>
    cases h' with
    | missing => rfl
    | read hread' => nomatch hread.symm.trans hread'
  | read hread hparse =>
    cases h' with
    | missing hread' => nomatch hread.symm.trans hread'
    | read hread' hparse' =>
      obtain rfl := Except.ok.inj (hread.symm.trans hread')
      exact Option.some.inj (hparse.symm.trans hparse')

/-- Settings are loaded from a document that can be consulted if they can be read from it and its
options are valid. -/
theorem load_eq_ok_iff (h : Consulted disk path document) :
    load disk path = .ok c ↔ ofDocument document = .ok c ∧ c.render.validate = .ok () := by
  unfold load
  cases h with
  | missing hread =>
    rw [hread]
    have hnothing : ofDocument (.table .header none []) = .ok {} := rfl
    rw [hnothing]
    refine ⟨fun hc => ?_, fun hc => congrArg Except.ok (Except.ok.inj hc.1)⟩
    obtain rfl := Except.ok.inj hc
    exact ⟨rfl, rfl⟩
  | read hread hparse =>
    rw [hread]
    dsimp only [parse]
    rw [hparse]
    dsimp only
    cases ofDocument document with
    | error m => simp
    | ok c' =>
      dsimp only
      cases hvalid : c'.render.validate with
      | error fault =>
        refine ⟨fun hc => (nomatch hc), fun hc => ?_⟩
        obtain rfl := Except.ok.inj hc.1
        nomatch hvalid.symm.trans hc.2
      | ok valid =>
        cases valid
        refine ⟨fun hc => ?_, fun hc => congrArg Except.ok (Except.ok.inj hc.1)⟩
        obtain rfl := Except.ok.inj hc
        exact ⟨rfl, hvalid⟩

section Load

variable (hlist : ∀ {document item}, Consulted disk path document →
  document.get? "render" = some item → item.members? = none)

include hlist

/-- Settings that can be used are loaded layer by layer. -/
theorem exists_load (h : ¬Unusable disk path) :
    ∃ document c, Consulted disk path document ∧ Layered {} document c ∧
      load disk path = .ok c := by
  have hconsulted : ∃ document, Consulted disk path document := by
    cases hread : disk.readText path with
    | error fault =>
      by_cases hfault : fault = .notFound
      · exact ⟨_, .missing (hfault ▸ hread)⟩
      · exact absurd (.unreadable hread hfault) h
    | ok source =>
      cases hparse : Toml.parse? source with
      | none => exact absurd (.malformed hread hparse) h
      | some document => exact ⟨document, .read hread hparse⟩
  obtain ⟨document, hdocument⟩ := hconsulted
  have htypes : RightTypes document := by
    by_contra htypes
    exact h (.wrongTypes hdocument htypes)
  obtain ⟨-, c, hc⟩ := (rightTypes_iff document).mp htypes
  have hvalid : c.render.validate = .ok () := by
    by_contra hvalid
    exact h (.badOptions hdocument hc hvalid)
  refine ⟨document, c, hdocument, hc, (load_eq_ok_iff hdocument).mpr ⟨?_, hvalid⟩⟩
  exact (ofDocument_eq_ok_iff hdocument.keyed (hlist hdocument)).mpr ⟨htypes, hc⟩

/-- Settings that cannot be used are not loaded. -/
theorem load_ne_ok (h : Unusable disk path) : load disk path ≠ .ok c := by
  intro hload
  -- What has been loaded comes from a document, so there is one, and it is read field by field.
  have hread : ∀ {document}, Consulted disk path document →
      RightTypes document ∧ Layered {} document c ∧ c.render.validate = .ok () := by
    intro document hdocument
    obtain ⟨hc, hvalid⟩ := (load_eq_ok_iff hdocument).mp hload
    obtain ⟨htypes, hlayered⟩ :=
      (ofDocument_eq_ok_iff hdocument.keyed (hlist hdocument)).mp hc
    exact ⟨htypes, hlayered, hvalid⟩
  cases h with
  | @unreadable fault hfault hne =>
    unfold load at hload
    rw [hfault] at hload
    cases fault <;> first | exact absurd rfl hne | nomatch hload
  | malformed hsource hparse =>
    unfold load at hload
    rw [hsource] at hload
    dsimp only [parse] at hload
    rw [hparse] at hload
    nomatch hload
  | wrongTypes hdocument htypes => exact htypes (hread hdocument).1
  | badOptions hdocument hlayered hoptions =>
    obtain ⟨-, hc, hvalid⟩ := hread hdocument
    rw [hlayered.unique hc] at hoptions
    exact hoptions hvalid

end Load

end ProjectConfig

/-! ### Failures of a project -/

namespace Selection

theorem resolve_eq_error [Ignore.Engine] {disk : Disk} {patterns ignore : List String} {dir : Path}
    {failure : Failure} (h : resolve disk patterns ignore dir = .error failure) :
    ∃ pattern fault, failure = .pattern pattern fault := by
  unfold resolve at h
  cases hignoring : ignoring ignore with
  | error failure' =>
    rw [hignoring] at h
    obtain rfl := Except.error.inj h
    have hblames : Blames disk patterns ignore dir failure' := blames_of_ignoring hignoring
    cases hblames <;> exact ⟨_, _, rfl⟩
  | ok ignored =>
    rw [hignoring] at h
    dsimp only [Except.bind] at h
    split at h
    · exact ⟨_, _, (Except.error.inj h).symm⟩
    · nomatch h

end Selection

namespace Project

/-- Looking for files and reading them never fails for the settings. -/
theorem code_of_collect_eq_error [Ignore.Engine] {disk : Disk} {dir : Path}
    {patterns ignore : List String} {failure : Failure}
    (h : collect (.ofDisk disk) dir patterns ignore = .error failure) :
    failure.code ≠ "E_BAD_CONFIG" := by
  cases hresolve : (FileSource.ofDisk disk).resolve patterns ignore dir with
  | error failure' =>
    unfold collect at h
    rw [hresolve] at h
    obtain rfl := Except.error.inj h
    obtain ⟨pattern, fault, rfl⟩ := Selection.resolve_eq_error hresolve
    simp [Failure.code]
  | ok paths =>
    obtain ⟨before, path, after, -, -, hfails⟩ := (collect_eq_error_iff hresolve).mp h
    cases hfails <;> simp [Failure.code]

end Project

namespace Command

open ProjectConfig

variable {disk : Disk} {a : Arguments} {arguments : List String} {dir path : Path}
  {c : ProjectConfig}

/-! ### The command line -/

/-- A list that has been given at all. -/
def nonempty? (l : List String) : Option (List String) :=
  if l.isEmpty then none else some l

/-- What a command line says about settings. -/
def overrides (arguments : List String) : Overrides :=
  let given := assignments (words arguments)
  { patterns := nonempty? (valuesAt none given)
    ignore := nonempty? (valuesAt (some .ignore) given)
    base := (valuesAt (some .base) given).head?
    titleLevel := (valuesAt (some .titleLevel) given).head?
    eol := (valuesAt (some .eol) given).head?.bind lineSeparator? }

theorem overrides_eq (h : parse arguments = .ok (.document a)) :
    overrides arguments =
      ⟨nonempty? a.patterns, nonempty? a.ignore, a.base, a.titleLevel, a.eol⟩ := by
  have hholds := holds_of_parse h
  have heol : (valuesAt (some .eol) (assignments (words arguments))).head?.bind lineSeparator? =
      a.eol := by
    have hhead := congrArg List.head? hholds.eol
    rw [List.head?_map, List.head?_map, Option.head?_toList] at hhead
    calc _ = (Option.map lineSeparator? _).bind id := Option.bind_map.symm
      _ = (a.eol.map some).bind id := by rw [hhead]
      _ = a.eol := by cases a.eol <;> rfl
  unfold overrides
  dsimp only
  rw [← hholds.patterns, ← hholds.ignore, ← hholds.base, ← hholds.titleLevel,
    Option.head?_toList, Option.head?_toList, heol]

theorem getD_nonempty? (l l' : List String) :
    (nonempty? l).getD l' = if l.isEmpty then l' else l := by
  unfold nonempty?
  split <;> rfl

/-- The command line goes on top of the settings that a document has by itself. -/
theorem layered_of_parse {document : Item} (h : parse arguments = .ok (.document a))
    (hc : Layered {} document c) : Layered (overrides arguments) document (layered a c) := by
  rw [overrides_eq h]
  refine ⟨?_, ?_, ?_, ?_, ?_⟩
  · unfold layered
    rw [← getD_nonempty?]
    exact hc.patterns.override _
  · unfold layered
    dsimp only
    rw [← getD_nonempty? a.ignore]
    exact hc.ignore.override _
  · exact hc.render.base.override _
  · exact hc.render.titleLevel.override _
  · exact hc.render.eol.override _

/-! ### Settings and the document -/

/-- Where settings are looked up: a file that is asked for has to be there. -/
inductive ConfigFile (disk : Disk) (a : Arguments) (dir : Path) : Path → Prop
  | default (h : a.config = none) : ConfigFile disk a dir (dir.push configFileName)
  | given {path : Path} (h : a.config = some path) (hpresent : disk.present path = true) :
      ConfigFile disk a dir path

theorem configPath_eq_ok_iff : configPath disk a dir = .ok path ↔ ConfigFile disk a dir path := by
  unfold configPath
  constructor
  · intro h
    split at h
    · next hconfig =>
      obtain rfl := Except.ok.inj h
      exact .default hconfig
    · next given hconfig =>
      split at h
      · next hpresent =>
        obtain rfl := Except.ok.inj h
        exact .given hconfig hpresent
      · nomatch h
  · intro h
    cases h with
    | default hconfig => rw [hconfig]
    | given hconfig hpresent =>
      rw [hconfig]
      exact if_pos hpresent

theorem configPath_eq_error_iff {fault : RunFault} :
    configPath disk a dir = .error fault ↔
      ∃ path, a.config = some path ∧ disk.present path = false ∧ fault = .noConfig path := by
  unfold configPath
  cases a.config with
  | none => simp
  | some path =>
    cases hpresent : disk.present path with
    | true => simp [hpresent]
    | false =>
      simp only [hpresent, Option.some.injEq, exists_eq_left', true_and]
      exact ⟨fun h => (Except.error.inj h).symm, fun h => congrArg Except.error h.symm⟩

theorem settings_of_configPath_error {fault : RunFault}
    (h : configPath disk a dir = .error fault) : settings disk a dir = .error fault := by
  unfold settings
  rw [h]
  rfl

theorem settings_of_configFile (hpath : ConfigFile disk a dir path) :
    settings disk a dir =
      match load disk path with
      | .ok c => .ok (layered a c)
      | .error fault => .error (.config path fault) := by
  unfold settings
  rw [configPath_eq_ok_iff.mpr hpath]
  rfl

theorem settings_of_load_ok (hpath : ConfigFile disk a dir path) (hload : load disk path = .ok c) :
    settings disk a dir = .ok (layered a c) := by
  rw [settings_of_configFile hpath, hload]

theorem settings_of_load_error {fault : ConfigFault} (hpath : ConfigFile disk a dir path)
    (hload : load disk path = .error fault) :
    settings disk a dir = .error (.config path fault) := by
  rw [settings_of_configFile hpath, hload]

/-- The document of a project whose files come from anywhere. -/
def documentFrom (files : FileSource) (format : Format) (dir : Path) (c : ProjectConfig) :
    Except Failure String :=
  match format with
  | .markdown => Project.build files c.render dir c.patterns c.ignore
  | .json => (Project.notes files c.render dir c.patterns c.ignore).map Document.json

/-- The document that arguments ask for, where the settings come from a disk and the files from
anywhere. -/
def makeFrom (files : FileSource) (disk : Disk) (a : Arguments) : Except RunFault String :=
  (directory disk a).bind fun dir =>
    (settings disk a dir).bind fun c =>
      (documentFrom files (a.format.getD .markdown) dir c).mapError .project

theorem make_eq_makeFrom [Ignore.Engine] (disk : Disk) (a : Arguments) :
    make disk a = makeFrom (.ofDisk disk) disk a := by
  unfold make makeFrom
  congr 1
  funext dir
  congr 1
  funext c
  have hdocument : documentFrom (.ofDisk disk) (a.format.getD .markdown) dir c =
      document disk (a.format.getD .markdown) dir c := rfl
  rw [hdocument]
  cases document disk (a.format.getD .markdown) dir c <;> rfl

/-- The document is made with these settings, wherever files come from. -/
def RunsWith (disk : Disk) (a : Arguments) (dir : Path) (c : ProjectConfig) : Prop :=
  ∀ files, makeFrom files disk a =
    (documentFrom files (a.format.getD .markdown) dir c).mapError .project

/-- No document is made, wherever files come from: the fault is found before any are looked for. -/
def FailsEarly (disk : Disk) (a : Arguments) (fault : RunFault) : Prop :=
  ∀ files, makeFrom files disk a = .error fault

theorem makeFrom_of_directory (files : FileSource) (hdir : directory disk a = .ok dir) :
    makeFrom files disk a = (settings disk a dir).bind fun c =>
      (documentFrom files (a.format.getD .markdown) dir c).mapError .project := by
  unfold makeFrom
  rw [hdir]
  rfl

theorem runsWith_of_settings (hdir : directory disk a = .ok dir)
    (hsettings : settings disk a dir = .ok c) : RunsWith disk a dir c := by
  intro files
  rw [makeFrom_of_directory files hdir, hsettings]
  rfl

theorem failsEarly_of_settings {fault : RunFault} (hdir : directory disk a = .ok dir)
    (hsettings : settings disk a dir = .error fault) : FailsEarly disk a fault := by
  intro files
  rw [makeFrom_of_directory files hdir, hsettings]
  rfl

/-! ### Options that are not valid -/

theorem documentFrom_of_validate_error {fault : RenderOptions.Fault}
    (h : c.render.validate = .error fault) (files : FileSource) (format : Format) (dir : Path) :
    documentFrom files format dir c = .error (.config (.options fault)) := by
  have hnotes : Project.notes files c.render dir c.patterns c.ignore =
      .error (.config (.options fault)) := by
    unfold Project.notes Project.checkOptions
    rw [h]
    rfl
  unfold documentFrom Project.build
  rw [hnotes]
  cases format <;> rfl

theorem collect_of_documentFrom {files : FileSource} {format : Format} {failure : Failure}
    (hvalid : c.render.validate = .ok ())
    (h : documentFrom files format dir c = .error failure) :
    Project.collect files dir c.patterns c.ignore = .error failure := by
  have hnotes : Project.notes files c.render dir c.patterns c.ignore =
      (Project.collect files dir c.patterns c.ignore).map Note.sort := by
    unfold Project.notes Project.checkOptions
    rw [hvalid]
    rfl
  unfold documentFrom Project.build at h
  rw [hnotes] at h
  cases hcollect : Project.collect files dir c.patterns c.ignore with
  | error failure' =>
    rw [hcollect] at h
    cases format <;> exact congrArg Except.error (Except.error.inj h)
  | ok notes =>
    rw [hcollect] at h
    cases format <;> nomatch h

/-! ### Rejection -/

/-- Why a run has no settings: those in the file cannot be used, or the options are not valid once
the command line is on top. -/
inductive Unsettled (disk : Disk) (arguments : List String) (path : Path) : Prop
  | file (h : Unusable disk path)
  | options {document : Item} {c : ProjectConfig} (hdocument : Consulted disk path document)
      (hlayered : Layered (overrides arguments) document c)
      (hoptions : c.render.validate ≠ .ok ())

section Rejection

variable (hparse : parse arguments = .ok (.document a)) (hdir : directory disk a = .ok dir)
  (hlist : ∀ {path document item}, ConfigFile disk a dir path → Consulted disk path document →
    document.get? "render" = some item → item.members? = none)

include hparse hdir hlist

/-- Settings that can be used are those of the layers. -/
theorem exists_runsWith (hpath : ConfigFile disk a dir path) (h : ¬Unusable disk path) :
    ∃ document c, Consulted disk path document ∧ Layered (overrides arguments) document c ∧
      RunsWith disk a dir c := by
  obtain ⟨document, c, hdocument, hc, hload⟩ := exists_load (hlist hpath) h
  exact ⟨document, layered a c, hdocument, layered_of_parse hparse hc,
    runsWith_of_settings hdir (settings_of_load_ok hpath hload)⟩

/-- Without settings a run fails early. -/
theorem failsEarly_of_unsettled (hpath : ConfigFile disk a dir path)
    (h : Unsettled disk arguments path) :
    ∃ fault, fault.code? = some "E_BAD_CONFIG" ∧ FailsEarly disk a fault := by
  -- The file is looked at first, so what is wrong with it counts even where the command line would
  -- replace it.
  by_cases hfile : Unusable disk path
  · cases hload : load disk path with
    | ok c => exact absurd hload (load_ne_ok (hlist hpath) hfile)
    | error fault =>
      exact ⟨.config path fault, rfl,
        failsEarly_of_settings hdir (settings_of_load_error hpath hload)⟩
  · cases h with
    | file h => exact absurd h hfile
    | options hdocument hlayered hoptions =>
      obtain ⟨document', c, hdocument', hlayered', hruns⟩ :=
        exists_runsWith hparse hdir hlist hpath hfile
      obtain rfl := hdocument'.unique hdocument
      obtain rfl := hlayered'.unique hlayered
      cases hvalid : c.render.validate with
      | ok => exact absurd hvalid hoptions
      | error fault =>
        refine ⟨.project (.config (.options fault)), rfl, fun files => ?_⟩
        rw [hruns files, documentFrom_of_validate_error hvalid]
        rfl

/-- No other failure has the code. -/
theorem unsettled_of_makeFrom [Ignore.Engine] {fault : RunFault}
    (h : makeFrom (.ofDisk disk) disk a = .error fault)
    (hcode : fault.code? = some "E_BAD_CONFIG") :
    ∃ path, ConfigFile disk a dir path ∧ Unsettled disk arguments path := by
  cases hpath : configPath disk a dir with
  | error fault' =>
    obtain ⟨path, -, -, rfl⟩ := configPath_eq_error_iff.mp hpath
    have hearly := failsEarly_of_settings hdir (settings_of_configPath_error hpath)
    obtain rfl := Except.error.inj ((hearly _).symm.trans h)
    nomatch hcode
  | ok path =>
    have hconfig := configPath_eq_ok_iff.mp hpath
    refine ⟨path, hconfig, ?_⟩
    by_cases hfile : Unusable disk path
    · exact .file hfile
    · obtain ⟨document, c, hdocument, hlayered, hruns⟩ :=
        exists_runsWith hparse hdir hlist hconfig hfile
      -- With valid options, only looking for files and reading them is left to fail.
      refine .options hdocument hlayered fun hvalid => ?_
      rw [hruns] at h
      cases hfrom : documentFrom (.ofDisk disk) (a.format.getD .markdown) dir c with
      | ok text =>
        rw [hfrom] at h
        nomatch h
      | error failure =>
        rw [hfrom] at h
        obtain rfl := Except.error.inj h
        exact Project.code_of_collect_eq_error (collect_of_documentFrom hvalid hfrom)
          (Option.some.inj hcode)

end Rejection

/-! ### Running -/

theorem produce_of_make_error [Ignore.Engine] {fault : RunFault} (h : make disk a = .error fault) :
    produce disk a = .error fault := by
  unfold produce
  rw [h]
  rfl

/-- A failure with a code comes from making the document. -/
theorem make_of_produce_error [Ignore.Engine] {fault : RunFault} {code : String}
    (h : produce disk a = .error fault) (hcode : fault.code? = some code) :
    make disk a = .error fault := by
  unfold produce at h
  cases hmake : make disk a with
  | error fault' =>
    rw [hmake] at h
    exact congrArg Except.error (Except.error.inj h)
  | ok text =>
    rw [hmake] at h
    dsimp only [Except.bind, deliver] at h
    split at h
    · nomatch h
    · split at h
      · nomatch h
      · obtain rfl := Except.error.inj h
        nomatch hcode

theorem run_of_failsEarly [Ignore.Engine] {fault : RunFault} (filterText : Option String)
    (hparse : parse arguments = .ok (.document a)) (h : FailsEarly disk a fault) :
    (run disk filterText arguments).status = 1 ∧ (run disk filterText arguments).stdout = "" ∧
      (run disk filterText arguments).stderr = (filter filterText a).2 ++ fault.report ∧
      (run disk filterText arguments).disk = disk := by
  have hproduce : produce disk a = .error fault := by
    apply produce_of_make_error
    rw [make_eq_makeFrom]
    exact h _
  unfold run
  rw [hparse]
  dsimp only
  rw [hproduce]
  exact ⟨rfl, rfl, rfl, rfl⟩

/-- Without a file and with none asked for, what is not given is a default. -/
theorem runsWith_of_missing (hparse : parse arguments = .ok (.document a))
    (hdir : directory disk a = .ok dir) (hconfig : a.config = none)
    (hread : disk.readText (dir.push configFileName) = .error .notFound)
    (hc : Layered (overrides arguments) (.table .header none []) c) : RunsWith disk a dir c := by
  have hload : load disk (dir.push configFileName) = .ok {} :=
    (load_eq_ok_iff (.missing hread)).mpr ⟨rfl, rfl⟩
  have hdefault : Layered {} (.table .header none []) {} :=
    ⟨.fallback, .fallback, .fallback, .fallback, .fallback⟩
  rw [hc.unique (layered_of_parse hparse hdefault)]
  exact runsWith_of_settings hdir (settings_of_load_ok (.default hconfig) hload)

/-- **Settings come in layers, and they are checked in both.**  For a command line that asks for a
document in a directory that is there, and a file with settings that does not give the rendering
options as a sequence:

* the run works with what the command line says, else what the file says, else the default, for each
  setting by itself, and names in the file that are not known change nothing;
* it fails with the code of bad settings exactly if the file cannot be read for another reason than
  that it is not found, is malformed, has an item of the wrong kind or options that are not valid,
  or if the options are not valid once the command line is on top; and then it fails before files
  are looked for;
* a file that is not found says nothing, unless it was asked for: then the run fails, without a
  code. -/
theorem settings_layer_by_layer [Ignore.Engine] (filterText : Option String)
    (hparse : parse arguments = .ok (.document a)) (hdir : directory disk a = .ok dir)
    (hlist : ∀ {path document item}, ConfigFile disk a dir path → Consulted disk path document →
      document.get? "render" = some item → item.members? = none) :
    make disk a = makeFrom (.ofDisk disk) disk a ∧
    (∀ path, ConfigFile disk a dir path → ¬Unusable disk path →
      ∃ document c, Consulted disk path document ∧ Layered (overrides arguments) document c ∧
        RunsWith disk a dir c) ∧
    (∀ document, ofDocument (known document) = ofDocument document) ∧
    ((∃ fault, produce disk a = .error fault ∧ fault.code? = some "E_BAD_CONFIG") ↔
      ∃ path, ConfigFile disk a dir path ∧ Unsettled disk arguments path) ∧
    (∀ path, ConfigFile disk a dir path → Unsettled disk arguments path →
      ∃ fault, fault.code? = some "E_BAD_CONFIG" ∧ FailsEarly disk a fault) ∧
    (∀ o : RenderOptions, o.validate = .ok () ↔
      o.eol ≠ "" ∧ o.titleLevel ≠ "" ∧ ∀ c ∈ o.titleLevel.toList, c = '#') ∧
    (a.config = none → disk.readText (dir.push configFileName) = .error .notFound →
      ∀ c, Layered (overrides arguments) (.table .header none []) c → RunsWith disk a dir c) ∧
    (∀ path, a.config = some path → disk.present path = false →
      FailsEarly disk a (.noConfig path) ∧ (RunFault.noConfig path).code? = none) ∧
    (∀ fault, FailsEarly disk a fault →
      (run disk filterText arguments).status = 1 ∧ (run disk filterText arguments).stdout = "" ∧
        (run disk filterText arguments).stderr = (filter filterText a).2 ++ fault.report ∧
        (run disk filterText arguments).disk = disk) := by
  refine ⟨make_eq_makeFrom disk a, fun path => exists_runsWith hparse hdir hlist,
    ofDocument_known, ⟨?_, ?_⟩, fun path => failsEarly_of_unsettled hparse hdir hlist,
    RenderOptions.validate_eq_ok_iff, ?_, ?_, fun fault => run_of_failsEarly filterText hparse⟩
  · rintro ⟨fault, hproduce, hcode⟩
    have hmake := make_of_produce_error hproduce hcode
    rw [make_eq_makeFrom] at hmake
    exact unsettled_of_makeFrom hparse hdir hlist hmake hcode
  · rintro ⟨path, hpath, hunsettled⟩
    obtain ⟨fault, hcode, hearly⟩ :=
      failsEarly_of_unsettled hparse hdir hlist hpath hunsettled
    refine ⟨fault, produce_of_make_error ?_, hcode⟩
    rw [make_eq_makeFrom]
    exact hearly _
  · intro hconfig hread c hc
    exact runsWith_of_missing hparse hdir hconfig hread hc
  · intro path hconfig hpresent
    have hpath : configPath disk a dir = .error (.noConfig path) :=
      configPath_eq_error_iff.mpr ⟨path, hconfig, hpresent, rfl⟩
    exact ⟨failsEarly_of_settings hdir (settings_of_configPath_error hpath), rfl⟩

/-- A project with settings, among names that are not known. -/
def configured : Disk where
  root := .directory [("a.js", .file "// Architecture Note #1: T\n".toUTF8 false),
    ("archnotes.toml", .file
      "ignore = []\nx = 1\n[render]\ntitle_level = '##'\nbase = 'b'\ny.z = 2\n".toUTF8 false)] false

/-- The command line that gives a pattern and the start of links. -/
def baseGiven : Arguments where
  patterns := ["a.js"]
  base := some "c"

/-- The pattern and the start of links are those of the command line, the files to skip and the
heading marker those of the file, and the separator is the default. -/
theorem settings_of_three_layers :
    parse ["--base", "c", "a.js"] = .ok (.document baseGiven) ∧
      directory configured baseGiven = .ok ⟨"/"⟩ ∧
      (∃ document c, Consulted configured ⟨"/archnotes.toml"⟩ document ∧
        Layered (overrides ["--base", "c", "a.js"]) document c ∧
        RunsWith configured baseGiven ⟨"/"⟩ c) ∧
      (run configured none ["--base", "c", "a.js"]).stdout =
        "## Architecture Notes\n\n### T\n\n[See in context](c/a.js#L1-L1)\n\n" := by
  have hparse : parse ["--base", "c", "a.js"] = .ok (.document baseGiven) := by decide +kernel
  have hdir : directory configured baseGiven = .ok ⟨"/"⟩ := by decide +kernel
  have htable : (((configured.readText ⟨"/archnotes.toml"⟩).toOption.bind Toml.parse?).bind
      (·.get? "render")).all (·.members?.isNone) = true := by decide +kernel
  have hlist : ∀ {path document item}, ConfigFile configured baseGiven ⟨"/"⟩ path →
      Consulted configured path document → document.get? "render" = some item →
        item.members? = none := by
    intro path document item hpath hdocument hitem
    cases hpath with
    | given hconfig => nomatch hconfig
    | default =>
      cases hdocument with
      | missing => nomatch hitem
      | read hread hdocument =>
        have hread : configured.readText ⟨"/archnotes.toml"⟩ = .ok _ := hread
        simpa [hread, Except.toOption, hdocument, hitem] using htable
  have hload : load configured ⟨"/archnotes.toml"⟩ =
      .ok { ignore := [], render := { titleLevel := "##", base := "b" } } := by decide +kernel
  refine ⟨hparse, hdir, ?_, by decide +kernel⟩
  exact (settings_layer_by_layer none hparse hdir hlist).2.1 ⟨"/archnotes.toml"⟩ (.default rfl)
    fun h => load_ne_ok (hlist (.default rfl)) h hload

/-- A project whose settings are looked up beyond one of its files. -/
def linkedIntoFile : Disk where
  root := .directory [("a.js", .file "// Architecture Note #1: T\n".toUTF8 false),
    ("archnotes.toml", .link "a.js/x")] false

/-- The command line that gives a pattern and nothing else. -/
def scriptGiven : Arguments where
  patterns := ["a.js"]

/-- What is found wrong there. -/
def lookedUpInFile : RunFault :=
  .config ⟨"/archnotes.toml"⟩ (.unreadable ⟨"/archnotes.toml"⟩ .notDirectory)

/-- There is no file with settings, as is said where it is asked for, and the options are valid
without one; still the settings are found bad, since the way to the file ends at another file. -/
theorem rejected_without_file :
    parse ["a.js"] = .ok (.document scriptGiven) ∧
      directory linkedIntoFile scriptGiven = .ok ⟨"/"⟩ ∧
      ConfigFile linkedIntoFile scriptGiven ⟨"/"⟩ ⟨"/archnotes.toml"⟩ ∧
      linkedIntoFile.present ⟨"/archnotes.toml"⟩ = false ∧
      make linkedIntoFile { scriptGiven with config := some ⟨"/archnotes.toml"⟩ } =
        .error (.noConfig ⟨"/archnotes.toml"⟩) ∧
      (layered scriptGiven {}).render.validate = .ok () ∧
      produce linkedIntoFile scriptGiven = .error lookedUpInFile ∧
      lookedUpInFile.code? = some "E_BAD_CONFIG" ∧
      (run linkedIntoFile none ["a.js"]).status = 1 := by
  have hmake : make linkedIntoFile scriptGiven = .error lookedUpInFile := by decide +kernel
  exact ⟨by decide +kernel, by decide +kernel, .default rfl, by decide +kernel, by decide +kernel,
    rfl, produce_of_make_error hmake, rfl, by decide +kernel⟩

end Command

end CodeNotes
