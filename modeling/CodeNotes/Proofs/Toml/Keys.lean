import CodeNotes.Toml.Document
import Mathlib.Data.List.Nodup

/-!
# Keys are unique

No table of a document has two items with one name (`keyed_of_parse?`), so that what a document says
under a name is well defined.  Every item that is put into a table replaces the one with its name or
comes under a new name (`keyed_put`).  Documents change only by putting items at the end of a path
and by taking items away, and all that reading does keeps the names of every table apart: in values
(`keyed_values`), in the draft that a line is read into, and so along all lines.
-/

namespace CodeNotes.Toml

/-! ### Tables with unique names -/

namespace Item

/-- In every table of an item the names differ. -/
inductive Keyed : Item → Prop
  | scalar (value : Scalar) (span : Span) : Keyed (.scalar value span)
  | array {items : List Item} (span : Span) (hitems : ∀ i ∈ items, Keyed i) :
      Keyed (.array items span)
  | table {entries : List (Key × Item)} (origin : Origin) (span : Option Span)
      (hnames : (entries.map (·.1.name)).Nodup) (hitems : ∀ e ∈ entries, Keyed e.2) :
      Keyed (.table origin span entries)
  | tables {elements : List Item} (hitems : ∀ i ∈ elements, Keyed i) : Keyed (.tables elements)

/-- Entries whose names differ, and the names in every table among their items. -/
structure KeyedEntries (entries : List (Key × Item)) : Prop where
  names : (entries.map (·.1.name)).Nodup
  items : ∀ e ∈ entries, e.2.Keyed

theorem KeyedEntries.nil : KeyedEntries [] :=
  ⟨List.nodup_nil, List.forall_mem_nil _⟩

theorem KeyedEntries.table {entries : List (Key × Item)} (h : KeyedEntries entries)
    (origin : Origin) (span : Option Span) : (Item.table origin span entries).Keyed :=
  .table origin span h.names h.items

theorem keyed_empty (origin : Origin) (span : Option Span) : (table origin span []).Keyed :=
  KeyedEntries.nil.table origin span

theorem Keyed.entries {t : Item} (h : t.Keyed) : KeyedEntries t.entries := by
  cases h with
  | table origin span hnames hitems => exact ⟨hnames, hitems⟩
  | scalar | array | tables => exact .nil

theorem Keyed.elements {elements : List Item} (h : Keyed (.tables elements)) :
    ∀ i ∈ elements, i.Keyed := by
  cases h with
  | tables hitems => exact hitems

variable {t item : Item} {name : String}

theorem exists_mem_of_get? (h : t.get? name = some item) :
    ∃ key, (key, item) ∈ t.entries ∧ key.name = name := by
  rw [get?, Option.map_eq_some_iff] at h
  obtain ⟨⟨key, item'⟩, hfind, rfl⟩ := h
  exact ⟨key, List.mem_of_find?_eq_some hfind, beq_iff_eq.mp (List.find?_some hfind :)⟩

theorem Keyed.get? (ht : t.Keyed) (h : t.get? name = some item) : item.Keyed := by
  obtain ⟨key, hmem, -⟩ := exists_mem_of_get? h
  exact ht.entries.items _ hmem

/-! ### Putting and removing -/

/-- **An item that is put into a table leaves its names apart.** -/
theorem keyed_put (ht : t.Keyed) (hitem : item.Keyed) (key : Key) : (t.put key item).Keyed := by
  cases ht with
  | scalar value span => exact .scalar value span
  | array span hitems => exact .array span hitems
  | tables hitems => exact .tables hitems
  | @table entries origin span hnames hitems =>
    rw [put]
    split
    · -- The item with the name is replaced where it stands.
      refine .table origin span ?_ ?_
      · have hsame : (entries.map fun e => if e.1.name == key.name then (e.1, item) else e).map
            (·.1.name) = entries.map (·.1.name) := by
          rw [List.map_map]
          refine List.map_congr_left fun e _ => ?_
          rw [Function.comp]
          split <;> rfl
        rw [hsame]
        exact hnames
      · intro e he
        obtain ⟨e', he', rfl⟩ := List.mem_map.mp he
        split
        · exact hitem
        · exact hitems e' he'
    · -- The name is new.
      next hnew =>
      refine .table origin span ?_ ?_
      · rw [List.map_append, List.map_singleton, List.nodup_append]
        refine ⟨hnames, List.nodup_singleton _, fun a ha b hb hab => hnew ?_⟩
        obtain ⟨e, he, rfl⟩ := List.mem_map.mp ha
        rw [List.mem_singleton.mp hb] at hab
        exact List.any_eq_true.mpr ⟨e, he, beq_iff_eq.mpr hab⟩
      · intro e he
        rcases List.mem_append.mp he with he | he
        · exact hitems e he
        · rw [List.mem_singleton.mp he]
          exact hitem

theorem keyed_erase (ht : t.Keyed) (name : String) : (t.erase name).Keyed := by
  cases ht with
  | scalar value span => exact .scalar value span
  | array span hitems => exact .array span hitems
  | tables hitems => exact .tables hitems
  | @table entries origin span hnames hitems =>
    have hsub := entries.filter_sublist (p := fun e => e.1.name != name)
    exact .table origin span (hnames.sublist (hsub.map _)) fun e he => hitems e (hsub.subset he)

/-- A change that keeps names apart where it is made keeps them apart in what is around it. -/
theorem keyed_update {dotted : Bool} {change : Item → Option Item}
    (hchange : ∀ {s s'}, s.Keyed → change s = some s' → s'.Keyed) {path : List Key} {t t' : Item}
    (ht : t.Keyed) (h : update dotted change path t = some t') : t'.Keyed := by
  induction path generalizing t t' with
  | nil => exact hchange ht h
  | cons key path ih =>
    rw [update, Option.map_eq_some_iff] at h
    obtain ⟨inner, hinner, rfl⟩ := h
    refine keyed_put ht ?_ key
    split at hinner
    · exact ih (keyed_empty _ _) hinner
    · next hget =>
      split at hinner
      · nomatch hinner
      · exact ih (ht.get? hget) hinner
    · next elements hget =>
      have helements := (ht.get? hget).elements
      split at hinner
      · next last hlast =>
        rw [Option.map_eq_some_iff] at hinner
        obtain ⟨last', hlast', rfl⟩ := hinner
        refine .tables fun i hi => ?_
        rcases List.mem_append.mp hi with hi | hi
        · exact helements i (List.dropLast_subset _ hi)
        · rw [List.mem_singleton.mp hi]
          exact ih (helements last (List.mem_of_getLast? hlast)) hlast'
      · nomatch hinner
    · nomatch hinner

theorem keyed_insert (ht : t.Keyed) (hitem : item.Keyed) {path : List Key} {key : Key} {t' : Item}
    (h : t.insert path key item = some t') : t'.Keyed := by
  refine keyed_update (fun {s s'} hs hplace => ?_) ht h
  split at hplace
  · split at hplace
    · nomatch hplace
    · split at hplace
      · nomatch hplace
      · obtain rfl := Option.some.inj hplace
        exact keyed_put hs hitem key
  · nomatch hplace

end Item

open Item

/-! ### Values -/

/-- **Names differ in every value that is read**, by induction on the fuel that the three readers
hand on to each other. -/
theorem keyed_values (fuel : Nat) :
    (∀ {depth : Nat} {c c' : Cursor} {item : Item},
      value? fuel depth c = some (item, c') → item.Keyed) ∧
    (∀ {depth : Nat} {c c' : Cursor} {done items : List Item}, (∀ i ∈ done, i.Keyed) →
      elements? fuel depth c done = some (items, c') → ∀ i ∈ items, i.Keyed) ∧
    ∀ {depth : Nat} {c c' : Cursor} {table table' : Item} {mayEnd : Bool}, table.Keyed →
      pairs? fuel depth c table mayEnd = some (table', c') → table'.Keyed := by
  induction fuel with
  | zero =>
    refine ⟨fun h => ?_, fun _ h => ?_, fun _ h => ?_⟩
    · rw [value?] at h
      nomatch h
    · rw [elements?] at h
      nomatch h
    · rw [pairs?] at h
      nomatch h
  | succ fuel ih =>
    obtain ⟨ihvalue, ihelements, ihpairs⟩ := ih
    refine ⟨fun h => ?_, fun hdone h => ?_, fun htable h => ?_⟩
    · rw [value?] at h
      split at h
      · split at h
        · nomatch h
        · simp only [Option.map_eq_some_iff, Prod.exists, Prod.mk.injEq] at h
          obtain ⟨items, after, helements, rfl, -⟩ := h
          exact .array _ (ihelements (List.forall_mem_nil _) helements)
      · split at h
        · nomatch h
        · simp only [Option.map_eq_some_iff, Prod.exists, Prod.mk.injEq] at h
          obtain ⟨table, after, hpairs, rfl, -⟩ := h
          exact (ihpairs (keyed_empty _ _) hpairs).entries.table _ _
      · simp only [Option.map_eq_some_iff, Prod.exists, Prod.mk.injEq] at h
        obtain ⟨value, after, -, rfl, -⟩ := h
        exact .scalar _ _
    · rw [elements?] at h
      dsimp only at h
      split at h
      · simp only [Option.some.injEq, Prod.mk.injEq] at h
        obtain ⟨rfl, -⟩ := h
        intro i hi
        exact hdone i (List.mem_reverse.mp hi)
      · simp only [Option.bind_eq_some_iff, Prod.exists] at h
        obtain ⟨item, next, hvalue, h⟩ := h
        have hmore : ∀ i ∈ item :: _, i.Keyed := List.forall_mem_cons.mpr ⟨ihvalue hvalue, hdone⟩
        split at h
        · exact ihelements hmore h
        · simp only [Option.some.injEq, Prod.mk.injEq] at h
          obtain ⟨rfl, -⟩ := h
          intro i hi
          exact hmore i (List.mem_reverse.mp hi)
        · nomatch h
    · rw [pairs?] at h
      split at h
      · simp only [Option.some.injEq, Prod.mk.injEq] at h
        obtain ⟨rfl, -⟩ := h
        exact htable
      · simp only [Option.bind_eq_some_iff, Prod.exists] at h
        obtain ⟨path, key, c₁, -, c₂, -, item, c₃, hvalue, table₁, hinsert, h⟩ := h
        have htable₁ := keyed_insert htable (ihvalue hvalue) hinsert
        split at h
        · exact ihpairs htable₁ h
        · simp only [Option.some.injEq, Prod.mk.injEq] at h
          obtain ⟨rfl, -⟩ := h
          exact htable₁
        · nomatch h

/-! ### Lines -/

namespace Draft

/-- Names differ in what is finished and in what is being gathered. -/
structure Keyed (d : Draft) : Prop where
  root : d.root.Keyed
  current : d.current.Keyed

variable {d d' : Draft} {path : List Key} {key : Key} {span : Span} {item t : Item}

theorem keyed_finish (hd : d.Keyed) (h : d.finish = some t) : t.Keyed := by
  rw [finish] at h
  split at h
  · rw [← Option.some.inj h]
    exact hd.current
  · next last hlast =>
    refine keyed_update (fun {s s'} hs hplace => ?_) hd.root h
    split at hplace
    · obtain rfl := Option.some.inj hplace
      refine keyed_put hs ?_ last
      split
      · exact .tables (List.forall_mem_singleton.mpr hd.current)
      · exact hd.current
    · next elements hget =>
      split at hplace
      · obtain rfl := Option.some.inj hplace
        refine keyed_put hs (.tables fun i hi => ?_) last
        rcases List.mem_append.mp hi with hi | hi
        · exact (hs.get? hget).elements i hi
        · rw [List.mem_singleton.mp hi]
          exact hd.current
      · nomatch hplace
    · nomatch hplace

theorem keyed_impliedEntries {entries : List (Key × Item)} (ht : t.Keyed)
    (h : startTable.impliedEntries t path key = some entries) : KeyedEntries entries := by
  induction path generalizing t with
  | nil =>
    rw [startTable.impliedEntries] at h
    split at h
    · rw [← Option.some.inj h]
      exact .nil
    · next hget =>
      rw [← Option.some.inj h]
      exact (ht.get? hget).entries
    · nomatch h
  | cons k path ih =>
    rw [startTable.impliedEntries] at h
    split at h
    · rw [← Option.some.inj h]
      exact .nil
    · next elements hget =>
      split at h
      · next last hlast =>
        exact ih ((ht.get? hget).elements last (List.mem_of_getLast? hlast)) h
      · nomatch h
    · next inner _ hget => exact ih (ht.get? hget) h

theorem keyed_startTable (hd : d.Keyed) (h : d.startTable path key span = some d') : d'.Keyed := by
  simp only [startTable, Option.bind_eq_some_iff, Option.map_eq_some_iff] at h
  obtain ⟨root, hroot, entries, hentries, root', hroot', rfl⟩ := h
  have hkeyed := keyed_finish hd hroot
  refine ⟨keyed_update (fun {s s'} hs hplace => ?_) hkeyed hroot',
    (keyed_impliedEntries hkeyed hentries).table _ _⟩
  obtain rfl := Option.some.inj hplace
  exact keyed_erase hs key.name

theorem keyed_startElement (hd : d.Keyed) (h : d.startElement path key span = some d') :
    d'.Keyed := by
  simp only [startElement, Option.bind_eq_some_iff, Option.map_eq_some_iff] at h
  obtain ⟨root, hroot, root', hroot', rfl⟩ := h
  refine ⟨keyed_update (fun {s s'} hs hplace => ?_) (keyed_finish hd hroot) hroot',
    keyed_empty _ _⟩
  split at hplace
  · obtain rfl := Option.some.inj hplace
    exact keyed_put hs (.tables (List.forall_mem_nil _)) key
  · obtain rfl := Option.some.inj hplace
    exact hs
  · nomatch hplace

theorem keyed_add (hd : d.Keyed) (hitem : item.Keyed) (h : d.add path key item = some d') :
    d'.Keyed := by
  rw [add, Option.map_eq_some_iff] at h
  obtain ⟨current, hinsert, rfl⟩ := h
  have hcurrent := keyed_insert hd.current hitem hinsert
  refine ⟨hd.root, ?_⟩
  dsimp only
  split
  · exact hcurrent.entries.table _ _
  · exact hcurrent

end Draft

theorem keyed_of_header? {d d' : Draft} {c c' : Cursor} (hd : d.Keyed)
    (h : header? d c = some (d', c')) : d'.Keyed := by
  rw [header?] at h
  split at h
  · simp only [Option.bind_eq_bind, Option.bind_eq_some_iff, Prod.exists, Option.pure_def,
      Option.some.injEq, Prod.mk.injEq] at h
    obtain ⟨path, key, after, -, after', -, next, -, d₁, hstart, rfl, -⟩ := h
    exact Draft.keyed_startElement hd hstart
  · simp only [Option.bind_eq_bind, Option.bind_eq_some_iff, Prod.exists, Option.pure_def,
      Option.some.injEq, Prod.mk.injEq] at h
    obtain ⟨path, key, after, -, after', -, next, -, d₁, hstart, rfl, -⟩ := h
    exact Draft.keyed_startTable hd hstart

theorem keyed_of_setting? {d d' : Draft} {c c' : Cursor} (hd : d.Keyed)
    (h : setting? d c = some (d', c')) : d'.Keyed := by
  simp only [setting?, Option.bind_eq_bind, Option.bind_eq_some_iff, Prod.exists, Option.pure_def,
    Option.some.injEq, Prod.mk.injEq] at h
  obtain ⟨path, key, c₁, -, c₂, -, item, c₃, hvalue, c₄, -, d₁, hadd, rfl, -⟩ := h
  exact Draft.keyed_add hd ((keyed_values _).1 hvalue) hadd

/-- Reading lines keeps names apart, since reading one line does. -/
theorem keyed_of_lines? {fuel : Nat} {d d' : Draft} {c : Cursor} (hd : d.Keyed)
    (h : lines? fuel d c = some d') : d'.Keyed := by
  induction fuel generalizing d c with
  | zero =>
    rw [lines?] at h
    nomatch h
  | succ fuel ih =>
    rw [lines?] at h
    split at h
    · rw [← Option.some.inj h]
      exact hd
    · obtain ⟨c', -, h⟩ := Option.bind_eq_some_iff.mp h
      exact ih hd h
    · obtain ⟨⟨d₁, c'⟩, hheader, h⟩ := Option.bind_eq_some_iff.mp h
      exact ih (keyed_of_header? hd hheader) h
    · split at h
      · obtain ⟨c', -, h⟩ := Option.bind_eq_some_iff.mp h
        exact ih hd h
      · obtain ⟨⟨d₁, c'⟩, hsetting, h⟩ := Option.bind_eq_some_iff.mp h
        exact ih (keyed_of_setting? hd hsetting) h

/-- **No table of a document has two items with one name.** -/
theorem keyed_of_parse? {text : String} {document : Item} (h : parse? text = some document) :
    document.Keyed := by
  obtain ⟨d, hlines, hfinish⟩ := Option.bind_eq_some_iff.mp h
  have hstart : Draft.Keyed {} := ⟨keyed_empty _ _, keyed_empty _ _⟩
  exact Draft.keyed_finish (keyed_of_lines? hstart hlines) hfinish

end CodeNotes.Toml
