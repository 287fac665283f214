import CodeNotes.Project.Selection
import CodeNotes.Proofs.Pattern.Search
import Mathlib.Data.List.DropRight

/-!
# Escaped texts

What is read of a pattern does not depend on where it starts, except that two stars need a separator
or nothing before them (`read?`).  An escaped text is read as one token for each of its characters,
and each token stands for just that character (`read?_escaped`, `matchesName_tokenOf`).
-/

namespace CodeNotes.Pattern

/-! ### Reading a pattern anywhere -/

/-- Whether two stars may follow. -/
def opens (previous : Option Char) : Bool :=
  previous.isNone || previous == some '/'

theorem drop_length_lt {c : Char} {cs rest : List Char} {n fuel : Nat}
    (h : (c :: cs).length < fuel + 1) (hdrop : cs.drop n = rest) : rest.length < fuel := by
  subst hdrop
  simp only [List.length_cons, List.length_drop] at h ⊢
  omega

theorem bracketed?_length {cs inside rest : List Char} (h : bracketed? cs = some (inside, rest)) :
    rest.length < cs.length := by
  cases cs with
  | nil => cases h
  | cons first cs =>
    simp only [bracketed?] at h
    split at h
    · next x after hdrop =>
      obtain ⟨-, rfl⟩ := Prod.mk.inj (Option.some.inj h)
      have hlength := congrArg List.length hdrop
      simp only [List.length_drop, List.length_cons] at hlength ⊢
      omega
    · cases h

theorem brackets?_length {cs rest : List Char} {token : Token} {n : Nat}
    (h : brackets? cs = some (token, n, rest)) : rest.length < cs.length := by
  unfold brackets? at h
  split at h
  · next cs' =>
    obtain ⟨⟨inside, after⟩, hinside, heq⟩ := Option.map_eq_some_iff.mp h
    obtain ⟨-, -, rfl⟩ := by simpa using heq
    have hlength := bracketed?_length hinside
    simp only [List.length_cons]
    omega
  · obtain ⟨⟨inside, after⟩, hinside, heq⟩ := Option.map_eq_some_iff.mp h
    obtain ⟨-, -, rfl⟩ := by simpa using heq
    exact bracketed?_length hinside

theorem toOption_map {α β ε : Type} (f : α → β) (x : Except ε α) :
    (x.map f).toOption = x.toOption.map f := by
  cases x <;> rfl

/-- Neither the number of a character nor what stands before it counts, apart from whether two stars
may follow. -/
theorem toOption_tokensFrom_congr {cs : List Char} {fuel fuel' i i' : Nat}
    {previous previous' : Option Char} (hfuel : cs.length < fuel) (hfuel' : cs.length < fuel')
    (hopens : opens previous = opens previous') :
    (tokensFrom fuel i previous cs).toOption = (tokensFrom fuel' i' previous' cs).toOption := by
  induction fuel generalizing cs fuel' i i' previous previous' with
  | zero => exact absurd hfuel (Nat.not_lt_zero _)
  | succ fuel ih =>
    obtain ⟨fuel', rfl⟩ : ∃ n, fuel' = n + 1 := ⟨fuel' - 1, by omega⟩
    cases cs with
    | nil => rfl
    | cons c cs =>
      have hlt : cs.length < fuel := by simpa using hfuel
      have hlt' : cs.length < fuel' := by simpa using hfuel'
      by_cases hany : c = '?'
      · subst hany
        simp only [tokensFrom, toOption_map]
        rw [ih hlt hlt' rfl]
      by_cases hstar : c = '*'
      · subst hstar
        simp only [tokensFrom]
        rcases hmore : (cs.takeWhile (· == '*')).length with _ | _ | more
        · simp only [toOption_map]
          exact congrArg _ (ih hlt hlt' rfl)
        · have hprevious : (previous.isNone || previous == some '/') =
              (previous'.isNone || previous' == some '/') := hopens
          simp only [hprevious]
          split_ifs
          · cases hafter : cs.drop (0 + 1) with
            | nil => rfl
            | cons x rest =>
              have hrest := drop_length_lt hfuel hafter
              have hrest' := drop_length_lt hfuel' hafter
              rw [List.length_cons] at hrest hrest'
              by_cases hslash : x = '/'
              · subst hslash
                simp only [toOption_map]
                exact congrArg _ (ih (by omega) (by omega) rfl)
              · simp [hslash, Except.toOption]
          · rfl
        · rfl
      by_cases hbracket : c = '['
      · subst hbracket
        simp only [tokensFrom]
        cases hb : brackets? cs with
        | none => rfl
        | some found =>
          obtain ⟨token, n, rest⟩ := found
          have hrest := brackets?_length hb
          simp only [toOption_map]
          exact congrArg _ (ih (by omega) (by omega) rfl)
      · simp only [tokensFrom, toOption_map]
        rw [ih hlt hlt' rfl]

/-- What is read of a pattern; `start` tells whether two stars may stand first. -/
def read? (start : Bool) (cs : List Char) : Option (List Token) :=
  (tokensFrom (cs.length + 1) 0 (if start then none else some ' ') cs).toOption

theorem toOption_tokensFrom {cs : List Char} {fuel i : Nat} {previous : Option Char}
    (hfuel : cs.length < fuel) :
    (tokensFrom fuel i previous cs).toOption = read? (opens previous) cs := by
  refine toOption_tokensFrom_congr hfuel (Nat.lt_succ_self _) ?_
  cases h : opens previous <;> rfl

theorem toOption_tokens (text : String) : (tokens text).toOption = read? true text.toList :=
  toOption_tokensFrom (by rw [String.length_toList]; exact Nat.lt_succ_self _)

theorem exists_tokens_iff (text : String) :
    (∃ ts, tokens text = .ok ts) ↔ (read? true text.toList).isSome = true := by
  rw [← toOption_tokens]
  cases tokens text <;> simp [Except.toOption]

theorem read?_nil (start : Bool) : read? start [] = some [] :=
  rfl

theorem read?_char {c : Char} (start : Bool) (cs : List Char) (hany : c ≠ '?') (hrun : c ≠ '*')
    (hopen : c ≠ '[') : read? start (c :: cs) = (read? (c == '/') cs).map (.char c :: ·) := by
  rw [read?, List.length_cons, tokensFrom, toOption_map, toOption_tokensFrom (Nat.lt_succ_self _)]
  · rfl
  · exact hany
  · exact hrun
  · exact hopen

/-! ### Escaping -/

/-- Whether a character is put between brackets. -/
def isSpecial (c : Char) : Bool :=
  c == '?' || c == '*' || c == '[' || c == ']'

/-- A text in which each special character is put between brackets. -/
def escaped (cs : List Char) : List Char :=
  cs.flatMap fun c => if isSpecial c then ['[', c, ']'] else [c]

theorem toList_escape (text : String) : (escape text).toList = escaped text.toList :=
  String.toList_ofList

/-- The token of an escaped character. -/
def tokenOf (c : Char) : Token :=
  if isSpecial c then .within [⟨c, c⟩] else .char c

theorem read?_brackets {c : Char} (start : Bool) (cs : List Char) (hc : isSpecial c = true) :
    read? start ('[' :: c :: ']' :: cs) = (read? false cs).map (.within [⟨c, c⟩] :: ·) := by
  have hbrackets : brackets? (c :: ']' :: cs) = some (.within [⟨c, c⟩], 2, cs) := by
    have hne : c ≠ '!' := by
      rintro rfl
      revert hc
      decide
    unfold brackets?
    split
    · next heq => exact absurd (List.cons.inj heq).1 hne
    · simp [bracketed?, ranges]
  rw [read?, List.length_cons, tokensFrom]
  simp only [hbrackets, toOption_map]
  rw [toOption_tokensFrom]
  · rfl
  · simp only [List.length_cons]
    omega

theorem escaped_cons (c : Char) (cs : List Char) :
    escaped (c :: cs) = (if isSpecial c then ['[', c, ']'] else [c]) ++ escaped cs :=
  List.flatMap_cons

/-- An escaped text is read character by character. -/
theorem read?_escaped {rest : List Char} (hrest : ∀ start, read? start rest = read? true rest)
    (start : Bool) (cs : List Char) :
    read? start (escaped cs ++ rest) = (read? true rest).map (cs.map tokenOf ++ ·) := by
  induction cs generalizing start with
  | nil => simpa [escaped] using hrest start
  | cons c cs ih =>
    rw [escaped_cons, List.append_assoc, List.map_cons, tokenOf]
    cases hc : isSpecial c with
    | true =>
      simp only [if_true, List.cons_append, List.nil_append]
      rw [read?_brackets start _ hc, ih, Option.map_map]
      rfl
    | false =>
      have hne : c ≠ '?' ∧ c ≠ '*' ∧ c ≠ '[' := by
        refine ⟨?_, ?_, ?_⟩ <;> rintro rfl <;> exact absurd hc (by decide)
      simp only [Bool.false_eq_true, if_false, List.cons_append, List.nil_append]
      rw [read?_char start _ hne.1 hne.2.1 hne.2.2, ih, Option.map_map]
      rfl

theorem tokens_escaped (cs : List Char) :
    tokens (String.ofList (escaped cs)) = .ok (cs.map tokenOf) := by
  have hread : read? true (escaped cs ++ []) = some (cs.map tokenOf) := by
    rw [read?_escaped fun _ => rfl, read?_nil, Option.map_some, List.append_nil]
  have htokens := toOption_tokens (String.ofList (escaped cs))
  rw [String.toList_ofList, ← List.append_nil (escaped cs), hread, List.append_nil] at htokens
  cases hts : tokens (String.ofList (escaped cs)) with
  | error m => simp [hts, Except.toOption] at htokens
  | ok ts =>
    rw [hts] at htokens
    exact congrArg Except.ok (Option.some.inj htokens)

/-- A pattern behind an escaped directory can be read iff it can be read by itself. -/
theorem isSome_read?_behind (cs ds : List Char) :
    (read? true (escaped cs ++ '/' :: ds)).isSome = (read? true ds).isSome := by
  rw [read?_escaped, read?_char true ds (by decide) (by decide) (by decide), Option.isSome_map,
    Option.isSome_map]
  · rfl
  · intro start
    rw [read?_char start ds (by decide) (by decide) (by decide),
      read?_char true ds (by decide) (by decide) (by decide)]

/-! ### Matching an escaped text -/

theorem accepts_tokenOf (c x : Char) : (tokenOf c).accepts x = (c == x) := by
  rw [tokenOf]
  split_ifs
  · simp only [Token.accepts, inRanges, List.any_cons, List.any_nil, Bool.or_false]
    rw [Bool.eq_iff_iff]
    simp only [Bool.and_eq_true, decide_eq_true_eq, beq_iff_eq]
    exact ⟨fun h => Char.le_antisymm h.1 h.2, fun h => h ▸ ⟨Char.le_refl c, Char.le_refl c⟩⟩
  · rfl

/-- The token of a character stands for that character alone. -/
theorem matchesName_tokenOf (cs ds : List Char) :
    matchesName (cs.map tokenOf) ds = decide (cs = ds) := by
  induction cs generalizing ds with
  | nil => cases ds <;> simp [matchesName]
  | cons c cs ih =>
    have hstep : ∀ ts x xs, matchesName (tokenOf c :: ts) (x :: xs) =
        ((tokenOf c).accepts x && matchesName ts xs) := by
      intro ts x xs
      rw [tokenOf]
      split_ifs <;> rfl
    cases ds with
    | nil =>
      rw [List.map_cons, tokenOf]
      split_ifs <;> simp [matchesName]
    | cons d ds =>
      rw [List.map_cons, hstep, accepts_tokenOf, ih, Bool.eq_iff_iff]
      simp

/-! ### Patterns behind a directory -/

theorem pieces_escaped (cs : List Char) :
    Path.pieces (escaped cs) = (Path.pieces cs).map escaped := by
  induction cs with
  | nil => rfl
  | cons c cs ih =>
    by_cases hc : c = '/'
    · subst hc
      have hslash : escaped ('/' :: cs) = '/' :: escaped cs := by
        rw [escaped_cons]
        rfl
      rw [hslash, Path.pieces_slash_cons, Path.pieces_slash_cons, ih]
      rfl
    · have hw : '/' ∉ (if isSpecial c then ['[', c, ']'] else [c]) := by
        split_ifs <;> simp [Ne.symm hc]
      rw [escaped_cons, Path.pieces_append_of_not_mem _ hw, ih, Path.pieces_cons_of_ne cs hc]
      cases hp : Path.pieces cs with
      | nil => exact absurd hp (Path.pieces_ne_nil cs)
      | cons first rest => simp [escaped_cons]

theorem rdropWhile_escaped (cs : List Char) :
    (escaped cs).rdropWhile (· == '/') = escaped (cs.rdropWhile (· == '/')) := by
  induction cs using List.reverseRecOn with
  | nil => rfl
  | append_singleton cs c ih =>
    have hconcat : escaped (cs ++ [c]) =
        escaped cs ++ (if isSpecial c then ['[', c, ']'] else [c]) := by
      rw [escaped, List.flatMap_append, List.flatMap_singleton]
      rfl
    by_cases hc : c = '/'
    · subst hc
      have hslash : escaped (cs ++ ['/']) = escaped cs ++ ['/'] := hconcat
      rw [hslash, List.rdropWhile_concat_pos _ _ _ (by decide),
        List.rdropWhile_concat_pos _ _ _ (by decide), ih]
    · rw [List.rdropWhile_concat_neg _ _ _ (by simpa using hc), hconcat, List.rdropWhile_eq_self_iff]
      intro hne
      split_ifs <;> simp [hc]

/-- The pieces of a pattern; a separator at the end opens none. -/
def patternPieces (pattern : String) : List (List Char) :=
  if (Path.pieces pattern.toList).getLast? == some [] then (Path.pieces pattern.toList).dropLast
  else Path.pieces pattern.toList

/-- The pieces of a directory, seen from the root. -/
def dirPieces (dir : Path) : List (List Char) :=
  Path.pieces ((dir.text.toList.rdropWhile (· == '/')).drop 1)

/-- The part that an escaped piece becomes. -/
def escapedPart (piece : List Char) : Part :=
  ⟨String.ofList (escaped piece), piece.map tokenOf⟩

/-- A pattern is well formed, and these are its parts. -/
def ReadAs (pattern : String) (parts : List Part) : Prop :=
  (read? true pattern.toList).isSome ∧ List.Forall₂ IsPart (patternPieces pattern) parts

/-- Whether a pattern means directories only: it is empty or ends with a separator. -/
def meansDirectories (pattern : String) : Bool :=
  ('/' :: pattern.toList).getLast? == some '/'

theorem forall₂_isPart_escaped {D P : List (List Char)} {parts : List Part} :
    List.Forall₂ IsPart (D.map escaped ++ P) parts ↔
      ∃ rest, parts = D.map escapedPart ++ rest ∧ List.Forall₂ IsPart P rest := by
  induction D generalizing parts with
  | nil => simp
  | cons piece D ih =>
    have hpart : ∀ part, IsPart (escaped piece) part ↔ part = escapedPart piece := by
      rintro ⟨text, ts⟩
      simp [IsPart, tokens_escaped, escapedPart, eq_comm]
    rw [List.map_cons, List.cons_append, List.forall₂_cons_left_iff]
    simp only [hpart, ih]
    constructor
    · rintro ⟨_, _, rfl, ⟨rest, rfl, hrest⟩, rfl⟩
      exact ⟨rest, rfl, hrest⟩
    · rintro ⟨rest, rfl, hrest⟩
      exact ⟨_, _, rfl, ⟨rest, rfl, hrest⟩, rfl⟩

variable {dir : Path} {pattern : String}

theorem rdropWhile_dir (habs : dir.isAbsolute = true) (hnames : Disk.names dir.text.toList ≠ []) :
    dir.text.toList.rdropWhile (· == '/') =
      '/' :: (dir.text.toList.rdropWhile (· == '/')).drop 1 := by
  have hne : dir.text.toList.rdropWhile (· == '/') ≠ [] := by
    intro hnil
    refine hnames (Disk.names_of_slashes fun c hc => ?_)
    simpa using List.rdropWhile_eq_nil_iff.mp hnil c hc
  obtain ⟨rest, hrest⟩ := List.rdropWhile_prefix (· == '/') (l := dir.text.toList)
  cases ht : dir.text.toList.rdropWhile (· == '/') with
  | nil => exact absurd ht hne
  | cons c t =>
    rw [ht] at hrest
    have hhead : dir.text.toList.head? = some '/' := by simpa [Path.isAbsolute] using habs
    rw [← hrest] at hhead
    obtain rfl : c = '/' := by simpa using hhead
    rfl

/-- The text of a pattern as seen from a directory other than the root. -/
theorem toList_rooted (habs : dir.isAbsolute = true) (hnames : Disk.names dir.text.toList ≠ [])
    (hrel : Path.isAbsolute ⟨pattern⟩ = false) :
    (Selection.rooted dir pattern).toList =
      '/' :: (escaped ((dir.text.toList.rdropWhile (· == '/')).drop 1) ++ '/' :: pattern.toList) := by
  have hroot : ((escape dir.text).toList.reverse.dropWhile (· == '/')).reverse =
      '/' :: escaped ((dir.text.toList.rdropWhile (· == '/')).drop 1) := by
    rw [toList_escape]
    change (escaped dir.text.toList).rdropWhile (· == '/') = _
    rw [rdropWhile_escaped, rdropWhile_dir habs hnames, escaped_cons]
    rfl
  rw [Selection.rooted, if_neg (by simp [hrel])]
  simp only [hroot, String.toList_append, String.toList_ofList]
  simp

theorem queryPieces_rooted (habs : dir.isAbsolute = true)
    (hnames : Disk.names dir.text.toList ≠ []) (hrel : Path.isAbsolute ⟨pattern⟩ = false) :
    queryPieces (Selection.rooted dir pattern) =
      (dirPieces dir).map escaped ++ patternPieces pattern := by
  have htext := toList_rooted habs hnames hrel
  have habsolute : Path.isAbsolute ⟨Selection.rooted dir pattern⟩ = true := by
    rw [Path.isAbsolute, htext]
    rfl
  have hlong : ((Selection.rooted dir pattern).isEmpty || Selection.rooted dir pattern == "/") =
      false := by
    rw [Bool.or_eq_false_iff, beq_eq_false_iff_ne, ← Bool.not_eq_true, String.isEmpty_iff]
    constructor <;> intro heq <;> simp [heq] at htext
  have hpieces : Path.pieces ((Selection.rooted dir pattern).toList.drop 1) =
      (dirPieces dir).map escaped ++ Path.pieces pattern.toList := by
    rw [htext, List.drop_succ_cons, List.drop_zero, Path.pieces_append, pieces_escaped, dirPieces]
  have hlast : ((dirPieces dir).map escaped ++ Path.pieces pattern.toList).getLast? =
      (Path.pieces pattern.toList).getLast? :=
    List.getLast?_append_of_ne_nil _ (Path.pieces_ne_nil _)
  unfold queryPieces patternPieces
  simp only [habsolute, if_true, hpieces, hlong, Bool.false_eq_true, if_false, hlast]
  split_ifs
  · exact List.dropLast_append_of_ne_nil (Path.pieces_ne_nil _)
  · rfl

/-- **A pattern behind a directory** has the parts of the directory, each of which stands for one
name, and then its own. -/
theorem query_rooted (habs : dir.isAbsolute = true) (hnames : Disk.names dir.text.toList ≠ [])
    (hrel : Path.isAbsolute ⟨pattern⟩ = false) {q : Query} :
    query (Selection.rooted dir pattern) = .ok q ↔
      ∃ parts, ReadAs pattern parts ∧
        q = ⟨⟨"/"⟩, (dirPieces dir).map escapedPart ++ parts, meansDirectories pattern⟩ := by
  have htext := toList_rooted habs hnames hrel
  have habsolute : Path.isAbsolute ⟨Selection.rooted dir pattern⟩ = true := by
    rw [Path.isAbsolute, htext]
    rfl
  have hlegible : (∃ ts, tokens (Selection.rooted dir pattern) = .ok ts) ↔
      (read? true pattern.toList).isSome := by
    rw [exists_tokens_iff, htext, read?_char true _ (by decide) (by decide) (by decide),
      Option.isSome_map, beq_self_eq_true, isSome_read?_behind]
  have hlast : ((Selection.rooted dir pattern).toList.getLast? == some '/') =
      meansDirectories pattern := by
    rw [htext, meansDirectories, ← List.cons_append, List.getLast?_append_of_ne_nil _ (by simp)]
  obtain ⟨start, parts, only⟩ := q
  rw [query_eq_ok_iff, hlegible, queryPieces_rooted habs hnames hrel, forall₂_isPart_escaped, hlast]
  simp only [habsolute, if_true, ReadAs, Query.mk.injEq]
  constructor
  · rintro ⟨hread, rfl, rfl, rest, rfl, hrest⟩
    exact ⟨rest, ⟨hread, hrest⟩, rfl, rfl, rfl⟩
  · rintro ⟨rest, ⟨hread, hrest⟩, rfl, rfl, rfl⟩
    exact ⟨hread, rfl, rfl, rest, rfl, hrest⟩

end CodeNotes.Pattern
