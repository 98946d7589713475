import Mathlib.Data.List.Basic
import Polyglot.Ignore.Override
import Polyglot.Project.IgnoreFiles
import Polyglot.Proofs.Affixes
import Polyglot.Proofs.Blanks
import Polyglot.Proofs.Walker

/-!
This module contains how overrides are read and what they match. Whatever follows a mark of
negation, the rule is a negated one, and a plain name is found in every directory.
-/

namespace Polyglot

/-! Bytes of paths -/

theorem toList_loop (bytes : ByteArray) (i : Nat) (done : List UInt8) :
    ByteArray.toList.loop bytes i done = done.reverse ++ bytes.data.toList.drop i := by
  fun_induction ByteArray.toList.loop bytes i done with
  | case1 i done h ih =>
    have hi : i < bytes.data.toList.length := h
    rw [ih, List.reverse_cons, List.append_assoc, List.singleton_append,
      List.drop_eq_getElem_cons hi]
    congr 2
    exact getElem!_pos bytes.data i h
  | case2 i done h =>
    have hi : bytes.data.toList.length ≤ i := Nat.not_lt.mp h
    rw [List.drop_eq_nil_of_le hi, List.append_nil]

theorem pathBytes_eq_flatMap (path : String) :
    pathBytes path = path.toList.flatMap String.utf8EncodeChar := by
  rw [pathBytes, ByteArray.toList, toList_loop, String.toUTF8_eq_toByteArray,
    ← String.utf8Encode_toList, List.utf8Encode, List.data_toByteArray]
  rfl

theorem charBytes_eq : Ignore.charBytes = String.utf8EncodeChar := by
  funext c
  have hchar : Ignore.charBytes c = pathBytes c.toString := rfl
  rw [hchar, pathBytes_eq_flatMap, Char.toString_eq_singleton, String.toList_singleton,
    List.flatMap_singleton]

/--
The bytes of a path are those of its characters.
-/
theorem pathBytes_eq (path : String) : pathBytes path = path.toList.flatMap Ignore.charBytes := by
  rw [pathBytes_eq_flatMap, charBytes_eq]

theorem pathBytes_append (p q : String) : pathBytes (p ++ q) = pathBytes p ++ pathBytes q := by
  rw [pathBytes_eq, pathBytes_eq, pathBytes_eq, String.toList_append, List.flatMap_append]

/--
The bytes of a joined path end with those of the name, behind a slash if there is anything before
them.
-/
theorem pathBytes_join (lead name : String) :
    pathBytes (Path.join lead name) = pathBytes name ∨
      ∃ front, pathBytes (Path.join lead name) = front ++ Ignore.slash :: pathBytes name := by
  have hslash : Ignore.charBytes '/' = [Ignore.slash] := by
    decide +kernel
  unfold Path.join
  split
  case isTrue h =>
    obtain rfl | hlast := h
    · left
      rw [String.empty_append]
    · right
      obtain ⟨front, hfront⟩ := List.getLast?_eq_some_iff.mp hlast
      refine ⟨front.flatMap Ignore.charBytes, ?_⟩
      rw [pathBytes_append, pathBytes_eq lead, hfront, List.flatMap_append, List.flatMap_singleton,
        hslash, List.append_assoc, List.singleton_append]
  case isFalse =>
    right
    refine ⟨pathBytes lead, ?_⟩
    rw [pathBytes_append, pathBytes_append, List.append_assoc]
    exact congrArg (fun bytes => pathBytes lead ++ (bytes ++ pathBytes name)) hslash

namespace Ignore

/-! Matching -/

theorem globRests_subset {ps qs : List Bytes} (h : ps ⊆ qs) (glob : Glob) :
    globRests ps glob ⊆ globRests qs glob := by
  induction glob generalizing ps qs with
  | nil =>
    rw [globRests, globRests]
    exact h
  | cons part glob ih =>
    rw [globRests, globRests]
    apply ih
    intro rest hrest
    rw [List.mem_eraseDups, List.mem_flatMap] at hrest ⊢
    obtain ⟨path, hpath, hrest⟩ := hrest
    exact ⟨path, h hpath, hrest⟩

theorem globRests_cons_subset {path rest : Bytes} {part : Part} (h : rest ∈ part.rests path)
    (glob : Glob) : globRests [rest] glob ⊆ globRests [path] (part :: glob) := by
  rw [globRests]
  apply globRests_subset
  intro other hother
  rw [List.mem_singleton.mp hother, List.mem_eraseDups, List.flatMap_singleton]
  exact h

theorem nil_mem_globRests (bytes : Bytes) : [] ∈ globRests [bytes] (bytes.map .byte) := by
  induction bytes with
  | nil => apply List.mem_singleton_self
  | cons b bytes ih =>
    apply globRests_cons_subset _ _ ih
    simp [Part.rests]

theorem mem_afterSlashes (front bytes : Bytes) :
    bytes ∈ afterSlashes (front ++ slash :: bytes) := by
  induction front with
  | nil => simp [afterSlashes]
  | cons b front ih =>
    rw [List.cons_append, afterSlashes]
    split
    · exact List.mem_cons_of_mem _ ih
    · exact ih

/--
A name that is looked for in every directory matches each path that ends with it.
-/
theorem globMatches_anywhere {path bytes : Bytes}
    (h : path = bytes ∨ ∃ front, path = front ++ slash :: bytes) :
    globMatches (.anyParents :: bytes.map .byte) path := by
  have hrest : bytes ∈ Part.rests path .anyParents := by
    rw [Part.rests, List.mem_cons]
    obtain rfl | ⟨front, rfl⟩ := h
    · exact .inl rfl
    · exact .inr (mem_afterSlashes front bytes)
  have hmem := globRests_cons_subset hrest _ (nil_mem_globRests bytes)
  unfold globMatches
  split
  · rfl
  · rw [List.any_eq_true]
    exact ⟨[], hmem, rfl⟩

/-! Reading -/

theorem readGlob_cons (allowUnclosed : Bool) (d : Draft) (last : Option Char)
    (bracketsOpen : Bool) {c : Char} (hc : c ∉ globMarks) (cs : List Char) :
    readGlob allowUnclosed d last bracketsOpen (c :: cs) =
      readGlob allowUnclosed (d.pushChar c) (some c) bracketsOpen cs := by
  rw [readGlob.eq_def]
  split
  case h_1 h => cases h
  case h_2 h =>
    cases h
    exact absurd (by decide) hc
  case h_3 h =>
    cases h
    exact absurd (by decide) hc
  case h_4 h =>
    cases h
    split
    -- Only the last branch takes a character as it is.
    case h_8 => rfl
    all_goals exact absurd (by decide) hc

theorem readGlob_of_noMarks (allowUnclosed : Bool) (parts : Glob) (last : Option Char)
    (bracketsOpen : Bool) {cs : List Char} (hcs : ∀ c ∈ cs, c ∉ globMarks) :
    readGlob allowUnclosed { parts } last bracketsOpen cs =
      .ok (parts.reverse ++ (cs.flatMap charBytes).map .byte) := by
  induction cs generalizing parts last with
  | nil =>
    rw [readGlob.eq_def, List.flatMap_nil, List.map_nil, List.append_nil]
    rfl
  | cons c cs ih =>
    obtain ⟨hc, hcs⟩ := List.forall_mem_cons.mp hcs
    rw [readGlob_cons _ _ _ _ hc]
    have hpush : Draft.pushChar { parts } c =
        { parts := ((charBytes c).map Part.byte).reverse ++ parts } := rfl
    rw [hpush, ih _ _ hcs, List.flatMap_cons, List.map_append, List.reverse_append,
      List.reverse_reverse, List.append_assoc]

/--
A line without the blanks at its end that do not count.
-/
def trimmedLine (line : List Char) : List Char :=
  if (Text.dropTail? "\\ ".toList line).isSome then line else Text.dropBlanksEnd line

theorem exists_trimmedLine (cs : List Char) : ∃ tail, trimmedLine ('!' :: cs) = '!' :: tail := by
  unfold trimmedLine
  split
  case isTrue => exact ⟨cs, rfl⟩
  case isFalse => exact ⟨_, Text.dropBlanksEnd_cons (by decide) cs⟩

theorem ofLine?_of_trimmedLine (allowUnclosed : Bool) {cs tail : List Char}
    (h : trimmedLine ('!' :: cs) = '!' :: tail) :
    Rule.ofLine? allowUnclosed ('!' :: cs) =
      if tail.head? = some '/' then Rule.ofLine?.rule allowUnclosed true true tail.tail
      else Rule.ofLine?.rule allowUnclosed true false tail := by
  have hmark : ('!' :: cs).head? ≠ some '#' := by
    simp
  unfold Rule.ofLine?
  unfold trimmedLine at h
  rw [if_neg hmark, h]
  dsimp only
  split
  case h_1 h => cases h
  case h_2 h => cases h
  case h_3 h => cases h
  case h_4 rest h =>
    cases h
    rfl
  case h_5 rest hslash h =>
    cases h
    rw [if_neg]
    intro hhead
    obtain ⟨rest, rfl⟩ := List.head?_eq_some_iff.mp hhead
    exact hslash rest rfl
  case h_6 h => cases h
  case h_7 hmark _ => exact absurd rfl (hmark tail)

theorem isNegated_of_rule {allowUnclosed isNegated isAnchored : Bool} {cs : List Char} {rule : Rule}
    (h : Rule.ofLine?.rule allowUnclosed isNegated isAnchored cs = .ok (some rule)) :
    rule.isNegated = isNegated := by
  simp only [Rule.ofLine?.rule] at h
  cases hglob : readGlob allowUnclosed {} none false
      (patternText isAnchored (splitDirectoryMark cs).2) with
  | error e =>
    rw [hglob] at h
    cases h
  | ok glob =>
    rw [hglob] at h
    cases h
    rfl

theorem toList_negated (text : String) : ("!" ++ text).toList = '!' :: text.toList :=
  String.toList_append

/--
A mark of negation makes a negated rule, whatever follows it.
-/
theorem isNegated_of_override? {text : String} {rule : Rule}
    (h : override? ("!" ++ text) = .ok (some rule)) : rule.isNegated := by
  -- Blanks are dropped at the end only, so the mark of negation stays where it is.
  obtain ⟨tail, htail⟩ := exists_trimmedLine text.toList
  rw [override?, toList_negated, ofLine?_of_trimmedLine false htail] at h
  split at h
  case isTrue => exact isNegated_of_rule h
  case isFalse => exact isNegated_of_rule h

theorem isPlain_iff {c : Char} :
    isPlain c ↔ c ∉ globMarks ∧ c ≠ '/' ∧ ¬ Text.isBlank c := by
  simp [isPlain, and_assoc]

section Plain

variable {cs : List Char} (hcs : ∀ c ∈ cs, isPlain c)

include hcs

theorem head?_ne_of_isPlain {a : Char} (ha : ¬ isPlain a) : cs.head? ≠ some a := by
  intro h
  exact ha (hcs a (List.mem_of_head? h))

theorem getLast?_ne_of_isPlain {a : Char} (ha : ¬ isPlain a) : cs.getLast? ≠ some a := by
  intro h
  exact ha (hcs a (List.mem_of_getLast? h))

theorem ofLine?_of_isPlain (allowUnclosed : Bool) :
    Rule.ofLine? allowUnclosed ('!' :: cs) = Rule.ofLine?.rule allowUnclosed true false cs := by
  have htrimmed : trimmedLine ('!' :: cs) = '!' :: cs := by
    unfold trimmedLine
    split
    case isTrue => rfl
    case isFalse =>
      rw [Text.dropBlanksEnd_cons (by decide), Text.dropBlanksEnd_of_noBlanks]
      intro c hc
      exact (isPlain_iff.mp (hcs c hc)).2.2
  rw [ofLine?_of_trimmedLine allowUnclosed htrimmed, if_neg]
  apply head?_ne_of_isPlain hcs
  decide

theorem patternText_of_isPlain : patternText false cs = "**/".toList ++ cs := by
  have hslash : cs.contains '/' = false := by
    rw [← Bool.not_eq_true, List.contains_iff_mem]
    intro h
    exact (isPlain_iff.mp (hcs '/' h)).2.1 rfl
  have hhead : Text.dropHead? "**/".toList cs = none := by
    apply Text.dropHead?_of_head
    apply head?_ne_of_isPlain hcs
    decide
  have hstars : (cs != "**".toList) = true := by
    rw [bne_iff_ne]
    rintro rfl
    exact absurd (hcs '*' (by decide)) (by decide)
  have htail : Text.dropTail? "/**".toList ("**/".toList ++ cs) = none := by
    have hlast := getLast?_ne_of_isPlain hcs (a := '*') (by decide)
    apply @Text.dropTail?_of_last '*' _ "/*".toList
    rw [List.getLast?_append]
    cases hcs : cs.getLast? with
    | none => decide
    | some c => rwa [hcs] at hlast
  simp only [patternText, hslash, hhead, hstars, htail, Bool.not_false, Bool.and_true,
    Option.isNone_none, Option.isSome_none, Bool.false_eq_true, if_true, if_false]

/--
A name of such characters is looked for in every directory.
-/
theorem rule_of_isPlain (allowUnclosed : Bool) :
    Rule.ofLine?.rule allowUnclosed true false cs =
      .ok (some ⟨.anyParents :: (cs.flatMap charBytes).map .byte, true, false⟩) := by
  have hmark : splitDirectoryMark cs = (false, cs) := by
    unfold splitDirectoryMark
    have htail : Text.dropTail? ['/'] cs = none := by
      apply @Text.dropTail?_of_last '/' _ []
      apply getLast?_ne_of_isPlain hcs
      decide
    rw [htail]
  have hread : readGlob allowUnclosed {} none false ("**/".toList ++ cs) =
      .ok (.anyParents :: (cs.flatMap charBytes).map .byte) := by
    rw [readGlob.eq_def]
    apply readGlob_of_noMarks _ [.anyParents]
    intro c hc
    exact (isPlain_iff.mp (hcs c hc)).1
  simp only [Rule.ofLine?.rule, hmark, patternText_of_isPlain hcs, hread]
  rfl

end Plain

theorem override?_of_isPlain {name : String} (hname : ∀ c ∈ name.toList, isPlain c) :
    override? ("!" ++ name) =
      .ok (some ⟨.anyParents :: (pathBytes name).map .byte, true, false⟩) := by
  rw [override?, toList_negated, ofLine?_of_isPlain hname, rule_of_isPlain hname, ← pathBytes_eq]

/-! Overrides as a whole -/

/--
The rule that an override is read as.
-/
def overrideRule? (text : String) : Option Rule := (override? text).toOption.bind id

theorem overrideRules_eq (texts : List String) :
    overrideRules texts = texts.filterMap overrideRule? := rfl

theorem overrideRule?_eq_some {text : String} {rule : Rule} :
    overrideRule? text = some rule ↔ override? text = .ok (some rule) := by
  unfold overrideRule?
  cases override? text with
  | error e => simp [Except.toOption]
  | ok found => simp [Except.toOption]

def overrideApplies (text : String) (path : Bytes) (isDirectory : Bool) : Bool :=
  (overrideRule? text).any (·.applies path isDirectory)

def overrideKeeps (text : String) : Bool := (overrideRule? text).any (!·.isNegated)

/--
The last override that applies decides. As soon as one of them keeps something, files that none
applies to are left out.
-/
theorem precedence?_overrideRules (texts : List String) (path : Bytes) (isDirectory : Bool) :
    precedence? (overrideRules texts) path isDirectory =
      match texts.reverse.find? (overrideApplies · path isDirectory) with
      | some text => some (if overrideKeeps text then .keep else .ignore)
      | none => if !isDirectory && texts.any overrideKeeps then some .ignore else none := by
  have hfirst : (overrideRules texts).reverse.find? (·.applies path isDirectory) =
      (texts.reverse.find? (overrideApplies · path isDirectory)).bind overrideRule? := by
    rw [overrideRules_eq, ← List.filterMap_reverse, List.find?_filterMap]
    rfl
  have hkeeps : (overrideRules texts).any (!·.isNegated) = texts.any overrideKeeps := by
    rw [overrideRules_eq, List.any_filterMap]
    rfl
  unfold precedence? verdict?
  rw [hfirst, hkeeps]
  cases hfind : texts.reverse.find? (overrideApplies · path isDirectory) with
  | none => rfl
  | some text =>
    have happlies := List.find?_some hfind
    obtain ⟨rule, hrule, -⟩ := (Option.any_eq_true _ _).mp happlies
    simp only [Option.bind_some, hrule, Option.map_some, overrideKeeps, Option.any_some,
      Rule.verdict]
    cases rule.isNegated with
    | true => rfl
    | false => rfl

theorem not_overrideKeeps_negated (text : String) : ¬ overrideKeeps ("!" ++ text) := by
  intro h
  obtain ⟨rule, hrule, hkeeps⟩ := (Option.any_eq_true _ _).mp h
  have hnegated := isNegated_of_override? (overrideRule?_eq_some.mp hrule)
  rw [hnegated] at hkeeps
  nomatch hkeeps

/--
A plain name is found in every directory.
-/
theorem overrideApplies_of_isPlain {name : String} (hname : ∀ c ∈ name.toList, isPlain c)
    (lead : String) (isDirectory : Bool) :
    overrideApplies ("!" ++ name) (pathBytes (Path.join lead name)) isDirectory := by
  rw [overrideApplies, overrideRule?_eq_some.mpr (override?_of_isPlain hname)]
  exact globMatches_anywhere (pathBytes_join lead name)

end Ignore

end Polyglot
