import Mathlib.Data.List.TakeWhile
import Polyglot.Proofs.Affixes
import Polyglot.Proofs.Quoting
import Polyglot.Proofs.Rounding
import Polyglot.Text.Numeral

/-!
This module contains the spellings of an integer: its digits in one of four radixes, in either
letter case, with separators among them and a suffix that names a type. All spellings of a number
in decimal digits have one value, the number rounded. The spellings with a radix mark have that
value as well, but only if the number has no more than 64 bits.
-/

namespace Polyglot.Text

inductive Radix
  | decimal | hexadecimal | octal | binary
deriving DecidableEq

namespace Radix

def base : Radix → Nat
  | decimal => 10
  | hexadecimal => 16
  | octal => 8
  | binary => 2

/--
The marks before the digits that announce a radix.
-/
def marks : Radix → List String
  | decimal => [""]
  | hexadecimal => ["0x", "0X"]
  | octal => ["0o", "0O"]
  | binary => ["0b", "0B"]

theorem base_le (radix : Radix) : radix.base ≤ 16 := by
  cases radix <;> decide

theorem splitRadix?_mark {radix : Radix} (h : radix ≠ decimal) {mark : String}
    (hmark : mark ∈ radix.marks) (rest : List Char) :
    splitRadix? (mark.toList.map Char.toLower ++ rest) = some (radix.base, rest) := by
  cases radix with
  | decimal => exact absurd rfl h
  | hexadecimal | octal | binary =>
    simp only [marks, List.mem_cons, List.not_mem_nil, or_false] at hmark
    rcases hmark with rfl | rfl <;> rfl

end Radix

/--
The suffixes of an integer: none, the name of a type, or the mark of a big integer.
-/
def typeMarks : List String :=
  ["", "i8", "i16", "i32", "i64", "i128", "isize", "u8", "u16", "u32", "u64", "u128", "usize", "n"]

/--
Whether a character is the given digit, in either letter case.
-/
def IsDigit (d : Nat) (c : Char) : Prop := c = d.digitChar ∨ c = d.digitChar.toUpper

/--
The digits of a number in the given base. Zeros may lead them.
-/
inductive Written (base : Nat) : Nat → List Char → Prop
  | first {d : Nat} {c : Char} (hd : d < base) (hc : IsDigit d c) : Written base d [c]
  | next {n d : Nat} {cs : List Char} {c : Char} (hcs : Written base n cs) (hd : d < base)
    (hc : IsDigit d c) : Written base (n * base + d) (cs ++ [c])

/--
A spelling of a number. Separators may stand anywhere in it.
-/
inductive Spells (radix : Radix) (n : Nat) (text : List Char) : Prop
  | intro (mark suffix : String) {digits : List Char} (hmark : mark ∈ radix.marks)
    (hdigits : Written radix.base n digits) (hsuffix : suffix ∈ typeMarks)
    (htext : text.filter (· != '_') = mark.toList ++ (digits ++ suffix.toList))

section Digits

variable {base n d : Nat} {c : Char} {cs : List Char}

theorem digitValue?_digitChar : ∀ d < 16, digitValue? d.digitChar = some d := by
  decide

theorem IsDigit.toLower_eq (h : IsDigit d c) (hd : d < 16) : c.toLower = d.digitChar := by
  have hlower : ∀ d < 16, d.digitChar.toLower = d.digitChar ∧
      d.digitChar.toUpper.toLower = d.digitChar := by
    decide
  rcases h with rfl | rfl
  · exact (hlower d hd).1
  · exact (hlower d hd).2

theorem IsDigit.isAlphanum (h : IsDigit d c) (hd : d < 16) : c.isAlphanum := by
  have hboth : ∀ d < 16, d.digitChar.isAlphanum ∧ d.digitChar.toUpper.isAlphanum := by
    decide
  rcases h with rfl | rfl
  · exact (hboth d hd).1
  · exact (hboth d hd).2

theorem digitsValue?_concat (hcs : digitsValue? base cs = some n) (hc : digitValue? c = some d)
    (hd : d < base) : digitsValue? base (cs ++ [c]) = some (n * base + d) := by
  unfold digitsValue? at hcs ⊢
  rw [List.foldl_append, hcs, List.foldl_cons, List.foldl_nil]
  change ((digitValue? c).bind fun digit =>
    (if digit < base then some () else none).bind fun _ => some (n * base + digit)) = _
  rw [hc, Option.bind_some, if_pos hd, Option.bind_some]

namespace Written

theorem ne_nil (h : Written base n cs) : cs ≠ [] := by
  cases h <;> simp

theorem exists_digit (h : Written base n cs) : ∀ c ∈ cs, ∃ d < base, IsDigit d c := by
  induction h with
  | first hd hc =>
    intro c hmem
    rw [List.mem_singleton.1 hmem]
    exact ⟨_, hd, hc⟩
  | next _ hd hc ih =>
    intro c hmem
    rcases List.mem_append.1 hmem with hmem | hmem
    · exact ih c hmem
    · rw [List.mem_singleton.1 hmem]
      exact ⟨_, hd, hc⟩

variable (h : Written base n cs) (hbase : base ≤ 16)

include h hbase

theorem isAlphanum_of_mem : ∀ c ∈ cs, c.isAlphanum := by
  intro c hmem
  obtain ⟨d, hd, hc⟩ := h.exists_digit c hmem
  exact hc.isAlphanum (Nat.lt_of_lt_of_le hd hbase)

theorem exists_digitChar : ∀ c ∈ cs.map Char.toLower, ∃ d < base, c = d.digitChar := by
  intro lower hlower
  obtain ⟨c, hmem, rfl⟩ := List.mem_map.1 hlower
  obtain ⟨d, hd, hc⟩ := h.exists_digit c hmem
  exact ⟨d, hd, hc.toLower_eq (Nat.lt_of_lt_of_le hd hbase)⟩

theorem isSome_digitValue? : ∀ c ∈ cs.map Char.toLower, (digitValue? c).isSome := by
  intro c hc
  obtain ⟨d, hd, rfl⟩ := h.exists_digitChar hbase c hc
  rw [digitValue?_digitChar d (by omega), Option.isSome_some]

theorem digitsValue?_eq : digitsValue? base (cs.map Char.toLower) = some n := by
  induction h with
  | @first d c hd hc =>
    have hd16 := Nat.lt_of_lt_of_le hd hbase
    have hempty : digitsValue? base [] = some 0 := rfl
    have hvalue := digitsValue?_concat hempty (digitValue?_digitChar d hd16) hd
    rwa [Nat.zero_mul, Nat.zero_add, List.nil_append, ← hc.toLower_eq hd16] at hvalue
  | @next n d cs c _ hd hc ih =>
    have hd16 := Nat.lt_of_lt_of_le hd hbase
    rw [List.map_append, List.map_singleton, hc.toLower_eq hd16,
      digitsValue?_concat ih (digitValue?_digitChar d hd16) hd]

end Written

/--
Every number can be written in every base.
-/
theorem written_toDigits (hbase : 1 < base) (n : Nat) : Written base n (Nat.toDigits base n) := by
  induction n using Nat.strongRecOn with
  | ind n ih =>
    by_cases hn : n < base
    · rw [Nat.toDigits_of_lt_base hn]
      exact .first hn (.inl rfl)
    · have hmod : n % base < base := Nat.mod_lt n (by omega)
      have hdiv : 0 < n / base := Nat.div_pos (by omega) (by omega)
      have hlt : n / base < n := Nat.div_lt_self (by omega) hbase
      have hnext := Written.next (ih (n / base) hlt) hmod (.inl rfl)
      rwa [← Nat.toDigits_of_lt_base hmod, Nat.toDigits_append_toDigits hbase hdiv hmod,
        Nat.mul_comm, Nat.div_add_mod] at hnext

end Digits

section Suffixes

variable {suffixes : List String} {cs rest : List Char}

/--
A suffix is dropped as soon as there is only one way to split one off.
-/
theorem dropSuffix_eq (hne : rest ≠ [])
    (hunique : ∀ suffix ∈ suffixes, ∀ before, cs = before ++ suffix.toList → before = rest)
    (hcs : cs = rest ∨ ∃ suffix ∈ suffixes, cs = rest ++ suffix.toList) :
    dropSuffix suffixes cs = rest := by
  unfold dropSuffix
  cases hfind : suffixes.findSome? fun suffix =>
      (dropTail? suffix.toList cs).filter (!·.isEmpty) with
  | none =>
    rcases hcs with hcs | ⟨suffix, hmem, hcs⟩
    · exact hcs
    · have hnone := List.findSome?_eq_none_iff.1 hfind suffix hmem
      rw [dropTail?_eq_some_iff.2 hcs, Option.filter_some, if_pos (by simpa using hne)] at hnone
      cases hnone
  | some before =>
    obtain ⟨suffix, hmem, hfilter⟩ := List.exists_of_findSome?_eq_some hfind
    have htail := (Option.filter_eq_some_iff.1 hfilter).1
    exact hunique suffix hmem before (dropTail?_eq_some_iff.1 htail)

/--
No integer suffix ends in another one.
-/
theorem eq_of_suffix : ∀ s ∈ integerSuffixes, ∀ t ∈ integerSuffixes,
    s.toList <:+ t.toList → s = t := by
  decide

theorem any_isNone_digitValue? :
    ∀ s ∈ integerSuffixes, s.toList.any fun c => (digitValue? c).isNone := by
  decide

theorem mem_integerSuffixes : ∀ s ∈ typeMarks, s = "" ∨ s ∈ integerSuffixes := by
  decide

variable (hne : rest ≠ [])

include hne

theorem dropSuffix_typeMark (hrest : ∀ c ∈ rest, (digitValue? c).isSome) {suffix : String}
    (hsuffix : suffix ∈ typeMarks) :
    dropSuffix integerSuffixes (rest ++ suffix.toList) = rest := by
  rcases mem_integerSuffixes suffix hsuffix with rfl | hmem
  · refine dropSuffix_eq hne ?_ (.inl (List.append_nil rest))
    intro other hother before hcs
    obtain ⟨c, hc, hletter⟩ := List.any_eq_true.1 (any_isNone_digitValue? other hother)
    have hc : c ∈ rest ++ "".toList := hcs ▸ List.mem_append_right before hc
    have hdigit := hrest c (List.append_nil rest ▸ hc)
    rw [Option.isNone_iff_eq_none.1 hletter] at hdigit
    cases hdigit
  · refine dropSuffix_eq hne ?_ (.inr ⟨suffix, hmem, rfl⟩)
    intro other hother before hcs
    -- Both end the same text, so that one of them ends in the other.
    have heq : other = suffix := by
      rcases List.suffix_or_suffix_of_suffix (hcs ▸ List.suffix_append before other.toList)
        (List.suffix_append rest suffix.toList) with hends | hends
      · exact eq_of_suffix other hother suffix hmem hends
      · exact (eq_of_suffix suffix hmem other hother hends).symm
    rw [heq] at hcs
    exact (List.append_cancel_right hcs).symm

theorem dropSuffix_floatSuffixes (hrest : ∀ c ∈ rest, c.isDigit) :
    dropSuffix floatSuffixes rest = rest := by
  refine dropSuffix_eq hne ?_ (.inl rfl)
  intro suffix hsuffix before hcs
  have hmark : ∀ s ∈ floatSuffixes, 'f' ∈ s.toList := by decide
  have hf : 'f' ∈ rest := hcs ▸ List.mem_append_right before (hmark suffix hsuffix)
  exact absurd (hrest 'f' hf) (by decide)

end Suffixes

section Values

variable {base n : Nat} {cs : List Char} (hne : cs ≠ [])

include hne

theorem natural64?_of_digitsValue? (hcs : cs.head? ≠ some '+')
    (hvalue : digitsValue? base cs = some n) :
    natural64? base cs = if n < 2 ^ 64 then some n else none := by
  have hplus : (dropHead? ['+'] cs).getD cs = cs := by
    rw [dropHead?_of_head hcs, Option.getD_none]
  unfold natural64?
  rw [hplus]
  change ((if !cs.isEmpty then some () else none).bind fun _ =>
    (digitsValue? base cs).bind fun value =>
      (if value < 2 ^ 64 then some () else none).bind fun _ => some value) = _
  rw [if_pos (by simpa using hne), Option.bind_some, hvalue, Option.bind_some]
  by_cases hn : n < 2 ^ 64
  · rw [if_pos hn, if_pos hn, Option.bind_some]
  · rw [if_neg hn, if_neg hn, Option.bind_none]

variable (hdigits : ∀ c ∈ cs, c.isDigit) (hvalue : digitsValue? 10 cs = some n)

include hdigits hvalue

theorem unsignedDecimal?_of_isDigit : unsignedDecimal? cs = some (.ofNat n) := by
  have hwhole : cs.takeWhile Char.isDigit = cs := List.takeWhile_eq_self_iff.2 hdigits
  have hrest : cs.dropWhile Char.isDigit = [] := List.dropWhile_eq_nil_iff.2 hdigits
  unfold unsignedDecimal?
  rw [hwhole, hrest]
  change ((if !(cs ++ []).isEmpty then some () else none).bind fun _ =>
    (digitsValue? 10 (cs ++ [])).bind fun digits => some (Binary64.ofDecimal digits 0)) = _
  rw [List.append_nil, if_pos (by simpa using hne), Option.bind_some, hvalue, Option.bind_some,
    Binary64.ofDecimal_zero]

theorem decimal?_of_isDigit : decimal? cs = some (.ofNat n) := by
  have hsign : splitSign cs = (false, cs) := by
    unfold splitSign
    split
    · exact absurd (hdigits '-' List.mem_cons_self) (by decide)
    · exact absurd (hdigits '+' List.mem_cons_self) (by decide)
    · rfl
  have hn : 'n' ∉ cs := fun hmem => absurd (hdigits 'n' hmem) (by decide)
  have hinfinity : ¬ (cs = ['i', 'n', 'f'] ∨ cs = ['i', 'n', 'f', 'i', 'n', 'i', 't', 'y']) := by
    rintro (rfl | rfl) <;> exact hn (by decide)
  have hnan : cs ≠ ['n', 'a', 'n'] := by
    rintro rfl
    exact hn (by decide)
  unfold decimal?
  rw [hsign]
  dsimp only
  rw [if_neg hinfinity, if_neg hnan, unsignedDecimal?_of_isDigit hne hdigits hvalue]
  rfl

end Values

section Marks

variable {cs text plain : List Char}

theorem splitRadix?_eq_none (h : ∀ c ∈ cs, c ≠ 'x' ∧ c ≠ 'o' ∧ c ≠ 'b') :
    splitRadix? cs = none := by
  have hmark {c : Char} (hc : c ∉ cs) : dropHead? ['0', c] cs = none := by
    rw [Option.eq_none_iff_forall_ne_some]
    intro rest hrest
    rw [dropHead?_eq_some_iff] at hrest
    exact hc (hrest ▸ List.mem_cons_of_mem '0' List.mem_cons_self)
  unfold splitRadix?
  rw [List.findSome?_eq_none_iff]
  intro entry hentry
  simp only [List.mem_cons, List.not_mem_nil, or_false] at hentry
  rcases hentry with rfl | rfl | rfl
  · exact Option.map_eq_none_iff.2 (hmark fun hx => (h 'x' hx).1 rfl)
  · exact Option.map_eq_none_iff.2 (hmark fun ho => (h 'o' ho).2.1 rfl)
  · exact Option.map_eq_none_iff.2 (hmark fun hb => (h 'b' hb).2.2 rfl)

theorem not_isBlank_of_isAlphanum {c : Char} (h : c.isAlphanum) : ¬ isBlank c := by
  rcases Bool.or_eq_true_iff.1 h with halpha | hdigit
  · exact not_isBlank_of_isAlpha halpha
  · obtain ⟨hlow, hhigh⟩ := Bool.and_eq_true_iff.1 hdigit
    have hlow : 48 ≤ c.toNat := UInt32.le_iff_toNat_le.1 (of_decide_eq_true hlow)
    have hhigh : c.toNat ≤ 57 := UInt32.le_iff_toNat_le.1 (of_decide_eq_true hhigh)
    simp only [isBlank, Bool.or_eq_true, Bool.and_eq_true, decide_eq_true_eq, beq_iff_eq]
    omega

variable (htext : text.filter (· != '_') = plain) (hplain : ∀ c ∈ plain, c.isAlphanum)

include htext hplain

theorem filter_eq_plain : text.filter (fun c => c != '_' && !isBlank c) = plain := by
  rw [List.filter_congr fun c _ => Bool.and_comm (c != '_') (!isBlank c), ← List.filter_filter,
    htext, List.filter_eq_self]
  intro c hc
  simpa using not_isBlank_of_isAlphanum (hplain c hc)

theorem numeralChars?_of_plain :
    numeralChars? text = unsignedNumeral? (plain.map Char.toLower) := by
  have hhead : plain.head? ≠ some '-' := by
    intro hhead
    exact absurd (hplain '-' (List.mem_of_head? hhead)) (by decide)
  unfold numeralChars?
  simp only [filter_eq_plain htext hplain, dropHead?_of_head hhead]

theorem numeralChars?_neg {blanks : List Char} (hblanks : blanks.all isBlank) :
    numeralChars? ('-' :: (blanks ++ text)) =
      (unsignedNumeral? (plain.map Char.toLower)).map Binary64.neg := by
  have hnone : blanks.filter (fun c => c != '_' && !isBlank c) = [] := by
    rw [List.filter_eq_nil_iff]
    intro c hc
    rw [List.all_eq_true.1 hblanks c hc, Bool.not_true, Bool.and_false]
    exact Bool.false_ne_true
  have hcleaned : ('-' :: (blanks ++ text)).filter (fun c => c != '_' && !isBlank c) =
      ['-'] ++ plain := by
    rw [List.filter_cons_of_pos (by decide), List.filter_append, hnone,
      filter_eq_plain htext hplain, List.nil_append, List.singleton_append]
  unfold numeralChars?
  simp only [hcleaned, dropHead?_append]

end Marks

/--
The value of an integer literal of the given radix. Numbers of more than 64 bits have none after a
radix mark.
-/
def literalValue? (radix : Radix) (n : Nat) : Option Binary64 :=
  if radix = .decimal ∨ n < 2 ^ 64 then some (.ofNat n) else none

section Spellings

variable {radix : Radix} {n : Nat} {digits : List Char} {mark suffix : String}

theorem unsignedNumeral?_decimal (hdigits : Written 10 n digits) (hsuffix : suffix ∈ typeMarks) :
    unsignedNumeral? (digits.map Char.toLower ++ suffix.toList) = some (.ofNat n) := by
  have hne : digits.map Char.toLower ≠ [] := by simpa using hdigits.ne_nil
  have hsome := hdigits.isSome_digitValue? (by decide)
  have hdigit : ∀ c ∈ digits.map Char.toLower, c.isDigit := by
    intro c hc
    obtain ⟨d, hd, rfl⟩ := hdigits.exists_digitChar (by decide) c hc
    have hall : ∀ d < 10, d.digitChar.isDigit := by decide
    exact hall d hd
  have hradix : splitRadix? (digits.map Char.toLower ++ suffix.toList) = none := by
    apply splitRadix?_eq_none
    intro c hc
    rcases List.mem_append.1 hc with hc | hc
    · refine ⟨?_, ?_, ?_⟩
      all_goals
        rintro rfl
        exact absurd (hdigit _ hc) (by decide)
    · have hletters : ∀ s ∈ typeMarks,
          s.toList.all fun c => c != 'x' && (c != 'o' && c != 'b') := by
        decide
      simpa using List.all_eq_true.1 (hletters suffix hsuffix) c hc
  unfold unsignedNumeral?
  simp only [hradix, dropSuffix_typeMark hne hsome hsuffix, dropSuffix_floatSuffixes hne hdigit]
  exact decimal?_of_isDigit hne hdigit (hdigits.digitsValue?_eq (by decide))

theorem unsignedNumeral?_marked (hradix : radix ≠ .decimal) (hmark : mark ∈ radix.marks)
    (hdigits : Written radix.base n digits) (hsuffix : suffix ∈ typeMarks) :
    unsignedNumeral? (mark.toList.map Char.toLower ++
      (digits.map Char.toLower ++ suffix.toList)) =
        if n < 2 ^ 64 then some (.ofNat n) else none := by
  have hne : digits.map Char.toLower ≠ [] := by simpa using hdigits.ne_nil
  have hsome := hdigits.isSome_digitValue? radix.base_le
  have hplus : (digits.map Char.toLower).head? ≠ some '+' := by
    intro hhead
    exact absurd (hsome '+' (List.mem_of_head? hhead)) (by decide)
  have hvalue := hdigits.digitsValue?_eq radix.base_le
  unfold unsignedNumeral?
  simp only [Radix.splitRadix?_mark hradix hmark, dropSuffix_typeMark hne hsome hsuffix,
    natural64?_of_digitsValue? hne hplus hvalue]
  split <;> rfl

theorem unsignedNumeral?_spelling (hmark : mark ∈ radix.marks)
    (hdigits : Written radix.base n digits) (hsuffix : suffix ∈ typeMarks) :
    unsignedNumeral? ((mark.toList ++ (digits ++ suffix.toList)).map Char.toLower) =
      literalValue? radix n := by
  have hlower : ∀ s ∈ typeMarks, s.toList.map Char.toLower = s.toList := by decide
  rw [List.map_append, List.map_append, hlower suffix hsuffix]
  unfold literalValue?
  by_cases hradix : radix = .decimal
  · subst hradix
    rw [if_pos (.inl rfl), List.mem_singleton.1 hmark]
    exact unsignedNumeral?_decimal hdigits hsuffix
  · rw [unsignedNumeral?_marked hradix hmark hdigits hsuffix]
    simp only [hradix, false_or]

theorem isAlphanum_of_mem_spelling (hmark : mark ∈ radix.marks)
    (hdigits : Written radix.base n digits) (hsuffix : suffix ∈ typeMarks) :
    ∀ c ∈ mark.toList ++ (digits ++ suffix.toList), c.isAlphanum := by
  have hmarks : ∀ s ∈ radix.marks, s.toList.all Char.isAlphanum := by
    cases radix <;> decide
  have hsuffixes : ∀ s ∈ typeMarks, s.toList.all Char.isAlphanum := by decide
  intro c hmem
  rcases List.mem_append.1 hmem with hmem | hmem
  · exact List.all_eq_true.1 (hmarks mark hmark) c hmem
  · rcases List.mem_append.1 hmem with hmem | hmem
    · exact hdigits.isAlphanum_of_mem radix.base_le c hmem
    · exact List.all_eq_true.1 (hsuffixes suffix hsuffix) c hmem

end Spellings

/--
All spellings of a number in one radix have one value, and a minus sign before them gives the
negated value. The four radixes agree on the numbers of up to 64 bits. A larger number has a value
in decimal digits alone, and is not read at all after a radix mark.
-/
theorem numeral_of_spells {radix : Radix} {n : Nat} {text : List Char}
    (h : Spells radix n text) :
    numeral? (String.ofList text) = literalValue? radix n ∧
    (∀ blanks : List Char, blanks.all isBlank →
      numeral? (String.ofList ('-' :: (blanks ++ text))) =
        (literalValue? radix n).map Binary64.neg) ∧
    (n < 2 ^ 53 → ∃ x, literalValue? radix n = some x ∧ x.toRatio.1 = n * x.toRatio.2) := by
  obtain ⟨mark, suffix, hmark, hdigits, hsuffix, htext⟩ := h
  have hplain := isAlphanum_of_mem_spelling hmark hdigits hsuffix
  have hvalue := unsignedNumeral?_spelling hmark hdigits hsuffix
  refine ⟨?_, ?_, ?_⟩
  · rw [numeral?, String.toList_ofList, numeralChars?_of_plain htext hplain, hvalue]
  · intro blanks hblanks
    rw [numeral?, String.toList_ofList, numeralChars?_neg htext hplain hblanks, hvalue]
  · intro hn
    exact ⟨.ofNat n, if_pos (.inr (by omega)), Binary64.toRatio_ofNat hn⟩

theorem hexadecimal_numeral_of_spells :
    Spells .hexadecimal 255 "0XF_fi128".toList ∧
    numeral? (String.ofList "0XF_fi128".toList) = some (.ofNat 255) ∧
    numeral? (String.ofList ('-' :: ([' '] ++ "0XF_fi128".toList))) =
      some (Binary64.ofNat 255).neg := by
  have hdigits : Written 16 (15 * 16 + 15) ['F', 'f'] :=
    .next (.first (by decide) (.inr (by decide))) (by decide) (.inl (by decide))
  have hspells : Spells .hexadecimal 255 "0XF_fi128".toList :=
    .intro "0X" "i128" (by decide) hdigits (by decide) (by decide)
  obtain ⟨hvalue, hneg, -⟩ := numeral_of_spells hspells
  exact ⟨hspells, hvalue, hneg [' '] (by decide)⟩

/--
Two spellings of one number, of which only the first is read.
-/
theorem large_hexadecimal_not_read :
    Spells .decimal (2 ^ 64) "18446744073709551616".toList ∧
    Spells .hexadecimal (2 ^ 64) "0x10000000000000000".toList ∧
    numeral? "18446744073709551616" = some ⟨0x43F0000000000000⟩ ∧
    numeral? "0x10000000000000000" = none := by
  refine ⟨?_, ?_, by decide +kernel, by decide +kernel⟩
  · have hdigits : Written 10 (2 ^ 64) _ := written_toDigits (by decide) _
    exact .intro "" "" (by decide) hdigits (by decide) (by decide +kernel)
  · have hdigits : Written 16 (2 ^ 64) _ := written_toDigits (by decide) _
    exact .intro "0x" "" (by decide) hdigits (by decide) (by decide +kernel)

end Polyglot.Text
