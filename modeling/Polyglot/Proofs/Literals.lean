import Mathlib.Data.List.Infix
import Polyglot.Proofs.Quoting

/-!
This module contains the literals of the supported languages as data: a form, the letters before the
quotes and the content. Stripping the text of a literal gives its content back, escapes as they are
written. The exception are raw strings whose content begins and ends with two quotes, which are
taken for triple quotes.
-/

namespace Polyglot.Text

/--
Whether every occurrence of the delimiter in a content follows a backslash.
-/
def OnlyEscaped (delimiter content : List Char) : Prop :=
  ∀ i < content.length, delimiter <+: content.drop i → (content.take i).getLast? = some '\\'

instance (delimiter content : List Char) : Decidable (OnlyEscaped delimiter content) :=
  inferInstanceAs (Decidable (∀ i < content.length, delimiter <+: content.drop i →
    (content.take i).getLast? = some '\\'))

/--
The forms of string literals.
-/
inductive Form where
  /-- Between two quotes. -/
  | single (quote : Char)
  /-- Between two triples of quotes. -/
  | triple (quote : Char)
  /-- A raw string with hashes outside its quotes. -/
  | raw (hashes : Nat)

namespace Form

def opening : Form → List Char
  | single quote => [quote]
  | triple quote => [quote, quote, quote]
  | raw hashes => List.replicate hashes '#' ++ ['"']

def closing : Form → List Char
  | single quote => [quote]
  | triple quote => [quote, quote, quote]
  | raw hashes => '"' :: List.replicate hashes '#'

def isRaw : Form → Bool
  | raw _ => true
  | _ => false

/--
Whether a literal of this form can have the given mark and content.
-/
def IsLegal (mark content : List Char) : Form → Prop
  | single quote =>
    quote ∈ ['"', '\'', '\x60'] ∧ (∀ c ∈ mark, c.isAlpha) ∧ OnlyEscaped [quote] content
  | triple quote =>
    quote ∈ ['"', '\''] ∧ (∀ c ∈ mark, c.isAlpha) ∧ OnlyEscaped [quote, quote, quote] content ∧
      (content.getLast? = some quote → content.dropLast.getLast? = some '\\')
  | raw hashes =>
    mark ∈ [['r'], ['b', 'r']] ∧ ¬ '"' :: List.replicate hashes '#' <:+: content

/--
The text of a literal.
-/
def text (form : Form) (mark content : List Char) : List Char :=
  mark ++ (form.opening ++ (content ++ form.closing))

end Form

theorem between?_eq_some_iff {quote cs inner : List Char} :
    between? quote cs = some inner ↔ cs = quote ++ (inner ++ quote) := by
  simp only [between?, Option.bind_eq_some_iff, dropHead?_eq_some_iff, dropTail?_eq_some_iff]
  constructor
  · rintro ⟨rest, rfl, rfl⟩
    rfl
  · rintro rfl
    exact ⟨_, rfl, rfl⟩

theorem head?_ne_of_onlyEscaped {quote : Char} {content : List Char}
    (h : OnlyEscaped [quote] content) : content.head? ≠ some quote := by
  intro hhead
  cases content with
  | nil => cases hhead
  | cons c cs =>
    obtain rfl : c = quote := Option.some.inj hhead
    have hescaped := h 0 (Nat.zero_lt_succ _) ⟨cs, rfl⟩
    cases hescaped

/-! Raw strings -/

section Raw

variable {mark : List Char} (hashes : Nat) (content : List Char)

theorem text_raw (mark : List Char) :
    (Form.raw hashes).text mark content =
      mark ++ (List.replicate hashes '#' ++
        (['"'] ++ (content ++ ['"']) ++ List.replicate hashes '#')) := by
  simp [Form.text, Form.opening, Form.closing]

theorem not_isBlank_getLast?_raw (mark : List Char) :
    ∀ c ∈ ((Form.raw hashes).text mark content).getLast?, ¬ isBlank c := by
  intro c hc
  cases hashes with
  | zero =>
    have hlast : (Form.raw 0).text mark content = (mark ++ ['"'] ++ content) ++ ['"'] := by
      simp [text_raw]
    rw [hlast, List.getLast?_concat] at hc
    cases hc
    decide
  | succ hashes =>
    have hlast : (Form.raw (hashes + 1)).text mark content = (mark ++
        (List.replicate (hashes + 1) '#' ++ (['"'] ++ (content ++ ['"']) ++
          List.replicate hashes '#'))) ++ ['#'] := by
      simp [text_raw, List.replicate_succ']
    rw [hlast, List.getLast?_concat] at hc
    cases hc
    decide

theorem trimChars_raw (hmark : mark ≠ []) (hletters : ∀ c ∈ mark, c.isAlpha) :
    trimChars ((Form.raw hashes).text mark content) = (Form.raw hashes).text mark content := by
  apply trimChars_eq_self
  · intro c hc
    apply not_isBlank_of_isAlpha
    apply hletters c
    apply List.mem_of_mem_head?
    rwa [Form.text, List.head?_append_of_ne_nil _ hmark] at hc
  · exact not_isBlank_getLast?_raw hashes content mark

theorem dropWhile_hashes (rest : List Char) :
    (List.replicate hashes '#' ++ '"' :: rest).dropWhile (· == '#') = '"' :: rest := by
  rw [List.dropWhile_append_of_pos, List.dropWhile_cons_of_neg]
  · decide
  · intro c hc
    rw [List.eq_of_mem_replicate hc]
    rfl

theorem literalBody_raw (hletters : ∀ c ∈ mark, c.isAlpha) :
    literalBody ((Form.raw hashes).text mark content) = ['"'] ++ (content ++ ['"']) := by
  have hclosing : ((Form.raw hashes).text mark content).reverse.takeWhile (· == '#') =
      List.replicate hashes '#' := by
    simp [text_raw]
  have hmarked : ((Form.raw hashes).text mark content).dropWhile Char.isAlpha =
      List.replicate hashes '#' ++
        (['"'] ++ (content ++ ['"']) ++ List.replicate hashes '#') := by
    rw [text_raw, List.dropWhile_append_of_pos hletters]
    apply dropWhile_of_head
    intro c hc
    cases hashes with
    | zero =>
      cases hc
      decide
    | succ hashes =>
      cases hc
      decide
  have hbody : (List.replicate hashes '#' ++ (['"'] ++ (content ++ ['"']) ++
      List.replicate hashes '#')).dropWhile (· == '#') =
      ['"'] ++ (content ++ ['"']) ++ List.replicate hashes '#' := by
    apply dropWhile_hashes
  unfold literalBody
  simp only
  rw [hclosing, hmarked, hbody, List.length_append, Nat.add_sub_cancel, List.take_left]

theorem unquoteChars_raw (hmark : mark ≠ []) (hletters : ∀ c ∈ mark, c.isAlpha) :
    unquoteChars ((Form.raw hashes).text mark content) =
      (between? ['"', '"'] content).getD content := by
  have htriple : between? ['"', '"', '"'] (['"'] ++ (content ++ ['"'])) =
      between? ['"', '"'] content := by
    apply Option.ext
    intro inner
    rw [between?_eq_some_iff, between?_eq_some_iff]
    have hshape : ['"', '"', '"'] ++ (inner ++ ['"', '"', '"']) =
        ['"'] ++ (['"', '"'] ++ (inner ++ ['"', '"']) ++ ['"']) := by
      simp
    rw [hshape, List.append_cancel_left_eq, List.append_cancel_right_eq]
  have hsingle : between? ['"'] (['"'] ++ (content ++ ['"'])) = some content :=
    between?_append ['"'] content
  have hother : between? ['\'', '\'', '\''] (['"'] ++ (content ++ ['"'])) = none :=
    between?_of_head (by simp)
  simp only [unquoteChars, trimChars_raw hashes content hmark hletters,
    literalBody_raw hashes content hletters, quotes_eq, List.findSome?_cons, htriple, hother,
    hsingle]
  cases between? ['"', '"'] content with
  | none => rfl
  | some inner => rfl

end Raw

/--
Whether a content begins and ends with two quotes of its own, with `inner` between them.
-/
def IsDoubled (content inner : List Char) : Prop := content = ['"', '"'] ++ (inner ++ ['"', '"'])

namespace Form

variable {form : Form} {mark content : List Char}

theorem unquoteChars_text (h : form.IsLegal mark content) (hraw : ¬ form.isRaw) :
    unquoteChars (form.text mark content) = content := by
  cases form with
  | raw hashes => exact absurd rfl hraw
  | single quote =>
    obtain ⟨hquote, hletters, hescaped⟩ := h
    apply unquoteChars_literal hletters
    · simp only [List.mem_cons, List.not_mem_nil, or_false] at hquote
      rcases hquote with rfl | rfl | rfl
      all_goals decide
    · exact fun _ => head?_ne_of_onlyEscaped hescaped
  | triple quote =>
    obtain ⟨hquote, hletters, -⟩ := h
    apply unquoteChars_literal hletters
    · simp only [List.mem_cons, List.not_mem_nil, or_false] at hquote
      rcases hquote with rfl | rfl
      all_goals decide
    · intro hlength
      cases hlength

theorem unquoteChars_text_of_isRaw (h : form.IsLegal mark content) (hraw : form.isRaw) :
    unquoteChars (form.text mark content) = (between? ['"', '"'] content).getD content := by
  cases form with
  | single quote => cases hraw
  | triple quote => cases hraw
  | raw hashes =>
    obtain ⟨hmark, -⟩ := h
    have hletters : mark ≠ [] ∧ mark.all Char.isAlpha := by
      simp only [List.mem_cons, List.not_mem_nil, or_false] at hmark
      rcases hmark with rfl | rfl
      all_goals decide
    exact unquoteChars_raw hashes content hletters.1 (List.all_eq_true.1 hletters.2)

end Form

/--
Stripping the text of a literal gives its content back, escapes as they are written, unless it is a
raw string with two quotes at both ends of its content: these are taken for the rest of triple
quotes and stripped as well.
-/
theorem unquote_text_iff (form : Form) (mark content : List Char)
    (h : form.IsLegal mark content) :
    (unquote (String.ofList (form.text mark content)) = String.ofList content ↔
      ¬ (form.isRaw ∧ ∃ inner, IsDoubled content inner)) ∧
    ∀ inner, form.isRaw → IsDoubled content inner →
      unquote (String.ofList (form.text mark content)) = String.ofList inner := by
  have hdoubled : ∀ inner, form.isRaw → IsDoubled content inner →
      unquoteChars (form.text mark content) = inner := by
    intro inner hraw hinner
    rw [Form.unquoteChars_text_of_isRaw h hraw, between?_eq_some_iff.2 hinner, Option.getD_some]
  simp only [unquote, String.toList_ofList, String.ofList_inj]
  refine ⟨⟨?_, ?_⟩, hdoubled⟩
  · rintro hcontent ⟨hraw, inner, hinner⟩
    have hlength := congrArg List.length hinner
    rw [← hdoubled inner hraw hinner, hcontent] at hlength
    simp only [List.length_append, List.length_cons, List.length_nil] at hlength
    omega
  · intro hplain
    by_cases hraw : form.isRaw
    case neg => exact Form.unquoteChars_text h hraw
    case pos =>
      rw [Form.unquoteChars_text_of_isRaw h hraw]
      cases hbetween : between? ['"', '"'] content with
      | none => rfl
      | some inner => exact absurd ⟨hraw, inner, between?_eq_some_iff.1 hbetween⟩ hplain

theorem rawString_unquoted :
    (Form.raw 2).IsLegal ['b', 'r'] ['"', '#', 'a', '"'] ∧
      unquote "br##\"\"#a\"\"##" = "\"#a\"" := by
  have hlegal : (Form.raw 2).IsLegal ['b', 'r'] ['"', '#', 'a', '"'] := ⟨by decide, by decide⟩
  refine ⟨hlegal, (unquote_text_iff _ _ _ hlegal).1.2 ?_⟩
  rintro ⟨-, inner, hinner⟩
  cases hinner

/--
Two quotes at both ends of a raw string are lost.
-/
theorem quotedRawString_not_unquoted :
    (Form.raw 1).IsLegal ['r'] ['"', '"', 'x', '"', '"'] ∧
      String.ofList ((Form.raw 1).text ['r'] ['"', '"', 'x', '"', '"']) = "r#\"\"\"x\"\"\"#" ∧
      unquote "r#\"\"\"x\"\"\"#" = "x" :=
  ⟨⟨by decide, by decide⟩, by decide, by decide +kernel⟩

end Polyglot.Text
