import Polyglot.Proofs.Affixes
import Polyglot.Proofs.Blanks
import Polyglot.Text.Quote

/-!
This module contains the quoting of texts. A literal is a text between two quotes, with letters
before it that tell how it is meant; what is stripped off it are these letters and the quotes.
-/

namespace Polyglot.Text

theorem between?_append (quote content : List Char) :
    between? quote (quote ++ (content ++ quote)) = some content := by
  rw [between?, dropHead?_append, Option.bind_some, dropTail?_append]

theorem between?_of_head {a : Char} {start body : List Char} (h : body.head? ≠ some a) :
    between? (a :: start) body = none := by
  rw [between?, dropHead?_of_head h, Option.bind_none]

theorem between?_triple {q : Char} {content : List Char} (h : content.head? ≠ some q) :
    between? [q, q, q] ([q] ++ (content ++ [q])) = none := by
  have hnext : dropHead? [q, q, q] ([q] ++ (content ++ [q])) =
      dropHead? [q, q] (content ++ [q]) := by
    rw [List.singleton_append, dropHead?, if_pos BEq.rfl]
  rw [between?, hnext]
  cases content with
  | nil =>
    rw [List.nil_append, dropHead?, if_pos BEq.rfl]
    rfl
  | cons c cs =>
    rw [dropHead?_of_head, Option.bind_none]
    exact h

/--
The characters of quotes.
-/
def quoteChars : List Char := ['"', '\'', '\x60']

theorem quoteChar_plain {q : Char} (h : q ∈ quoteChars) :
    ¬ isBlank q ∧ ¬ q.isAlpha ∧ ¬ (q == '#') := by
  simp only [quoteChars, List.mem_cons, List.not_mem_nil, or_false] at h
  rcases h with rfl | rfl | rfl
  all_goals decide

theorem quotes_eq :
    quotes = [['"', '"', '"'], ['\'', '\'', '\''], ['"'], ['\''], ['\x60']] :=
  rfl

theorem exists_quoteChar {quote : List Char} (h : quote ∈ quotes) :
    ∃ q ∈ quoteChars, ∃ more, quote = q :: more ∧ quote = more ++ [q] := by
  simp only [quotes_eq, List.mem_cons, List.not_mem_nil, or_false] at h
  rcases h with rfl | rfl | rfl | rfl | rfl
  · exact ⟨'"', by decide, ['"', '"'], rfl, rfl⟩
  · exact ⟨'\'', by decide, ['\'', '\''], rfl, rfl⟩
  · exact ⟨'"', by decide, [], rfl, rfl⟩
  · exact ⟨'\'', by decide, [], rfl, rfl⟩
  · exact ⟨'\x60', by decide, [], rfl, rfl⟩

theorem toNat_of_isAlpha {c : Char} (h : c.isAlpha) : 65 ≤ c.toNat ∧ c.toNat ≤ 122 := by
  rcases Bool.or_eq_true_iff.1 h with hupper | hlower
  · obtain ⟨hlow, hhigh⟩ : 'A'.val ≤ c.val ∧ c.val ≤ 'Z'.val := of_decide_eq_true hupper
    have hlow : 65 ≤ c.toNat := UInt32.le_iff_toNat_le.1 hlow
    have hhigh : c.toNat ≤ 90 := UInt32.le_iff_toNat_le.1 hhigh
    omega
  · obtain ⟨hlow, hhigh⟩ := Bool.and_eq_true_iff.1 hlower
    have hlow : 97 ≤ c.toNat := UInt32.le_iff_toNat_le.1 (of_decide_eq_true hlow)
    have hhigh : c.toNat ≤ 122 := UInt32.le_iff_toNat_le.1 (of_decide_eq_true hhigh)
    omega

theorem not_isBlank_of_isAlpha {c : Char} (h : c.isAlpha) : ¬ isBlank c := by
  have hrange := toNat_of_isAlpha h
  simp only [isBlank, Bool.or_eq_true, Bool.and_eq_true, decide_eq_true_eq, beq_iff_eq]
  omega

section Literal

theorem getLast?_literal (mark content : List Char) {quote more : List Char} {q : Char}
    (h : quote = more ++ [q]) : (mark ++ (quote ++ (content ++ quote))).getLast? = some q := by
  rw [h]
  simp only [← List.append_assoc]
  exact List.getLast?_concat

variable {mark quote content : List Char} (hmark : ∀ c ∈ mark, c.isAlpha) (hquote : quote ∈ quotes)

include hmark hquote

theorem trimChars_literal :
    trimChars (mark ++ (quote ++ (content ++ quote))) = mark ++ (quote ++ (content ++ quote)) := by
  obtain ⟨q, hq, more, hfirst, hend⟩ := exists_quoteChar hquote
  have hblank := (quoteChar_plain hq).1
  apply trimChars_eq_self
  · intro c hc
    cases hlist : mark with
    | nil =>
      rw [hlist, hfirst] at hc
      cases hc
      exact hblank
    | cons d rest =>
      rw [hlist] at hc
      obtain rfl : d = c := Option.some.inj hc
      exact not_isBlank_of_isAlpha (hmark d (hlist ▸ List.mem_cons_self))
  · intro c hc
    rw [getLast?_literal mark content hend] at hc
    cases hc
    exact hblank

theorem literalBody_literal :
    literalBody (mark ++ (quote ++ (content ++ quote))) = quote ++ (content ++ quote) := by
  obtain ⟨q, hq, more, hfirst, hend⟩ := exists_quoteChar hquote
  obtain ⟨-, halpha, hhash⟩ := quoteChar_plain hq
  have hhead : (quote ++ (content ++ quote)).head? = some q := by
    rw [hfirst]
    rfl
  have hmarked : (mark ++ (quote ++ (content ++ quote))).dropWhile Char.isAlpha =
      quote ++ (content ++ quote) := by
    rw [List.dropWhile_append_of_pos hmark]
    apply dropWhile_of_head
    intro c hc
    rw [hhead] at hc
    cases hc
    exact halpha
  have hbody : (quote ++ (content ++ quote)).dropWhile (· == '#') =
      quote ++ (content ++ quote) := by
    apply dropWhile_of_head
    intro c hc
    rw [hhead] at hc
    cases hc
    exact hhash
  have hclosing : (mark ++ (quote ++ (content ++ quote))).reverse.takeWhile (· == '#') = [] := by
    have hlast := getLast?_literal mark content hend
    rw [← List.head?_reverse] at hlast
    cases hreverse : (mark ++ (quote ++ (content ++ quote))).reverse with
    | nil => rfl
    | cons c cs =>
      rw [hreverse] at hlast
      cases hlast
      exact List.takeWhile_cons_of_neg hhash
  unfold literalBody
  rw [hclosing, hmarked, hbody]
  exact List.take_length

omit hmark in
/--
The first quotes that match are those of the literal, unless the content of a literal in single
quotes begins with such a quote.
-/
theorem findSome?_between? (hhead : quote.length = 1 → content.head? ≠ quote.head?) :
    quotes.findSome? (between? · (quote ++ (content ++ quote))) = some content := by
  have hself := between?_append quote content
  simp only [quotes_eq, List.mem_cons, List.not_mem_nil, or_false] at hquote
  rw [quotes_eq]
  rcases hquote with rfl | rfl | rfl | rfl | rfl
  · rw [List.findSome?_cons, hself]
  · rw [List.findSome?_cons, between?_of_head, List.findSome?_cons, hself]
    simp
  · rw [List.findSome?_cons, between?_triple (hhead rfl), List.findSome?_cons, between?_of_head,
      List.findSome?_cons, hself]
    simp
  · rw [List.findSome?_cons, between?_of_head, List.findSome?_cons, between?_triple (hhead rfl),
      List.findSome?_cons, between?_of_head, List.findSome?_cons, hself]
    · simp
    · simp
  · rw [List.findSome?_cons, between?_of_head, List.findSome?_cons, between?_of_head,
      List.findSome?_cons, between?_of_head, List.findSome?_cons, between?_of_head,
      List.findSome?_cons, hself]
    all_goals simp

/--
Stripping a literal gives back what stands between its quotes.
-/
theorem unquoteChars_literal (hhead : quote.length = 1 → content.head? ≠ quote.head?) :
    unquoteChars (mark ++ (quote ++ (content ++ quote))) = content := by
  simp only [unquoteChars, trimChars_literal hmark hquote, literalBody_literal hmark hquote,
    findSome?_between? hquote hhead, Option.getD_some]

end Literal

end Polyglot.Text
