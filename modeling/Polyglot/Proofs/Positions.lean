import Polyglot.Proofs.Lists
import Polyglot.Tree.Source

/-!
This module contains the order of positions. Rows and columns that are too large for a word become
the largest one, with the exception of one row: the line of the last row of a word wraps to zero.
The positions of a source text stand in the order of the byte offsets that they belong to, as long
as rows and columns fit into words.
-/

namespace Polyglot

namespace Position

/--
The largest number of a word. Lines count from one, so the row of this number has no line.
-/
def lastRow : Nat := UInt32.size - 1

theorem toNat_clampWord (n : Nat) (top : UInt32) :
    (clampWord n top).toNat = if n < UInt32.size then n else top.toNat := by
  unfold clampWord
  split
  case isTrue h => exact UInt32.toNat_ofNat_of_lt h
  case isFalse => rfl

theorem toNat_line_ofRowColumn (row column : Nat) :
    (ofRowColumn row column).line.toNat = if row = lastRow then 0 else min (row + 1) lastRow := by
  have hline : (ofRowColumn row column).line.toNat =
      ((if row < UInt32.size then row else lastRow - 1) + 1) % UInt32.size := by
    simp only [ofRowColumn, UInt32.toNat_add, toNat_clampWord]
    rfl
  rw [hline]
  unfold lastRow UInt32.size
  -- Only the last row fits into a word while its line does not.
  split <;> split <;> omega

theorem toNat_column_ofRowColumn (row column : Nat) :
    (ofRowColumn row column).column.toNat = min column lastRow := by
  have hcolumn : (ofRowColumn row column).column.toNat =
      if column < UInt32.size then column else lastRow :=
    toNat_clampWord column 0xFFFFFFFF
  rw [hcolumn]
  unfold lastRow UInt32.size
  split <;> omega

theorem before_iff_toNat (p q : Position) :
    p.before q ↔ p.line.toNat < q.line.toNat ∨
      p.line.toNat = q.line.toNat ∧ p.column.toNat ≤ q.column.toNat := by
  rw [before, UInt32.lt_iff_toNat_lt, UInt32.le_iff_toNat_le, UInt32.toNat_inj]

/--
Rows and columns in source order have positions in source order, unless the later row is the last
one of a word and the earlier one is not.
-/
theorem ofRowColumn_before_iff {row column row' column' : Nat} (hrow' : row' < UInt32.size)
    (hcolumn : column < UInt32.size) (hcolumn' : column' < UInt32.size)
    (h : row < row' ∨ row = row' ∧ column ≤ column') :
    (ofRowColumn row column).before (ofRowColumn row' column') ↔
      (row' = lastRow → row = lastRow) := by
  rw [before_iff_toNat]
  simp only [toNat_line_ofRowColumn, toNat_column_ofRowColumn]
  unfold lastRow UInt32.size at *
  split <;> split <;> omega

/--
The last row of a word is the only one whose line wraps. All other rows have a line from one on, and
all positions but those of that row stand in source order.
-/
theorem ofRowColumn_wraps_iff (row column row' column' : Nat) :
    ((ofRowColumn row column).line.toNat = (clampWord row 0xFFFFFFFE).toNat + 1 ↔
      row ≠ lastRow) ∧
    (1 ≤ (ofRowColumn row column).line ↔ row ≠ lastRow) ∧
    (row ≠ lastRow → (ofRowColumn row column).line.toNat = min (row + 1) lastRow) ∧
    (ofRowColumn row column).column.toNat = min column lastRow ∧
    (row < UInt32.size → row' < UInt32.size → column < UInt32.size → column' < UInt32.size →
      row < row' ∨ row = row' ∧ column ≤ column' →
      ((ofRowColumn row column).before (ofRowColumn row' column') ↔
        (row' = lastRow → row = lastRow))) := by
  have hline := toNat_line_ofRowColumn row column
  refine ⟨?_, ?_, ?_, toNat_column_ofRowColumn row column, ?_⟩
  · have htop : (0xFFFFFFFE : UInt32).toNat + 1 = lastRow := rfl
    rw [hline, toNat_clampWord]
    unfold lastRow UInt32.size at *
    split <;> split <;> omega
  · rw [UInt32.le_iff_toNat_le, hline, UInt32.toNat_one]
    unfold lastRow UInt32.size
    split <;> omega
  · intro hrow
    rw [hline, if_neg hrow]
  · intro _ hrow' hcolumn hcolumn' h
    exact ofRowColumn_before_iff hrow' hcolumn hcolumn' h

theorem next_to_last_row_in_order :
    (ofRowColumn 0xFFFFFFFD 0xFFFFFFFF).line.toNat = 0xFFFFFFFE ∧
    (ofRowColumn 0xFFFFFFFD 0xFFFFFFFF).before (ofRowColumn 0xFFFFFFFE 0) := by
  obtain ⟨-, -, hline, -, horder⟩ := ofRowColumn_wraps_iff 0xFFFFFFFD 0xFFFFFFFF 0xFFFFFFFE 0
  refine ⟨hline (by decide), ?_⟩
  rw [horder (by decide) (by decide) (by decide) (by decide) (.inl (by decide))]
  decide

theorem last_row_wraps :
    ¬ 1 ≤ (ofRowColumn 0xFFFFFFFF 0).line ∧
    ¬ (ofRowColumn 0xFFFFFFFE 0).before (ofRowColumn 0xFFFFFFFF 0) := by
  decide

end Position

theorem length_takeWhile_newlineOffsets (offset start : Nat) (bytes : List UInt8) :
    ((newlineOffsets start bytes).takeWhile (· < offset)).length ≤ offset - start := by
  induction bytes generalizing start with
  | nil => exact Nat.zero_le _
  | cons b rest ih =>
    have hrest := ih (start + 1)
    rw [newlineOffsets]
    split
    · rw [List.takeWhile_cons]
      split
      · simp only [decide_eq_true_eq] at *
        rw [List.length_cons]
        omega
      · exact Nat.zero_le _
    · omega

namespace Source

variable (source : Source) {i j : Nat}

/--
The newlines before an offset.
-/
def newlinesBefore (offset : Nat) : List Nat := source.newlines.takeWhile (· < offset)

theorem rowColumn_eq (offset : Nat) :
    source.rowColumn offset = ((source.newlinesBefore offset).length,
      offset - ((source.newlinesBefore offset).getLast?.map (· + 1)).getD 0) := by
  unfold rowColumn newlinesBefore
  cases h : (source.newlines.takeWhile (· < offset)).getLast? with
  | none =>
    rw [List.getLast?_eq_none_iff.1 h]
    rfl
  | some newline =>
    simp only [h]
    rfl

theorem rowColumn_fst_le (offset : Nat) : (source.rowColumn offset).1 ≤ offset := by
  rw [rowColumn_eq, newlinesBefore, source.newlines_eq]
  exact length_takeWhile_newlineOffsets offset 0 _

theorem rowColumn_snd_le (offset : Nat) : (source.rowColumn offset).2 ≤ offset := by
  rw [rowColumn_eq]
  exact Nat.sub_le _ _

theorem rowColumn_lex (hij : i ≤ j) :
    (source.rowColumn i).1 < (source.rowColumn j).1 ∨
      (source.rowColumn i).1 = (source.rowColumn j).1 ∧
        (source.rowColumn i).2 ≤ (source.rowColumn j).2 := by
  have hinit : source.newlinesBefore i <+: source.newlinesBefore j := by
    apply takeWhile_prefix_takeWhile
    intro newline h
    simp only [decide_eq_true_eq] at *
    omega
  rw [rowColumn_eq, rowColumn_eq]
  rcases Nat.lt_or_eq_of_le hinit.length_le with hlt | heq
  · exact .inl hlt
  · -- The two offsets are on one line, and the columns count from the same newline.
    rw [hinit.eq_of_length heq]
    exact .inr ⟨rfl, Nat.sub_le_sub_right hij _⟩

/--
Of two offsets of a text that is not too long, the smaller one has the earlier position.
-/
theorem position_before (hij : i ≤ j) (hj : j + 1 < UInt32.size) :
    (source.position i).before (source.position j) := by
  have hrow := source.rowColumn_fst_le j
  have hcolumn := source.rowColumn_snd_le i
  have hcolumn' := source.rowColumn_snd_le j
  have hlex := source.rowColumn_lex hij
  have hlast : (source.rowColumn j).1 ≠ Position.lastRow := by
    unfold Position.lastRow
    omega
  unfold position
  rw [Position.ofRowColumn_before_iff _ _ _ hlex]
  · exact fun h => absurd h hlast
  all_goals omega

end Source

end Polyglot
