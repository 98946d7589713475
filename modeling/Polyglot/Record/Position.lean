/-!
This module contains positions in a source text. Lines count from one, columns count bytes from
zero, and both are words of 32 bits.
-/

namespace Polyglot

structure Position where
  line : UInt32
  column : UInt32
deriving DecidableEq, Repr, Inhabited

namespace Position

/--
The word nearest to `n` from below, with `top` in place of numbers that do not fit.
-/
def clampWord (n : Nat) (top : UInt32) : UInt32 :=
  if n < UInt32.size then UInt32.ofNat n else top

/--
The position of a row and a column that both count from zero. Columns that do not fit into a word
become the largest one, and so do the lines of rows that do not fit.
-/
def ofRowColumn (row column : Nat) : Position where
  line := clampWord row 0xFFFFFFFE + 1
  column := clampWord column 0xFFFFFFFF

/--
Source order: by line, then by column.
-/
def before (p q : Position) : Prop :=
  p.line < q.line ∨ (p.line = q.line ∧ p.column ≤ q.column)

instance (p q : Position) : Decidable (p.before q) := by
  unfold before
  infer_instance

end Position

end Polyglot
