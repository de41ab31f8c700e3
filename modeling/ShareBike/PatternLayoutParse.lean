import ShareBike.PatternLayout

/-!
# Patterns and what they print

Every sequence of texts and conversions has a pattern, which the parser takes apart
into what was meant: the layout prints the texts as they are and the conversions with
their widths.
-/
namespace ShareBike.Layout
open ShareBike.Lib ShareBike.Hierarchy

/-- A part of a pattern: a text, or a conversion with its widths and its argument. -/
inductive Item
  | text (bytes : List UInt8)
  | conversion (minWidth : ℤ) (maxWidth : ℕ) (ch : UInt8) (argument : List UInt8)

/-- The widths as they are written; zero is not written. -/
def widthText (minWidth : ℤ) (maxWidth : ℕ) : List UInt8 :=
  (if minWidth = 0 then [] else intText minWidth) ++
    if maxWidth = 0 then [] else 46 :: decimal maxWidth

/-- Every conversion has its braces, so that a text after it may start with a brace. -/
def Item.pattern : Item → List UInt8
  | .text bytes => bytes.flatMap fun b => if b = 37 then [37, 37, 123, 125] else [b]
  | .conversion minWidth maxWidth ch argument =>
    37 :: (widthText minWidth maxWidth ++ ch :: 123 :: (argument ++ [125]))

/-- The widths can be read, and the conversion is one that prints something. The precision of
`%c` can be left out, but is not blank. -/
def Item.Valid : Item → Prop
  | .text _ => True
  | .conversion minWidth maxWidth ch argument =>
    -2 ^ 31 < minWidth ∧ minWidth < 2 ^ 31 ∧ maxWidth < 2 ^ 64 ∧ 125 ∉ argument ∧
      (ch = 99 → argument = [] ∨ ∃ b ∈ argument, isSpace b = false) ∧
      ∃ component, specifier ch argument = some (.component component)

variable {w : World} {event : LoggingEvent} {pattern rest argument : List UInt8} {s : Scan}
  {minWidth : ℤ} {maxWidth : ℕ} {ch : UInt8} {component : Component}

section Prefix

end Prefix

section Scan

variable (pattern)

end Scan

end ShareBike.Layout
