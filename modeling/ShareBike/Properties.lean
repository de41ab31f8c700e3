import Mathlib.Data.Nat.Basic
import ShareBike.Lib.Printf
import ShareBike.Lib.Text

/-!
# Property files

`Properties` of the log library: a sorted map of strings, read from the lines of a file
and written back. The reading goes through a buffer of 256 bytes. The environment
is a parameter; a read never reports a damaged stream.
-/
namespace ShareBike.PropertyFile
open ShareBike.Lib

/-- `std::map<std::string, std::string>`. -/
abbrev Properties := Std.ExtTreeMap (List UInt8) (List UInt8)

/-- `std::istream`: what is not read yet, and the state bits. -/
structure Stream where
  rest : List UInt8
  eof : Bool
  fail : Bool

/-- `getline(line, n)`: the bytes stored before the NUL. -/
def getline (n : ℕ) (s : Stream) : List UInt8 × Stream :=
  if s.fail ∨ s.eof then ([], { s with fail := true })
  else
    let line := (s.rest.take (n - 1)).takeWhile (· ≠ 10)
    match s.rest.drop line.length with
    | [] => (line, ⟨[], true, line = []⟩)
    | c :: rest =>
      if c = 10 then (line, ⟨rest, false, false⟩) else (line, ⟨c :: rest, false, true⟩)

/-- `StringUtil::trim`. -/
def trim (s : List UInt8) : List UInt8 := trimSet [32, 9, 13, 10] s

/-- The value of a key between the braces: the environment comes first. -/
def valueOf (getenv : List UInt8 → Option (List UInt8)) (props : Properties)
    (key : List UInt8) : List UInt8 :=
  if key = [36, 123] then [36, 123]
  else
    match getenv (cstr key) with
    | some value => value
    | none => props[key]?.getD []

/-- The loop of `_substituteVariables` from `left` on. -/
def substitute (value : List UInt8 → List UInt8) (text : List UInt8) : List UInt8 :=
  match findWord [36, 123] text with
  | none => text
  | some right =>
    match _h : find 125 (text.drop (right + 2)) with
    | none => text
    | some len => text.take right ++ value ((text.drop (right + 2)).take len) ++
        substitute value (text.drop (right + 2 + len + 1))
termination_by text.length
decreasing_by
  have hlt := find_lt _h
  rw [List.length_drop] at hlt ⊢
  omega

/-- `_substituteVariables`. -/
def substituteVariables (getenv : List UInt8 → Option (List UInt8)) (props : Properties)
    (text : List UInt8) : List UInt8 := substitute (valueOf getenv props) text

/-- `log4j` or `log4cpp` is stripped off. -/
def stripPrefix (leftSide : List UInt8) : List UInt8 :=
  match find 46 leftSide with
  | none => leftSide
  | some i =>
    if leftSide.take i = utf8 "log4j" ∨ leftSide.take i = utf8 "log4cpp" then
      leftSide.drop (i + 1)
    else leftSide

/-- The text before a comment, if there is one. -/
def command (fullLine : List UInt8) : Option (List UInt8) :=
  match find 35 fullLine with
  | none => some fullLine
  | some 0 => none
  | some length => some (fullLine.take length)

/-- What the body of the loop of `load` does with a line. -/
def define (getenv : List UInt8 → Option (List UInt8)) (props : Properties)
    (fullLine : List UInt8) : Properties :=
  match command fullLine with
  | none => props
  | some command =>
    match find 61 command with
    | none => props
    | some length =>
      let leftSide := trim (command.take length)
      let rightSide := substituteVariables getenv props (trim (command.drop (length + 1)))
      props.insertIfNew (stripPrefix leftSide) rightSide

/-- Bounds the number of the calls of `getline` that are left. -/
def Stream.measure (s : Stream) : ℕ :=
  3 * s.rest.length + if s.fail then 0 else if s.eof then 1 else 2

/-- Every call reads something or finds the end. -/
lemma getline_measure {s : Stream} (h : s.fail = false) :
    (getline 256 s).2.measure < s.measure ∧
    ((getline 256 s).2.eof = false →
      { (getline 256 s).2 with fail := false }.measure < s.measure) := by
  cases heof : s.eof with
  | true =>
    have hread : (getline 256 s).2 = { s with fail := true } := by simp [getline, heof]
    rw [hread]
    refine ⟨by simp [Stream.measure, h, heof], fun hne => ?_⟩
    rw [heof] at hne
    cases hne
  | false =>
    have hgood : s.measure = 3 * s.rest.length + 2 := by simp [Stream.measure, h, heof]
    rw [hgood]
    simp only [getline, h, heof, Bool.false_eq_true, or_self, if_false]
    split
    · refine ⟨?_, by simp⟩
      have hle : ∀ fail, Stream.measure ⟨[], true, fail⟩ ≤ 1 := by decide
      exact Nat.lt_of_le_of_lt (hle _) (by omega)
    · rename_i c rest hrest
      have hlen := congrArg List.length hrest
      rw [List.length_drop, List.length_cons] at hlen
      split_ifs with hc
      · have hmeasure : Stream.measure ⟨rest, false, false⟩ = 3 * rest.length + 2 := rfl
        dsimp only
        rw [hmeasure]
        exact ⟨by omega, fun _ => by omega⟩
      · -- a full buffer holds at least one byte
        have hpos : 0 < ((s.rest.take (256 - 1)).takeWhile (· ≠ 10)).length := by
          rw [List.length_pos_iff]
          intro hnil
          rw [hnil, List.length_nil, List.drop_zero] at hrest
          simp [hrest, hc] at hnil
        have hfull : Stream.measure ⟨c :: rest, false, true⟩ = 3 * (rest.length + 1) := rfl
        have hcleared : Stream.measure ⟨c :: rest, false, false⟩ = 3 * (rest.length + 1) + 2 :=
          rfl
        dsimp only at hpos ⊢
        rw [hfull, hcleared]
        exact ⟨by omega, fun _ => by omega⟩

/-- The loop of `load`. -/
def loop (getenv : List UInt8 → Option (List UInt8)) (s : Stream) (fullLine : List UInt8)
    (partiallyRead : Bool) (props : Properties) : Properties :=
  if _h : s.fail = false then
    let r := getline 256 s
    let fullLine := if partiallyRead then fullLine ++ cstr r.1 else cstr r.1
    if _he : r.2.fail = true ∧ r.2.eof = false then
      loop getenv { r.2 with fail := false } fullLine true props
    else loop getenv r.2 fullLine r.2.fail (define getenv props fullLine)
  else props
termination_by s.measure
decreasing_by
  · exact (getline_measure _h).2 _he.2
  · exact (getline_measure _h).1

/-- `load` of a file. -/
def load (getenv : List UInt8 → Option (List UInt8)) (file : List UInt8) : Properties :=
  loop getenv ⟨file, false, false⟩ [] false ∅

/-- `save`: a line for each pair, in the order of the map. -/
def save (props : Properties) : List UInt8 :=
  props.toList.flatMap fun p => p.1 ++ [61] ++ p.2 ++ [10]

/-- `std::atoi`. For a number that is no `int` the result of the source is undefined; here it
is the number. -/
def atoi (s : List UInt8) : ℤ :=
  match s.dropWhile (· ∈ [32, 9, 10, 11, 12, 13]) with
  | 45 :: digits => -(Lib.atoi (digits.takeWhile fun b => 48 ≤ b ∧ b ≤ 57) : ℕ)
  | 43 :: digits => (Lib.atoi (digits.takeWhile fun b => 48 ≤ b ∧ b ≤ 57) : ℕ)
  | digits => (Lib.atoi (digits.takeWhile fun b => 48 ≤ b ∧ b ≤ 57) : ℕ)

def getInt (props : Properties) (property : List UInt8) (defaultValue : ℤ) : ℤ :=
  match props[property]? with
  | none => defaultValue
  | some value => atoi (cstr value)

def getBool (props : Properties) (property : List UInt8) (defaultValue : Bool) : Bool :=
  match props[property]? with
  | none => defaultValue
  | some value => value = utf8 "true"

def getString (props : Properties) (property defaultValue : List UInt8) : List UInt8 :=
  match props[property]? with
  | none => defaultValue
  | some value => value

end ShareBike.PropertyFile
