import ShareBike.Category
import ShareBike.Lib.Extract

/-!
# Pattern layouts

`PatternLayout` of the log library: the parser of the conversion patterns, with its
errors, and the formatting of an event. A stream that has failed delivers nothing
more, so that the parser ends with an error. What the components read besides the event
is the `World`.
-/
namespace ShareBike.Layout
open ShareBike.Lib ShareBike.Hierarchy

/-- The thread, the clock, the time of the event and of the start of the program, and
`strftime` for the time of the event. -/
structure World where
  threadName : List UInt8
  clock : ℕ
  seconds : ℤ
  milliSeconds : ℤ
  startSeconds : ℤ
  startMilliSeconds : ℤ
  strftime : List UInt8 → List UInt8

/-- `Priority::getPriorityName`. -/
def getPriorityName (priority : ℤ) : List UInt8 :=
  let names := ["FATAL", "ALERT", "CRIT", "ERROR", "WARN", "NOTICE", "INFO", "DEBUG", "NOTSET"]
  let i := (priority + 1).tdiv 100
  if i < 0 ∨ i > 8 then utf8 "NOTSET" else utf8 (names.getD i.toNat "NOTSET")

inductive Component
  | literal (text : List UInt8)
  | categoryName (precision : ℤ)
  | message
  | ndc
  | priority
  | threadName
  | processorTime
  | timeStamp (timeFormat1 : List UInt8) (timeFormat2 : Option (List UInt8))
  | secondsSinceEpoch
  | millisSinceEpoch
  | formatModifier (component : Component) (minWidth maxWidth : ℕ) (alignLeft : Bool)
  deriving DecidableEq

/-- The constructor of `CategoryNameComponent`. With nothing but white space in the specifier
`_precision` stays what the memory has; here it is 0. -/
def Component.newCategoryName (specifier : List UInt8) : Component :=
  .categoryName (if specifier = [] then -1 else (extractInt specifier).2.1)

/-- The constructor of `TimeStampComponent`. -/
def Component.newTimeStamp (timeFormat : List UInt8) : Component :=
  let timeFormat :=
    if timeFormat = [] ∨ timeFormat = utf8 "ISO8601" then utf8 "%Y-%m-%d %H:%M:%S,%l"
    else if timeFormat = utf8 "ABSOLUTE" then utf8 "%H:%M:%S,%l"
    else if timeFormat = utf8 "DATE" then utf8 "%d %b %Y %H:%M:%S,%l"
    else timeFormat
  match findWord [37, 108] timeFormat with
  | none => .timeStamp timeFormat none
  | some pos => .timeStamp (timeFormat.take pos) (some (timeFormat.drop (pos + 2)))

/-- `rfind('.', from)`, where `none` is `npos`. -/
def rfindDot (name : List UInt8) : Option ℕ → Option ℕ
  | none => findLastOf 46 name
  | some pos => findLastOf 46 (name.take (pos + 1))

/-- The loop of `CategoryNameComponent::append`: `begin` after `n` rounds. A `begin` that is
less than 2 makes `begin - 2` wrap around, to at least `npos - 1`. -/
def beginLoop (name : List UInt8) : ℕ → Option ℕ → Option ℕ
  | 0, start => start
  | n + 1, start =>
    match rfindDot name (start.bind fun i => if i < 2 then none else some (i - 2)) with
    | none => some 0
    | some i => beginLoop name n (some (i + 1))

/-- `CategoryNameComponent::append`. -/
def categoryText (precision : ℤ) (name : List UInt8) : List UInt8 :=
  if precision = -1 then name else name.drop ((beginLoop name precision.toNat none).getD 0)

/-- `FormatModifierComponent::append`. -/
def modify (minWidth maxWidth : ℕ) (alignLeft : Bool) (msg : List UInt8) : List UInt8 :=
  let msg := if maxWidth > 0 ∧ maxWidth < msg.length then msg.take maxWidth else msg
  if minWidth > msg.length then
    let fill := List.replicate (minWidth - msg.length) 32
    if alignLeft then msg ++ fill else fill ++ msg
  else msg

/-- `setw(3) << setfill('0') << millis`. -/
def threeDigits (millis : ℤ) : List UInt8 :=
  List.replicate (3 - (intText millis).length) 48 ++ intText millis

/-- `append` of the components. -/
def Component.append (w : World) (event : LoggingEvent) : Component → List UInt8
  | .literal text => text
  | .categoryName precision => categoryText precision event.categoryName
  | .message => event.message
  | .ndc => event.ndc
  | .priority => getPriorityName event.priority
  | .threadName => w.threadName
  | .processorTime => decimal w.clock
  | .timeStamp timeFormat1 none => w.strftime timeFormat1
  | .timeStamp timeFormat1 (some timeFormat2) =>
    w.strftime (timeFormat1 ++ threeDigits w.milliSeconds ++ timeFormat2)
  | .secondsSinceEpoch => intText w.seconds
  | .millisSinceEpoch => intText
      ((w.seconds - w.startSeconds) * 1000 + (w.milliSeconds - w.startMilliSeconds))
  | .formatModifier component minWidth maxWidth alignLeft =>
    modify minWidth maxWidth alignLeft (component.append w event)

/-- `PatternLayout::format`. -/
def format (w : World) (event : LoggingEvent) (components : List Component) : List UInt8 :=
  components.flatMap (Component.append w event)

/-- The variables of `setConversionPattern`. -/
structure Scan where
  components : List Component
  literal : List UInt8
  minWidth : ℤ
  maxWidth : ℕ

/-- The literal goes before the next component, if there is one. -/
def Scan.flush (s : Scan) : List Component :=
  if s.literal = [] then s.components else s.components ++ [.literal s.literal]

/-- `readPrefix`: the widths and what follows, or nothing if the stream failed. -/
def readPrefix (minWidth : ℤ) (maxWidth : ℕ) : List UInt8 → Option (ℤ × ℕ × List UInt8)
  | [] => none
  | ch2 :: text =>
    if ch2 = 45 ∨ isDigit ch2 then
      match extractInt (ch2 :: text) with
      | (true, minWidth, 46 :: text) => readMax minWidth text
      | (true, minWidth, ch2 :: text) => some (minWidth, maxWidth, ch2 :: text)
      | _ => none
    else if ch2 = 46 then readMax minWidth text
    else some (minWidth, maxWidth, ch2 :: text)
where
  /-- `conversionStream >> maxWidth`. -/
  readMax (minWidth : ℤ) (text : List UInt8) : Option (ℤ × ℕ × List UInt8) :=
    match extractSize text with
    | (true, maxWidth, text) => some (minWidth, maxWidth, text)
    | _ => none

/-- The postfix, what follows it, and whether the stream failed over it. -/
def readPostfix : List UInt8 → List UInt8 × List UInt8 × Bool
  | [] => ([], [], true)
  | 123 :: text =>
    match find 125 text with
    | some i => (text.take i, text.drop (i + 1), false)
    | none => (text, [], true)
  | text => ([], text, false)

/-- What a conversion specifier stands for. -/
inductive Specifier
  | literal (text : List UInt8)
  | component (component : Component)

def specifier (ch : UInt8) (specPostfix : List UInt8) : Option Specifier :=
  match ch with
  | 37 => some (.literal [37])
  | 109 => some (.component .message)
  | 110 => some (.literal [10])
  | 99 => some (.component (.newCategoryName specPostfix))
  | 100 => some (.component (.newTimeStamp specPostfix))
  | 112 => some (.component .priority)
  | 114 => some (.component .millisSinceEpoch)
  | 82 => some (.component .secondsSinceEpoch)
  | 116 => some (.component .threadName)
  | 117 => some (.component .processorTime)
  | 120 => some (.component .ndc)
  | _ => none

/-- A component is wrapped if a width was given, since the last component. -/
def wrap (minWidth : ℤ) (maxWidth : ℕ) (component : Component) : Component :=
  if minWidth ≠ 0 ∨ maxWidth ≠ 0 then
    .formatModifier component minWidth.natAbs maxWidth (minWidth < 0)
  else component

/-- What a specifier does to the variables. -/
def Scan.specify (s : Scan) (minWidth : ℤ) (maxWidth : ℕ) : Specifier → Scan
  | .literal text => { s with
      literal := s.literal ++ text
      minWidth := minWidth
      maxWidth := maxWidth }
  | .component component => ⟨s.flush ++ [wrap minWidth maxWidth component], [], 0, 0⟩

/-- The texts of the exceptions; an index of -1 is that of a stream that failed. -/
def unterminated (pattern : List UInt8) : List UInt8 :=
  utf8 "unterminated conversion specifier in '" ++ pattern ++ utf8 "' at index -1"

def unknown (ch : UInt8) (pattern : List UInt8) (index : ℤ) : List UInt8 :=
  utf8 "unknown conversion specifier '" ++ [ch] ++ utf8 "' in '" ++ pattern ++
    utf8 "' at index " ++ intText index

lemma length_readMax_le {minWidth : ℤ} {text : List UInt8} {r : ℤ × ℕ × List UInt8}
    (h : readPrefix.readMax minWidth text = some r) : r.2.2.length ≤ text.length := by
  have hlen := length_extractSize_le text
  unfold readPrefix.readMax at h
  split at h
  · rename_i he
    cases h
    rw [he] at hlen
    exact hlen
  · cases h

lemma length_readPrefix_le {minWidth : ℤ} {maxWidth : ℕ} {text : List UInt8}
    {r : ℤ × ℕ × List UInt8} (h : readPrefix minWidth maxWidth text = some r) :
    r.2.2.length ≤ text.length := by
  have hlen := length_extractInt_le text
  unfold readPrefix at h
  split at h
  · cases h
  · split_ifs at h
    · split at h
      · rename_i he
        rw [he, List.length_cons] at hlen
        have hmax := length_readMax_le h
        omega
      · rename_i he
        cases h
        rw [he] at hlen
        exact hlen
      · cases h
    · have hmax := length_readMax_le h
      rw [List.length_cons]
      omega
    · cases h
      exact le_rfl

lemma length_readPostfix_le (text : List UInt8) : (readPostfix text).2.1.length ≤ text.length := by
  unfold readPostfix
  split
  · exact le_rfl
  · split
    · rw [List.length_drop, List.length_cons]
      omega
    · exact Nat.zero_le _
  · exact le_rfl

/-- The loop of `setConversionPattern`: the text of an exception if there is one, and the
components. -/
def scan (pattern : List UInt8) (text : List UInt8) (s : Scan) :
    Option (List UInt8) × List Component :=
  match text with
  | [] => (none, s.flush)
  | ch :: text =>
    if ch = 37 then
      match _h : readPrefix s.minWidth s.maxWidth text with
      | none => (some (unterminated pattern), s.components)
      | some (_, _, []) => (some (unterminated pattern), s.components)
      | some (minWidth, maxWidth, ch :: rest) =>
        let post := readPostfix rest
        match specifier ch post.1 with
        | none =>
          let index : ℤ := if post.2.2 then -1 else pattern.length - post.2.1.length
          (some (unknown ch pattern index), s.components)
        | some spec => scan pattern post.2.1 (s.specify minWidth maxWidth spec)
    else scan pattern text { s with literal := s.literal ++ [ch] }
termination_by text.length
decreasing_by
  · have hprefix := length_readPrefix_le _h
    have hpostfix := length_readPostfix_le rest
    simp only [List.length_cons] at hprefix ⊢
    omega
  · exact Nat.lt_succ_self _

/-- `PatternLayout`. -/
structure PatternLayout where
  components : List Component
  conversionPattern : List UInt8
  deriving DecidableEq

/-- `setConversionPattern`: the exception, and the layout afterwards. -/
def setConversionPattern (pattern : List UInt8) : Option (List UInt8) × PatternLayout :=
  match scan pattern pattern ⟨[], [], 0, 0⟩ with
  | (none, components) => (none, ⟨components, pattern⟩)
  | (some error, components) => (some error, ⟨components, []⟩)

/-- The constructor of `PatternLayout`. -/
def PatternLayout.new : PatternLayout := (setConversionPattern (utf8 "%m%n")).2

end ShareBike.Layout
