import ShareBike.PatternLayout
import ShareBike.Properties

/-!
# The configuration of the log library

`PropertyConfiguratorImpl` sets up appenders and categories from a property file. The
appenders are numbered in the order in which they are made, and the number stands for the
address. An exception carries its text, and not what was set up before it.
-/
namespace ShareBike.Configurator
open ShareBike.Lib ShareBike.Hierarchy ShareBike.PropertyFile ShareBike.Layout

inductive LayoutKind
  | basic
  | simple
  | pattern (layout : PatternLayout)
  deriving DecidableEq

/-- The class of an appender, with the arguments of its constructor. -/
inductive Kind
  | console (target : List UInt8)
  | file (fileName : List UInt8) (append : Bool)
  | rollingFile (fileName : List UInt8) (maxFileSize maxBackupIndex : ℕ) (append : Bool)
  | dailyRollingFile (fileName : List UInt8) (maxDaysKeep : ℕ) (append : Bool)
  | remoteSyslog (syslogName syslogHost : List UInt8) (facility portNumber : ℤ)
  | localSyslog (syslogName : List UInt8) (facility : ℤ)
  | abort
  deriving DecidableEq

/-- An appender that was made. -/
structure Made where
  name : List UInt8
  kind : Kind
  layout : Option LayoutKind
  threshold : ℤ
  deriving DecidableEq

/-- `std::strtoul(s, &endPointer, 10)`: the number, and what `endPointer` points to. -/
def strtoul (s : List UInt8) : ℕ × List UInt8 :=
  let r := numeral s
  if r.2.1 = [] then (0, s)
  else if Lib.atoi r.2.1 ≥ 2 ^ 64 then (2 ^ 64 - 1, r.2.2)
  else (if r.1 then (2 ^ 64 - Lib.atoi r.2.1) % 2 ^ 64 else Lib.atoi r.2.1, r.2.2)

/-- The names of the priorities, in steps of 100. -/
def priorityNames : List (List UInt8) :=
  [utf8 "FATAL", utf8 "ALERT", utf8 "CRIT", utf8 "ERROR", utf8 "WARN", utf8 "NOTICE",
    utf8 "INFO", utf8 "DEBUG", utf8 "NOTSET", utf8 "UNKNOWN"]

/-- `Priority::getPriorityValue`; a number is cut to an `int`. -/
def getPriorityValue (priorityName : List UInt8) : Except (List UInt8) ℤ :=
  match priorityNames.idxOf? priorityName with
  | some i => .ok (i * 100)
  | none =>
    if priorityName = utf8 "EMERG" then .ok 0
    else
      match strtoul (cstr priorityName) with
      | (n, []) => .ok (BitVec.ofNat 32 n).toInt
      | _ => .error (utf8 "unknown priority name: '" ++ priorityName ++ utf8 "'")

/-- The name of a class without its qualifiers. -/
def className (value : List UInt8) : List UInt8 :=
  match findLastOf 46 value with
  | none => value
  | some length => value.drop (length + 1)

/-- `int` to `unsigned int`, and to `size_t`; numbers that are no `int` are taken as they are. -/
def toUnsigned (i : ℤ) : ℕ := (i % 2 ^ 32).toNat

def toSize (i : ℤ) : ℕ := (i % 2 ^ 64).toNat

/-- `appender.` and the name of an appender. -/
def appenderPrefix (appenderName : List UInt8) : List UInt8 := utf8 "appender." ++ appenderName

/-- `setLayout`. -/
def setLayout (props : Properties) (appenderName : List UInt8) :
    Except (List UInt8) LayoutKind :=
  match props[appenderPrefix appenderName ++ utf8 ".layout"]? with
  | none => .error (utf8 "Missing layout property for appender '" ++ appenderName ++ utf8 "'")
  | some value =>
    let layoutType := className value
    if layoutType = utf8 "BasicLayout" then .ok .basic
    else if layoutType = utf8 "SimpleLayout" then .ok .simple
    else if layoutType = utf8 "PatternLayout" then
      match props[appenderPrefix appenderName ++ utf8 ".layout.ConversionPattern"]? with
      | none => .ok (.pattern .new)
      | some pattern =>
        match setConversionPattern pattern with
        | (none, layout) => .ok (.pattern layout)
        | (some error, _) => .error error
    else .error (utf8 "Unknown layout type '" ++ layoutType ++ utf8 "' for appender '" ++
      appenderName ++ utf8 "'")

/-- The appender that `instantiateAppender` makes for a type. -/
def makeKind (props : Properties) (appenderName appenderType : List UInt8) :
    Except (List UInt8) Kind :=
  let pre := appenderPrefix appenderName
  let fileName := getString props (pre ++ utf8 ".fileName") (utf8 "foobar")
  let append := getBool props (pre ++ utf8 ".append") true
  if appenderType = utf8 "ConsoleAppender" then
    let target := (getString props (pre ++ utf8 ".target") (utf8 "stdout")).map tolower
    if target = utf8 "stdout" ∨ target = utf8 "stderr" then .ok (.console target)
    else .error (appenderName ++ utf8 "' has invalid target '" ++ target ++ utf8 "'")
  else if appenderType = utf8 "FileAppender" then .ok (.file fileName append)
  else if appenderType = utf8 "RollingFileAppender" then
    .ok (.rollingFile fileName
      (toSize (getInt props (pre ++ utf8 ".maxFileSize") (10 * 1024 * 1024)))
      (toUnsigned (getInt props (pre ++ utf8 ".maxBackupIndex") 1)) append)
  else if appenderType = utf8 "DailyRollingFileAppender" then
    .ok (.dailyRollingFile fileName
      (toUnsigned (getInt props (pre ++ utf8 ".maxDaysKeep") 0)) append)
  else if appenderType = utf8 "SyslogAppender" then
    .ok (.remoteSyslog (getString props (pre ++ utf8 ".syslogName") (utf8 "syslog"))
      (getString props (pre ++ utf8 ".syslogHost") (utf8 "localhost"))
      (getInt props (pre ++ utf8 ".facility") (-1) * 8)
      (getInt props (pre ++ utf8 ".portNumber") (-1)))
  else if appenderType = utf8 "LocalSyslogAppender" then
    .ok (.localSyslog (getString props (pre ++ utf8 ".syslogName") (utf8 "syslog"))
      (getInt props (pre ++ utf8 ".facility") (-1) * 8))
  else if appenderType = utf8 "AbortAppender" then .ok .abort
  else .error (utf8 "Appender '" ++ appenderName ++ utf8 "' has unknown type '" ++
    appenderType ++ utf8 "'")

/-- `requiresLayout`. -/
def Kind.requiresLayout : Kind → Bool
  | .abort => false
  | _ => true

/-- The threshold that is set for an appender. -/
def readThreshold (props : Properties) (appenderName : List UInt8) : Except (List UInt8) ℤ :=
  let thresholdName := getString props (appenderPrefix appenderName ++ utf8 ".threshold") []
  if thresholdName = [] then .ok NOTSET
  else
    match getPriorityValue thresholdName with
    | .ok priority => .ok priority
    | .error what => .error
      (what ++ utf8 " for threshold of appender '" ++ appenderName ++ utf8 "'")

/-- `instantiateAppender`. -/
def instantiateAppender (props : Properties) (appenderName : List UInt8) :
    Except (List UInt8) Made := do
  match props[appenderPrefix appenderName]? with
  | none => throw (utf8 "Appender '" ++ appenderName ++ utf8 "' not defined")
  | some value =>
    let kind ← makeKind props appenderName (className value)
    let layout ← if kind.requiresLayout then some <$> setLayout props appenderName else pure none
    let threshold ← readThreshold props appenderName
    pure ⟨appenderName, kind, layout, threshold⟩

/-- The map of the appenders, and all that were made, the first one first. -/
structure Appenders where
  allAppenders : List UInt8 → Option ℕ
  made : List Made

/-- An appender is entered under its name. -/
def Appenders.add (a : Appenders) (appenderName : List UInt8) (appender : Made) : Appenders :=
  ⟨Function.update a.allAppenders appenderName (some a.made.length), a.made ++ [appender]⟩

/-- The pairs from `lower_bound(from)` to `lower_bound(to)`. -/
def range (props : Properties) (lower upper : List UInt8) :
    List (List UInt8 × List UInt8) :=
  props.toList.filter fun p => ¬ p.1 < lower ∧ p.1 < upper

/-- The loop of `instantiateAllAppenders` over the keys. -/
def instantiateLoop (make : List UInt8 → Except (List UInt8) Made) :
    List UInt8 → Appenders → List (List UInt8) → Except (List UInt8) Appenders
  | _, a, [] => .ok a
  | currentAppender, a, key :: keys =>
    match split 46 key with
    | _ :: appenderName :: rest =>
      if appenderName = currentAppender then instantiateLoop make currentAppender a keys
      else if rest = [] then
        match make appenderName with
        | .ok appender => instantiateLoop make appenderName (a.add appenderName appender) keys
        | .error what => .error what
      else .error (utf8 "partial appender definition : " ++ key)
    | _ => .error (utf8 "missing appender name")

def instantiateAllAppenders (props : Properties) (a : Appenders) :
    Except (List UInt8) Appenders :=
  instantiateLoop (instantiateAppender props) [] a
    ((range props (utf8 "appender.") (utf8 "appender/")).map Prod.fst)

/-- `getCategories`. -/
def getCategories (props : Properties) : List Name :=
  utf8 "rootCategory" ::
    (range props (utf8 "category.") (utf8 "category/")).map fun p => p.1.drop 9

/-- The key of a category. -/
def categoryKey (categoryName : Name) : List UInt8 :=
  if categoryName = utf8 "rootCategory" then categoryName else utf8 "category." ++ categoryName

/-- The category that is configured. -/
def target (categoryName : Name) : Name :=
  if categoryName = utf8 "rootCategory" then [] else categoryName

/-- The priority of the value of a category. -/
def readPriority (categoryName : Name) (tokens : List (List UInt8)) : Except (List UInt8) ℤ :=
  match tokens with
  | [] => .ok NOTSET
  | token :: _ =>
    if trim token = [] then .ok NOTSET
    else
      match getPriorityValue (trim token) with
      | .ok priority => .ok priority
      | .error what => .error (what ++ utf8 " for category '" ++ categoryName ++ utf8 "'")

/-- The loop that adds the appenders to a category. -/
def addAppenders (allAppenders : List UInt8 → Option ℕ) (categoryName : Name) :
    Category → List (List UInt8) → Except (List UInt8) Category
  | c, [] => .ok c
  | c, token :: tokens =>
    match allAppenders (trim token) with
    | none => .error (utf8 "Appender '" ++ trim token ++ utf8 "' not found for category '" ++
        categoryName ++ utf8 "'")
    | some appender => addAppenders allAppenders categoryName (c.addAppender appender) tokens

/-- `configureCategory`, on the map of the categories. -/
def configureCategory (props : Properties) (allAppenders : List UInt8 → Option ℕ)
    (m : CategoryMap) (categoryName : Name) : Except (List UInt8) CategoryMap :=
  match props[categoryKey categoryName]? with
  | none => .error (utf8 "Unable to find category: " ++ categoryKey categoryName)
  | some value =>
    let m := getInstance m (target categoryName)
    match m (target categoryName) with
    | none => .error []
    | some c => do
      let tokens := split 44 value
      let priority ← readPriority categoryName tokens
      let c ← (c.setPriority priority).mapError fun what =>
        utf8 what ++ utf8 " for category '" ++ categoryName ++ utf8 "'"
      let c := { c with isAdditive := getBool props (utf8 "additivity." ++ categoryName) true }
      let c ← addAppenders allAppenders categoryName c.removeAllAppenders tokens.tail
      pure (Function.update m (target categoryName) (some c))

def configureCategories (props : Properties) (allAppenders : List UInt8 → Option ℕ) :
    CategoryMap → List Name → Except (List UInt8) CategoryMap
  | m, [] => .ok m
  | m, categoryName :: rest => do
    let m ← configureCategory props allAppenders m categoryName
    configureCategories props allAppenders m rest

/-- `doConfigure` of a stream. -/
def doConfigure (getenv : List UInt8 → Option (List UInt8)) (file : List UInt8)
    (a : Appenders) (m : CategoryMap) : Except (List UInt8) (Appenders × CategoryMap) := do
  let props := load getenv file
  let a ← instantiateAllAppenders props a
  let m ← configureCategories props a.allAppenders m (getCategories props)
  pure (a, m)

/-- `doConfigure` of a file name; `open` is what the file system has under it. -/
def configure (getenv : List UInt8 → Option (List UInt8))
    (openFile : List UInt8 → Option (List UInt8)) (initFileName : List UInt8)
    (a : Appenders) (m : CategoryMap) : Except (List UInt8) (Appenders × CategoryMap) :=
  match openFile (cstr initFileName) with
  | none => .error (utf8 "File " ++ initFileName ++ utf8 " does not exist")
  | some file => doConfigure getenv file a m

end ShareBike.Configurator
