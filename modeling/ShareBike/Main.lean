import ShareBike.Iniconfig
import ShareBike.PropertyConfiguratorCategories
import Mathlib.Logic.Embedding.Basic

/-!
# The program

`main` of `share_bike` with `Logger::init`: it configures the log library from one file,
reads the other one, and logs what it read or that it could not read it. An
`AbortAppender` that gets the event ends the process.
-/
namespace ShareBike.Main
open ShareBike.Lib ShareBike.Hierarchy ShareBike.PropertyFile ShareBike.Layout
  ShareBike.Configurator ShareBike.Config

/-- `Priority::ERROR`. -/
def ERROR : ℤ := 300

/-- The loop of `StringUtil::vform` for a text; `vsnprintf` returns its length. -/
def vformLoop (text : List UInt8) (size : ℕ) : List UInt8 :=
  let buffer := text.take (size - 1) ++ [0]
  if text.length < size then cstr buffer else vformLoop text (text.length + 1)
termination_by text.length + 1 - size

/-- `StringUtil::vform`. -/
def vform (fmt : List UInt8) (args : List Arg) : List UInt8 :=
  vformLoop (Lib.format fmt args) 1024

/-- What the program finds: the environment, the files for the log library, iniparser, and
where the memory of the appenders is, in the order in which they are made. A new `Iniconfig`
has whatever ports there are in the memory. -/
structure Env (D : Type) where
  getenv : List UInt8 → Option (List UInt8)
  openFile : List UInt8 → Option (List UInt8)
  address : ℕ ↪ ℕ
  load : List UInt8 → Option D
  ini : Iniparser D
  dbPort : UInt16
  svrPort : UInt16

/-- How the process ends. -/
inductive Exit
  | code (n : ℤ)
  | aborted
  deriving DecidableEq

/-- How it ends, what is printed, the appenders and what was appended to them. -/
structure Outcome where
  exit : Exit
  stdout : List UInt8
  stderr : List UInt8
  made : List Made
  received : List (ℕ × LoggingEvent)
  deriving DecidableEq

/-- An appender as the categories see it. -/
def appenderOf (made : List Made) (i : ℕ) : Appender :=
  match made[i]? with
  | some x => ⟨x.threshold, []⟩
  | none => ⟨NOTSET, []⟩

/-- The format of `LOG_INFO`. -/
def reportFormat : List UInt8 :=
  utf8 ("[database]ip:%s\n [database]port:%d\n [database]user:%s\n [database]pwd:%s\n" ++
    " [database]db:%s\n [server]port:%d\n ")

/-- The message of `LOG_INFO`. -/
def report (config : StEnvConfig) : List UInt8 :=
  vform reportFormat
    [.str (cstr config.dbIp), .int config.dbPort.toNat, .str (cstr config.dbUser),
      .str (cstr config.dbPwd), .str (cstr config.dbName), .int config.svrPort.toNat]

variable {D : Type}

/-- Whether `_append` of the appender is the one of `AbortAppender`. -/
def aborts (made : List Made) (i : ℕ) : Bool :=
  match made[i]? with
  | some x => x.kind = .abort
  | none => false

/-- The calls of `_append`, in the order of the set of the appenders. -/
def inOrder (address : ℕ ↪ ℕ) (calls : List (ℕ × LoggingEvent)) : List (ℕ × LoggingEvent) :=
  calls.insertionSort fun c d => address c.1 ≤ address d.1

/-- The end of the process: the first `std::abort()`, or else that `main` returns. -/
def finish (env : Env D) (made : List Made) (code : ℤ) (stderr : List UInt8)
    (calls : List (ℕ × LoggingEvent)) : Outcome :=
  let calls := inOrder env.address calls
  ⟨if calls.any fun c => aborts made c.1 then .aborted else .code code, [], stderr, made,
    calls.takeWhile fun c => ¬ aborts made c.1⟩

/-- `main` after `Logger::init` succeeded; the root category is `category_`. -/
def run (env : Env D) (argv1 : List UInt8) (made : List Made) (m : CategoryMap) :
    Loop Outcome :=
  let logger : State := ⟨getInstance m [], appenderOf made, []⟩
  match loadfile env.ini (.new env.dbPort env.svrPort) ⟨cstr argv1, env.load⟩ with
  | (false, _) =>
    (logger.log [] ERROR (vform (utf8 "load %s failed.") [.str (cstr argv1)]) []).map fun s =>
      finish env made (-3) (utf8 "cannot parse file:" ++ cstr argv1 ++ [10]) s.received
  | (true, config) =>
    (logger.log [] INFO (report (getconfig config)) []).map fun s =>
      finish env made 0 [] s.received

def main (env : Env D) (argv : List (List UInt8)) : Loop Outcome :=
  match argv with
  | [_, argv1, argv2] =>
    match configure env.getenv env.openFile (cstr argv2) ⟨fun _ => none, []⟩ (fun _ => none) with
    | .error what => .done ⟨.code (-2), [], utf8 " load log config file " ++ cstr argv2 ++
        utf8 " failed with result : " ++ cstr what ++ utf8 "\ninit log module failed.\n", [], []⟩
    | .ok (a, m) => run env argv1 a.made m
  | _ => .done ⟨.code (-1), utf8 "Please input shbk <config file path> <log file config>!\n", [],
      [], []⟩

section Vform

/-- What is logged of a configuration. -/
def reported (config : StEnvConfig) : List UInt8 :=
  utf8 "[database]ip:" ++ (cstr config.dbIp ++ (utf8 "\n [database]port:" ++
    (decimal config.dbPort.toNat ++ (utf8 "\n [database]user:" ++ (cstr config.dbUser ++
    (utf8 "\n [database]pwd:" ++ (cstr config.dbPwd ++ (utf8 "\n [database]db:" ++
    (cstr config.dbName ++ (utf8 "\n [server]port:" ++
    (decimal config.svrPort.toNat ++ utf8 "\n ")))))))))))

end Vform

/-- The exit code and the event of a run in which the log library could be configured. -/
def entered (env : Env D) (argv1 : List UInt8) : ℤ × LoggingEvent :=
  match env.load (cstr argv1) with
  | none => (-3, ⟨[], utf8 "load " ++ cstr argv1 ++ utf8 " failed.", [], ERROR⟩)
  | some dict => (0, ⟨[], reported (configOf env.ini dict), [], INFO⟩)

section Run

variable {env : Env D} {argv1 : List UInt8} {made : List Made} {m : CategoryMap}
  {event : LoggingEvent} {i : ℕ}

section Order

variable {address : ℕ ↪ ℕ} {calls : List (ℕ × LoggingEvent)}

end Order

end Run

section Attempted

variable {props : Properties} {a : Appenders} {line : Name} {value : List UInt8} {e : Entry}
  {event : LoggingEvent}

/-- The appender that `x` is has to get the event: the line of the root names it, and neither
the priority of the root nor its threshold keeps the event back. -/
structure Due (props : Properties) (a : Appenders) (value : List UInt8) (e : Entry)
    (event : LoggingEvent) (i : ℕ) (x : Made) : Prop where
  priority : event.priority ≤ e.priority
  named : ∃ token ∈ (split 44 value).tail, a.allAppenders (trim token) = some i ∧
    instantiateAppender props (trim token) = .ok x
  made : a.made[i]? = some x
  threshold : x.threshold = NOTSET ∨ event.priority ≤ x.threshold

end Attempted

/-- The root has an `AbortAppender`, and there is no configuration file. -/
def abortEnv : Env (List (List UInt8 × List UInt8)) where
  getenv _ := none
  openFile _ := some (utf8 "rootCategory=DEBUG, A\nappender.A=AbortAppender\n")
  address := .refl ℕ
  load _ := none
  ini := entries
  dbPort := 0
  svrPort := 0

example : (main abortEnv [utf8 "shbk", utf8 "shbk.ini", utf8 "log.conf"]).map
    (fun out => (out.exit, out.received)) = .done (.aborted, []) := by decide +kernel

end ShareBike.Main
