import ShareBike.Main
import ShareBike.PropertiesLoad
import ShareBike.PropertiesSubstitute
import ShareBike.RollingFileRetention

/-!
# The log of the program over its runs

With the configuration that comes with the program the root has one appender, a rolling
file. Every run of the program adds one record to it.
-/
namespace ShareBike.Main
open ShareBike.Lib ShareBike.Hierarchy ShareBike.PropertyFile ShareBike.Layout
  ShareBike.Configurator ShareBike.Config

/-- `format` of the layouts. -/
def formatWith (w : World) (event : LoggingEvent) : LayoutKind → List UInt8
  | .basic => intText w.seconds ++ [32] ++ getPriorityName event.priority ++ [32] ++
    event.categoryName ++ [32] ++ event.ndc ++ utf8 ": " ++ event.message ++ [10]
  | .simple => getPriorityName event.priority ++
    List.replicate (8 - (getPriorityName event.priority).length) 32 ++ utf8 ": " ++
    event.message ++ [10]
  | .pattern layout => format w event layout.components

section Load

variable {getenv : List UInt8 → Option (List UInt8)} {text line : List UInt8}

end Load

variable {D : Type} {env : Env D} {prog argv1 argv2 : List UInt8}

/-- A run of the program: what it finds and is called with, the time and the thread of the
event, and what the system calls of its appender do. -/
structure Run (D : Type) where
  env : Env D
  argv : List (List UInt8)
  world : World
  openOk : Bool
  count : Option ℕ
  seek : Bool
  calls : RollingFile.Calls

/-- What an appender writes for an event. -/
def record (w : World) (x : Made) (event : LoggingEvent) : List UInt8 :=
  match x.layout with
  | some layout => formatWith w event layout
  | none => []

/-- The record that a run writes with the configuration. -/
def Run.text (r : Run D) : List UInt8 :=
  let event := (entered r.env (r.argv.getD 1 [])).2
  r.world.strftime (utf8 "%m-%d %H:%M:%S " ++ threeDigits r.world.milliSeconds) ++ utf8 " [" ++
    r.world.threadName ++ utf8 "][" ++ getPriorityName event.priority ++ utf8 "]" ++
    event.message ++ [10]

section Files

open RollingFile

variable {r : Run D} {fs : FileSystem (List UInt8) (List UInt8)} {log10 : ℕ → ℕ}

end Files

end ShareBike.Main
