import ShareBike.Lib.Text
import ShareBike.Lib.Transition
import Mathlib.Logic.Function.Basic
import Mathlib.Data.List.Sort

/-!
# The hierarchy of categories

`HierarchyMaintainer` and `Category`. There is one category for a name, so that a
pointer to a category is its name, and a pointer to an appender is its address. A loop
along the parents counts its steps down; it ends without a result when it follows a
null pointer.
-/
namespace ShareBike.Hierarchy
open ShareBike.Lib

abbrev Name := List UInt8

/-- `Priority::INFO`. -/
def INFO : ℤ := 600

/-- `Priority::NOTSET`. -/
def NOTSET : ℤ := 800

structure LoggingEvent where
  categoryName : Name
  message : List UInt8
  ndc : List UInt8
  priority : ℤ
  deriving DecidableEq

inductive Decision
  | DENY
  | NEUTRAL
  | ACCEPT
  deriving DecidableEq

/-- `AppenderSkeleton`; the filter is the list of the filters in its chain. -/
structure Appender where
  threshold : ℤ
  filter : List (LoggingEvent → Decision)

/-- `Filter::decide` along the chain; without a filter nothing is denied. -/
def decideChain : List (LoggingEvent → Decision) → LoggingEvent → Decision
  | [], _ => .NEUTRAL
  | f :: chain, event =>
    match f event with
    | .NEUTRAL => decideChain chain event
    | decision => decision

/-- Whether `AppenderSkeleton::doAppend` calls `_append`. -/
def Appender.doAppend (appender : Appender) (event : LoggingEvent) : Bool :=
  (appender.threshold = NOTSET ∨ event.priority ≤ appender.threshold) ∧
    decideChain appender.filter event ≠ .DENY

/-- `Category`; the set of its appenders is in the order of their addresses. The appenders are
added by reference: a category that owns some of them, and deletes them when they are removed,
is left out. -/
structure Category where
  parent : Option Name
  priority : ℤ
  isAdditive : Bool
  appender : List ℕ

abbrev CategoryMap := Name → Option Category

/-- The constructor of `Category`. -/
def Category.new (parent : Option Name) (priority : ℤ) : Category := ⟨parent, priority, true, []⟩

/-- The name before the last dot. -/
def parentName (name : Name) : Name :=
  match findLastOf 46 name with
  | none => []
  | some dotIndex => name.take dotIndex

lemma length_parentName_lt {name : Name} (h : name ≠ []) :
    (parentName name).length < name.length := by
  unfold parentName
  split
  · exact List.length_pos_iff.mpr h
  · rename_i i hi
    have hlt := findLastOf_lt hi
    rw [List.length_take]
    omega

/-- `HierarchyMaintainer::_getInstance`. -/
def getInstance (m : CategoryMap) (name : Name) : CategoryMap :=
  match m name with
  | some _ => m
  | none =>
    if name = [] then Function.update m [] (some (.new none INFO))
    else Function.update (getInstance m (parentName name)) name
      (some (.new (some (parentName name)) NOTSET))
termination_by name.length
decreasing_by exact length_parentName_lt ‹_›

/-- How a loop along the parents ends. -/
inductive Loop (α : Type)
  | done (a : α)
  | null
  | unfinished
  deriving DecidableEq

def Loop.map {α β : Type} (f : α → β) : Loop α → Loop β
  | .done a => .done (f a)
  | .null => .null
  | .unfinished => .unfinished

/-- `Category::getChainedPriority`. -/
def getChainedPriority (m : CategoryMap) : ℕ → Option Name → Loop ℤ
  | _, none => .null
  | 0, some _ => .unfinished
  | n + 1, some name =>
    match m name with
    | none => .null
    | some c => if c.priority ≥ NOTSET then getChainedPriority m n c.parent else .done c.priority

/-- `Category::callAppenders`: the appenders on which it calls `doAppend`, in order. -/
def callAppenders (m : CategoryMap) : ℕ → Name → Loop (List ℕ)
  | 0, _ => .unfinished
  | n + 1, name =>
    match m name with
    | none => .null
    | some c =>
      match c.isAdditive, c.parent with
      | true, some parent => (callAppenders m n parent).map (c.appender ++ ·)
      | _, _ => .done c.appender

structure State where
  categoryMap : CategoryMap
  appender : ℕ → Appender
  received : List (ℕ × LoggingEvent)

/-- What the program calls. A category that it names is one that it got from `getInstance`. -/
inductive Act
  | getInstance (name : Name)
  | setPriority (name : Name) (priority : ℤ)
  | setAdditivity (name : Name) (additivity : Bool)
  | addAppender (name : Name) (appender : ℕ)
  | removeAppender (name : Name) (appender : ℕ)
  | removeAllAppenders (name : Name)
  | setThreshold (appender : ℕ) (priority : ℤ)
  | log (name : Name) (priority : ℤ) (message ndc : List UInt8)

/-- `Category::setPriority`: the error, or the category. -/
def Category.setPriority (c : Category) (priority : ℤ) : Except String Category :=
  if priority < NOTSET ∨ c.parent ≠ none then .ok { c with priority := priority }
  else .error "cannot set priority NOTSET on Root Category"

/-- Insertion in a set that is iterated in the order of the addresses. -/
def insertAppender (set : List ℕ) (appender : ℕ) : List ℕ :=
  if appender ∈ set then set else set.orderedInsert (· ≤ ·) appender

def Category.addAppender (c : Category) (appender : ℕ) : Category :=
  { c with appender := insertAppender c.appender appender }

def Category.removeAppender (c : Category) (appender : ℕ) : Category :=
  { c with appender := c.appender.filter (· ≠ appender) }

def Category.removeAllAppenders (c : Category) : Category := { c with appender := [] }

/-- The appenders of the list whose `_append` is called, each with the event. -/
def deliver (appender : ℕ → Appender) (event : LoggingEvent) (list : List ℕ) :
    List (ℕ × LoggingEvent) :=
  (list.filter fun a => (appender a).doAppend event).map fun a => (a, event)

namespace State

/-- A call on the category of that name. -/
def on (s : State) (name : Name) (f : Category → Category) : Option State :=
  (s.categoryMap name).map fun c =>
    { s with categoryMap := Function.update s.categoryMap name (some (f c)) }

/-- `Category::log`, which the functions of the levels are for their level. -/
def log (s : State) (name : Name) (priority : ℤ) (message ndc : List UInt8) : Loop State :=
  match getChainedPriority s.categoryMap (name.length + 1) (some name) with
  | .done p =>
    if p ≥ priority then
      let event : LoggingEvent := ⟨name, message, ndc, priority⟩
      (callAppenders s.categoryMap (name.length + 1) name).map fun list =>
        { s with received := s.received ++ deliver s.appender event list }
    else .done s
  | .null => .null
  | .unfinished => .unfinished

end State

/-- An exception of `setPriority` leaves everything as it is. -/
def step (s : State) : Act → Option State
  | .getInstance name => some { s with categoryMap := getInstance s.categoryMap name }
  | .setPriority name priority => s.on name fun c =>
    match c.setPriority priority with
    | .ok c => c
    | .error _ => c
  | .setAdditivity name additivity => s.on name fun c => { c with isAdditive := additivity }
  | .addAppender name appender => s.on name fun c => c.addAppender appender
  | .removeAppender name appender => s.on name fun c => c.removeAppender appender
  | .removeAllAppenders name => s.on name Category.removeAllAppenders
  | .setThreshold appender priority => some { s with
      appender := Function.update s.appender appender
        { s.appender appender with threshold := priority } }
  | .log name priority message ndc =>
    match s.log name priority message ndc with
    | .done s => some s
    | _ => none

/-- No category yet, and the appenders that the program has. -/
def start (appender : ℕ → Appender) : State := ⟨fun _ => none, appender, []⟩

def system (appender : ℕ → Appender) : System State Act where
  init s := s = start appender
  step := step

end ShareBike.Hierarchy
