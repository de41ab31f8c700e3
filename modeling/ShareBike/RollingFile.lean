import ShareBike.Lib.FileSystem
import ShareBike.Lib.Generations
import ShareBike.Lib.Printf
import ShareBike.Lib.Transition

/-!
# The rolling log file

`RollingFileAppender` over the files of a directory that nobody else changes. A file
keeps the pieces that were written to it; a record is one call of `write`. Which
system calls fail, and how many bytes a `write` takes, is part of a step's label.
-/
namespace ShareBike.RollingFile
open ShareBike.Lib

/-- `RollingFileAppender`, with what it inherits of `FileAppender`. The descriptor is
the file that it refers to; `trunc` is the flag `O_TRUNC`. -/
structure Appender where
  fileName : List UInt8
  fd : Option ℕ
  trunc : Bool
  maxBackupIndex : ℕ
  maxBackupIndexWidth : ℕ
  maxFileSize : ℕ

/-- The bytes of a file. -/
def size (pieces : List (List UInt8)) : ℕ := pieces.flatten.length

/-- `setw(width) << setfill('0') << i`. -/
def padded (width i : ℕ) : List UInt8 :=
  List.replicate (width - (decimal i).length) 48 ++ decimal i

namespace Appender

variable (this : Appender)

/-- The text that was streamed, and the NUL of `std::ends`. -/
def backupText (i : ℕ) : List UInt8 :=
  this.fileName ++ [46] ++ padded this.maxBackupIndexWidth i ++ [0]

def setAppend (append : Bool) : Appender := { this with trunc := !append }

def setMaximumFileSize (maxFileSize : ℕ) : Appender :=
  { this with maxFileSize := maxFileSize }

/-- The name of the log file for `i = 0`, of the backup `i` otherwise, as the system
calls get it. -/
def name : ℕ → List UInt8
  | 0 => cstr this.fileName
  | i + 1 => cstr (this.backupText (i + 1))

end Appender

/-- Which of the calls of `rollOver` succeed: `rename i` is the one whose new name is
that of the backup `i`. -/
structure Calls where
  remove : Bool
  rename : ℕ → Bool
  reopen : Bool

/-- The messages that `_append` was called with, and the pieces that `write` took. -/
structure Log where
  asked : List (List UInt8)
  written : List (List UInt8)

structure State where
  fs : FileSystem (List UInt8) (List UInt8)
  this : Appender
  log : Log

/-- `rename(old, new)` of a name's C string, if the call succeeds. -/
def renameIf (fs : FileSystem (List UInt8) (List UInt8)) (ok : Bool) (old new : List UInt8) :
    FileSystem (List UInt8) (List UInt8) :=
  if ok then fs.rename old new else fs

/-- The loop `for (i = _maxBackupIndex; i > 1; i--)` and the rename after it; `last` is
`last_log_filename`. -/
def renameEach (this : Appender) (ok : ℕ → Bool) :
    ℕ → List UInt8 → FileSystem (List UInt8) (List UInt8) →
    FileSystem (List UInt8) (List UInt8)
  | i + 2, last, fs =>
    renameEach this ok (i + 1) (this.backupText (i + 1))
      (renameIf fs (ok (i + 2)) (cstr (this.backupText (i + 1))) (cstr last))
  | i, last, fs => renameIf fs (ok i) (cstr this.fileName) (cstr last)

namespace State

variable (s : State)

/-- `_fd = ::open(_fileName.c_str(), _flags, _mode)`. -/
def openLog (ok : Bool) : State :=
  if ok then
    let r := s.fs.openFile (cstr s.this.fileName) s.this.trunc
    { s with fs := r.2, this := { s.this with fd := some r.1 } }
  else { s with this := { s.this with fd := none } }

/-- `FileAppender::close`. -/
def close : State := { s with this := { s.this with fd := none } }

/-- The part of `rollOver` between `close` and `open`. -/
def moveFiles (calls : Calls) : State :=
  if s.this.maxBackupIndex > 0 then
    let last := s.this.backupText s.this.maxBackupIndex
    let fs := if calls.remove then s.fs.remove (cstr last) else s.fs
    { s with fs := renameEach s.this calls.rename s.this.maxBackupIndex last fs }
  else s

def rollOver (calls : Calls) : State := (s.close.moveFiles calls).openLog calls.reopen

/-- `FileAppender::_append`: `write` takes the first `count` bytes, or fails. -/
def write (message : List UInt8) (count : Option ℕ) : State :=
  match s.this.fd, count with
  | some i, some n => { s with
      fs := s.fs.write i (message.take n)
      log := ⟨s.log.asked ++ [message], s.log.written ++ [message.take n]⟩ }
  | _, _ => { s with log := { s.log with asked := s.log.asked ++ [message] } }

/-- `RollingFileAppender::_append`; `lseek` fails without a descriptor. -/
def append (message : List UInt8) (count : Option ℕ) (seek : Bool) (calls : Calls) : State :=
  let s := s.write message count
  match s.this.fd with
  | none => s
  | some i =>
    if seek ∧ size (s.fs.data i) ≥ s.this.maxFileSize then s.rollOver calls else s

/-- `FileAppender::reopen`: the old descriptor stays if the new one is refused. -/
def reopen (ok : Bool) : State :=
  if s.this.fileName ≠ [] then
    if ok then s.openLog true else s
  else s

end State

/-- What is called on the appender. -/
inductive Act
  | append (message : List UInt8) (count : Option ℕ) (seek : Bool) (calls : Calls)
  | rollOver (calls : Calls)
  | reopen (ok : Bool)
  | close
  | setAppend (append : Bool)
  | setMaximumFileSize (maxFileSize : ℕ)

def step (s : State) : Act → State
  | .append message count seek calls => s.append message count seek calls
  | .rollOver calls => s.rollOver calls
  | .reopen ok => s.reopen ok
  | .close => s.close
  | .setAppend append => { s with this := s.this.setAppend append }
  | .setMaximumFileSize maxFileSize =>
    { s with this := s.this.setMaximumFileSize maxFileSize }

/-- The arguments of the constructor. -/
structure Config where
  fileName : List UInt8
  maxFileSize : ℕ
  maxBackupIndex : ℕ
  append : Bool

/-- The constructor; `log10` is the logarithm of a `float`, cut to an integer. -/
def Appender.new (log10 : ℕ → ℕ) (c : Config) : Appender where
  fileName := c.fileName
  fd := none
  trunc := !c.append
  maxBackupIndex := if c.maxBackupIndex > 0 then c.maxBackupIndex else 1
  maxBackupIndexWidth :=
    log10 (if c.maxBackupIndex > 0 then c.maxBackupIndex else 1) + 1
  maxFileSize := c.maxFileSize

/-- The appender is created over the files that there are. -/
def start (log10 : ℕ → ℕ) (c : Config) (fs : FileSystem (List UInt8) (List UInt8))
    (ok : Bool) : State :=
  State.openLog ⟨fs, .new log10 c, ⟨[], []⟩⟩ ok

/-- The runs of an appender; `ok` says whether the constructor could open the file. -/
def system (log10 : ℕ → ℕ) (c : Config) (fs : FileSystem (List UInt8) (List UInt8))
    (ok : Bool) : System State Act where
  init s := s = start log10 c fs ok
  step s a := some (step s a)

end ShareBike.RollingFile
