import ShareBike.HttpConnection

/-!
# Requests

What `do_http_request` finds in the text that it has read, and what it stores in
the `ConnectStat` for it. A `char *` into the text is the rest of the text.
-/
namespace ShareBike.Http
open ShareBike.Lib

/-- `get` -/
def getWord : List UInt8 := [103, 101, 116]

/-- `post` -/
def postWord : List UInt8 := [112, 111, 115, 116]

/-- `commit` -/
def commitWord : List UInt8 := [99, 111, 109, 109, 105, 116]

/-- `\r\n\r\n` -/
def blankLine : List UInt8 := [13, 10, 13, 10]

/-- `name=` -/
def nameWord : List UInt8 := [110, 97, 109, 101, 61]

/-- `age=` -/
def ageWord : List UInt8 := [97, 103, 101, 61]

def isAlnum (b : UInt8) : Bool := (97 ≤ b && b ≤ 122) || (65 ≤ b && b ≤ 90) || isDigit b

def isSpaceOrSlash (b : UInt8) : Bool := b = 32 || b = 47

/-- The functions that `stat->handler` may point to. -/
inductive Handler
  | welcomeResponseHandler
  | commitResponeHandler
  deriving DecidableEq, Repr

/-- The addresses of these functions. -/
structure Code where
  addr : Handler → ℕ
  ne_null : ∀ h, addr h ≠ 0
  lt : ∀ h, addr h < 256 ^ Field.handler.size
  ne : addr .welcomeResponseHandler ≠ addr .commitResponeHandler

def EPOLLIN : ℕ := 1
def EPOLLOUT : ℕ := 4
def EPOLLERR : ℕ := 8
def EPOLLHUP : ℕ := 16

/-- What is taken from a request; a run of no bytes is not copied. -/
structure Request where
  handler : Handler
  name : List UInt8
  age : List UInt8
  deriving DecidableEq

/-- `if (end = strstr(pos, word))`: where `pos` points afterwards, and the run that
follows the word. -/
def scanField (word : List UInt8) (inRun : UInt8 → Bool) (pos : List UInt8) :
    List UInt8 × List UInt8 :=
  match strstr pos word with
  | some found => (found.drop word.length, (found.drop word.length).takeWhile inRun)
  | none => (pos, [])

/-- The fields are looked for from the blank line on. -/
def parseCommit (pos : List UInt8) : Request :=
  let (pos, name) := scanField nameWord isAlnum pos
  let (_, age) := scanField ageWord isDigit pos
  ⟨.commitResponeHandler, name, age⟩

/-- A commit request, by the letters that it starts with. -/
def isCommit (buf : List UInt8) : Bool :=
  startsWithCase buf postWord &&
    startsWithCase ((buf.drop postWord.length).dropWhile isSpaceOrSlash) commitWord

/-- `none` is the call of `strstr` with the `NULL` that the search for the blank line
has returned. -/
def parse (buf : List UInt8) : Option Request :=
  if startsWithCase buf getWord then some ⟨.welcomeResponseHandler, [], []⟩
  else if isCommit buf then (strstr buf blankLine).map parseCommit
  else some ⟨.welcomeResponseHandler, [], []⟩

/-- `if (len > 0)`: the bytes and a NUL. -/
def copyRun (f : Field) (run : List UInt8) : List (Field × List UInt8) :=
  if run = [] then [] else [(f, run ++ [0])]

/-- The stores into the `ConnectStat`, in order. -/
def Request.stores (code : Code) (r : Request) : List (Field × List UInt8) :=
  copyRun .name r.name ++ copyRun .age r.age ++
    [(.handler, leBytes Field.handler.size (code.addr r.handler)),
      (.events, leBytes Field.events.size EPOLLOUT)]

end ShareBike.Http
