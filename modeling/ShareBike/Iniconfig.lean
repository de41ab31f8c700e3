import ShareBike.Lib.Bytes
import ShareBike.Lib.Printf
import ShareBike.Lib.Words

/-!
# The configuration file

`Iniconfig::loadfile` reads six keys with iniparser and keeps their values in an
`st_env_config`. On the way the two ports change their type: `iniparser_getint` returns an
`int`, the constructor takes an `unsigned int` and an `unsigned short`, and the fields are
`unsigned short`.
-/
namespace ShareBike.Config
open ShareBike.Lib

structure StEnvConfig where
  dbIp : List UInt8
  dbPort : UInt16
  dbUser : List UInt8
  dbPwd : List UInt8
  dbName : List UInt8
  svrPort : UInt16
  deriving DecidableEq

/-- The constructor with six arguments. -/
def StEnvConfig.new (dbIp : List UInt8) (dbPort : UInt32) (dbUser dbPwd dbName : List UInt8)
    (svrPort : UInt16) : StEnvConfig where
  dbIp := dbIp
  dbPort := dbPort.toUInt16
  dbUser := dbUser
  dbPwd := dbPwd
  dbName := dbName
  svrPort := svrPort

/-- `operator=`; `same` says that `config` is the object itself. -/
def StEnvConfig.assign (this config : StEnvConfig) (same : Bool) : StEnvConfig :=
  if same then this
  else
    { dbIp := config.dbIp
      dbPort := config.dbPort
      dbUser := config.dbUser
      dbPwd := config.dbPwd
      dbName := config.dbName
      svrPort := config.svrPort }

structure Iniconfig where
  config : StEnvConfig
  isloaded : Bool

/-- The constructor of `Iniconfig`; it leaves the ports as the memory has them. -/
def Iniconfig.new (dbPort svrPort : UInt16) : Iniconfig where
  config := ⟨[], dbPort, [], [], [], svrPort⟩
  isloaded := false

/-- What iniparser answers for a dictionary, a key and a default. -/
structure Iniparser (D : Type) where
  getstring : D → List UInt8 → List UInt8 → List UInt8
  getint : D → List UInt8 → Int32 → Int32

/-- A call of `loadfile`: the path, and what `iniparser_load` makes of the paths at the time
of the call. -/
structure Call (D : Type) where
  path : List UInt8
  load : List UInt8 → Option D

variable {D : Type}

/-- The dictionary of `iniparser_load(path.c_str())`. -/
def Call.dict (call : Call D) : Option D := call.load (cstr call.path)

/-- `Iniconfig::loadfile`. The strings are copied before the dictionary is freed. -/
def loadfile (ini : Iniparser D) (this : Iniconfig) (call : Call D) : Bool × Iniconfig :=
  match call.dict with
  | none => (false, this)
  | some dict =>
    let ip := ini.getstring dict (utf8 "database:ip") (utf8 "127.0.0.1")
    let port := ini.getint dict (utf8 "database:port") 3306
    let user := ini.getstring dict (utf8 "database:user") (utf8 "root")
    let pwd := ini.getstring dict (utf8 "database:pwd") (utf8 "123456")
    let db := ini.getstring dict (utf8 "database:db") (utf8 "dongnaobike")
    let sport := ini.getint dict (utf8 "server:port") 9090
    let config := StEnvConfig.new ip port.toUInt32 user pwd db sport.toUInt32.toUInt16
    (true, { config := this.config.assign config false, isloaded := true })

def getconfig (this : Iniconfig) : StEnvConfig := this.config

/-- The object after a sequence of calls. -/
def loads (ini : Iniparser D) (this : Iniconfig) (calls : List (Call D)) : Iniconfig :=
  calls.foldl (fun this call => (loadfile ini this call).2) this

/-- The last call of the sequence that returned true. -/
def lastTrue (ini : Iniparser D) : Iniconfig → List (Call D) → Option (Call D)
  | _, [] => none
  | this, call :: calls =>
    let r := loadfile ini this call
    (lastTrue ini r.2 calls).or (if r.1 then some call else none)

/-- The six fields have the values of the six keys, and the ports are the integers. -/
structure Reads (ini : Iniparser D) (dict : D) (config : StEnvConfig) : Prop where
  dbIp : config.dbIp = ini.getstring dict (utf8 "database:ip") (utf8 "127.0.0.1")
  dbPort : (config.dbPort.toNat : ℤ) = (ini.getint dict (utf8 "database:port") 3306).toInt
  dbUser : config.dbUser = ini.getstring dict (utf8 "database:user") (utf8 "root")
  dbPwd : config.dbPwd = ini.getstring dict (utf8 "database:pwd") (utf8 "123456")
  dbName : config.dbName = ini.getstring dict (utf8 "database:db") (utf8 "dongnaobike")
  svrPort : (config.svrPort.toNat : ℤ) = (ini.getint dict (utf8 "server:port") 9090).toInt

/-- `getconfig` returns the values of the last load that returned true, if there was one. -/
def Exact (ini : Iniparser D) (this : Iniconfig) (calls : List (Call D)) : Prop :=
  match lastTrue ini this calls with
  | none => getconfig (loads ini this calls) = getconfig this
  | some call => ∃ dict, call.dict = some dict ∧
      Reads ini dict (getconfig (loads ini this calls))

/-- Both integers can be held by an `unsigned short`. -/
def PortsFit (ini : Iniparser D) (dict : D) : Prop :=
  (0 ≤ (ini.getint dict (utf8 "database:port") 3306).toInt ∧
    (ini.getint dict (utf8 "database:port") 3306).toInt < 65536) ∧
  (0 ≤ (ini.getint dict (utf8 "server:port") 9090).toInt ∧
    (ini.getint dict (utf8 "server:port") 9090).toInt < 65536)

/-- What `loadfile` makes of a dictionary. -/
def configOf (ini : Iniparser D) (dict : D) : StEnvConfig where
  dbIp := ini.getstring dict (utf8 "database:ip") (utf8 "127.0.0.1")
  dbPort := (ini.getint dict (utf8 "database:port") 3306).toUInt32.toUInt16
  dbUser := ini.getstring dict (utf8 "database:user") (utf8 "root")
  dbPwd := ini.getstring dict (utf8 "database:pwd") (utf8 "123456")
  dbName := ini.getstring dict (utf8 "database:db") (utf8 "dongnaobike")
  svrPort := (ini.getint dict (utf8 "server:port") 9090).toUInt32.toUInt16

variable {ini : Iniparser D} {this : Iniconfig} {call : Call D} {dict : D}

lemma loadfile_none (h : call.dict = none) : loadfile ini this call = (false, this) := by
  rw [loadfile, h]

lemma loadfile_some (h : call.dict = some dict) :
    loadfile ini this call = (true, ⟨configOf ini dict, true⟩) := by
  rw [loadfile, h]
  rfl

/-- The last call whose file `iniparser_load` could read. -/
def lastRead (calls : List (Call D)) : Option (Call D) :=
  (calls.filter fun call => call.dict.isSome).getLast?

lemma lastTrue_eq (ini : Iniparser D) (this : Iniconfig) (calls : List (Call D)) :
    lastTrue ini this calls = lastRead calls := by
  induction calls generalizing this with
  | nil => rfl
  | cons call calls ih =>
    rw [lastTrue, ih, lastRead, lastRead]
    cases h : call.dict with
    | none =>
      rw [List.filter_cons_of_neg (by simp [h]), loadfile_none h]
      simp
    | some dict =>
      rw [List.filter_cons_of_pos (by simp [h]), loadfile_some h, List.getLast?_cons]
      cases (calls.filter fun call => call.dict.isSome).getLast? <;> rfl

/-- The configuration is that of the last dictionary that was read, for every integer. -/
theorem loads_config (ini : Iniparser D) (this : Iniconfig) (calls : List (Call D)) :
    match lastTrue ini this calls with
    | none => (loads ini this calls).config = this.config
    | some call => ∃ dict, call.dict = some dict ∧
        (loads ini this calls).config = configOf ini dict := by
  induction calls generalizing this with
  | nil => rfl
  | cons call calls ih =>
    have hloads : loads ini this (call :: calls) = loads ini (loadfile ini this call).2 calls :=
      List.foldl_cons
    rw [lastTrue, hloads]
    have hrest := ih (loadfile ini this call).2
    cases h : call.dict with
    | none =>
      rw [loadfile_none h] at hrest ⊢
      simpa using hrest
    | some dict =>
      rw [loadfile_some h] at hrest ⊢
      cases hlast : lastTrue ini ⟨configOf ini dict, true⟩ calls with
      | none =>
        rw [hlast] at hrest
        exact ⟨dict, h, hrest⟩
      | some later =>
        rw [hlast] at hrest
        exact hrest

/-- The strings arrive unchanged; the ports do so if they fit. -/
lemma reads_configOf_iff : Reads ini dict (configOf ini dict) ↔ PortsFit ini dict := by
  constructor
  · intro h
    exact ⟨(toUInt16_eq_iff _).mp h.dbPort, (toUInt16_eq_iff _).mp h.svrPort⟩
  · rintro ⟨hport, hsport⟩
    exact ⟨rfl, (toUInt16_eq_iff _).mpr hport, rfl, rfl, rfl, (toUInt16_eq_iff _).mpr hsport⟩

/-- A load that returns false changes nothing. After any sequence of loads `getconfig` returns
the values of the last one that returned true exactly if both ports of the last file that
could be read lie in 0..65535. -/
theorem getconfig_exact_iff (ini : Iniparser D) (this : Iniconfig) (calls : List (Call D)) :
    (∀ call, (loadfile ini (loads ini this calls) call).1 = false →
      (loadfile ini (loads ini this calls) call).2 = loads ini this calls) ∧
    (Exact ini this calls ↔
      ∀ call dict, lastRead calls = some call → call.dict = some dict → PortsFit ini dict) := by
  constructor
  · intro call hfalse
    cases h : call.dict with
    | none => rw [loadfile_none h]
    | some dict =>
      rw [loadfile_some h] at hfalse
      cases hfalse
  · have hconfig := loads_config ini this calls
    simp only [Exact, getconfig, ← lastTrue_eq ini this calls]
    cases hlast : lastTrue ini this calls with
    | none =>
      rw [hlast] at hconfig
      exact iff_of_true hconfig fun call dict h => by cases h
    | some call =>
      rw [hlast] at hconfig
      obtain ⟨dict, hdict, hconfig⟩ := hconfig
      simp only [hconfig]
      constructor
      · rintro ⟨d, hd, hreads⟩ call' dict' hcall hdict'
        cases hcall
        obtain rfl : d = dict' := Option.some.inj (hd.symm.trans hdict')
        obtain rfl : d = dict := Option.some.inj (hd.symm.trans hdict)
        exact reads_configOf_iff.mp hreads
      · exact fun hfit => ⟨dict, hdict, reads_configOf_iff.mpr (hfit call dict rfl hdict)⟩

/-- A dictionary as a list of its entries, with decimal integers. -/
def entries : Iniparser (List (List UInt8 × List UInt8)) where
  getstring dict key notfound := (dict.lookup key).getD notfound
  getint dict key notfound := ((dict.lookup key).map fun s => Int32.ofNat (atoi s)).getD notfound

/-- A file with the entry `port = 70000` in its section `database`. -/
def wideDict : List (List UInt8 × List UInt8) := [(utf8 "database:port", utf8 "70000")]

def wideCall : Call (List (List UInt8 × List UInt8)) := ⟨utf8 "shbk.ini", fun _ => some wideDict⟩

/-- `loadfile` returns true, and the port is 4464. -/
theorem getconfig_narrowed :
    (entries.getint wideDict (utf8 "database:port") 3306).toInt = 70000 ∧
    (loadfile entries (.new 0 0) wideCall).1 = true ∧
    (getconfig (loads entries (.new 0 0) [wideCall])).dbPort = 4464 ∧
    ¬ Exact entries (.new 0 0) [wideCall] := by
  have hint : (entries.getint wideDict (utf8 "database:port") 3306).toInt = 70000 := by
    decide +kernel
  have hport : (getconfig (loads entries (.new 0 0) [wideCall])).dbPort = 4464 := by
    decide +kernel
  refine ⟨hint, rfl, hport, ?_⟩
  rintro ⟨dict, hdict, hreads⟩
  obtain rfl : wideDict = dict := Option.some.inj hdict
  have hread := hreads.dbPort
  rw [hint, hport] at hread
  cases hread

end ShareBike.Config
