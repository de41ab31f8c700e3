import ShareBike.Lib.Bytes

/-!
# The `ConnectStat` of the HTTP server

The structure as the bytes that it occupies, on x86-64, where `struct epoll_event`
is packed. A store starts at a field, and may go on past its end.
-/
namespace ShareBike.Http
open ShareBike.Lib

/-- The fields of `struct _ConnectStat`; `events` and `data` are those of `_ev`. -/
inductive Field
  | fd
  | name
  | age
  | events
  | data
  | status
  | handler
  deriving DecidableEq, Repr

namespace Field

def offset : Field → ℕ
  | fd => 0
  | name => 4
  | age => 68
  | events => 132
  | data => 136
  | status => 144
  | handler => 152

def size : Field → ℕ
  | fd => 4
  | name => 64
  | age => 64
  | events => 4
  | data => 8
  | status => 4
  | handler => 8

end Field

def sizeofConnectStat : ℕ := 160

lemma Field.inside (f : Field) : f.offset + f.size ≤ sizeofConnectStat := by
  cases f <;> decide

lemma Field.apart {f g : Field} (h : f ≠ g) :
    g.offset + g.size ≤ f.offset ∨ f.offset + f.size ≤ g.offset := by
  cases f <;> cases g <;> first | exact absurd rfl h | decide

structure ConnectStat where
  bytes : List UInt8
  length_eq : bytes.length = sizeofConnectStat
  deriving DecidableEq

namespace ConnectStat

/-- Store bytes from the first byte of a field on. What goes past the end of the
structure lands in memory that is not modelled. -/
def store (stat : ConnectStat) (f : Field) (bytes : List UInt8) : ConnectStat where
  bytes := (overwrite stat.bytes f.offset bytes).take sizeofConnectStat
  length_eq := by
    have hle := f.inside
    have hlen := stat.length_eq
    rw [List.length_take, length_overwrite (by omega)]
    omega

/-- Assign to a field. -/
def set (stat : ConnectStat) (f : Field) (v : ℕ) : ConnectStat := stat.store f (leBytes f.size v)

/-- Several stores, one after the other. -/
def storeAll (stat : ConnectStat) (stores : List (Field × List UInt8)) : ConnectStat :=
  stores.foldl (fun stat w => stat.store w.1 w.2) stat

/-- The value of a field. -/
def get (stat : ConnectStat) (f : Field) : ℕ := le (slice stat.bytes f.offset f.size)

/-- The C string that starts at a field. -/
def text (stat : ConnectStat) (f : Field) : List UInt8 := cstr (stat.bytes.drop f.offset)

def zeroed : ConnectStat := ⟨List.replicate sizeofConnectStat 0, by simp⟩

end ConnectStat

/-- `stat_init`, taken to return the structure. -/
def statInit (fd : ℕ) : ConnectStat := (ConnectStat.zeroed.set .fd fd).set .status 0

variable {stat : ConnectStat} {f g : Field} {bytes : List UInt8} {v : ℕ}

/-- A store leaves the fields alone that it does not reach. -/
lemma slice_store_of_apart
    (h : g.offset + g.size ≤ f.offset ∨ f.offset + bytes.length ≤ g.offset) :
    slice (stat.store f bytes).bytes g.offset g.size = slice stat.bytes g.offset g.size := by
  have hle := f.inside
  have hlen := stat.length_eq
  rw [ConnectStat.store, slice_take g.inside, slice_overwrite_of_apart (by omega) h]

lemma get_store_of_apart
    (h : g.offset + g.size ≤ f.offset ∨ f.offset + bytes.length ≤ g.offset) :
    (stat.store f bytes).get g = stat.get g := by
  rw [ConnectStat.get, ConnectStat.get, slice_store_of_apart h]

/-- The bytes of a field that was assigned to. -/
lemma slice_set_self (f : Field) (v : ℕ) :
    slice (stat.set f v).bytes f.offset f.size = leBytes f.size v := by
  have hle := f.inside
  have hlen := stat.length_eq
  have hs : slice (overwrite stat.bytes f.offset (leBytes f.size v)) f.offset
      (leBytes f.size v).length = leBytes f.size v := slice_overwrite_self (by omega)
  rw [length_leBytes] at hs
  rw [ConnectStat.set, ConnectStat.store, slice_take f.inside, hs]

@[simp] lemma get_set_self (h : v < 256 ^ f.size) : (stat.set f v).get f = v := by
  rw [ConnectStat.get, slice_set_self, le_leBytes h]

lemma get_set_of_ne (h : f ≠ g) : (stat.set f v).get g = stat.get g := by
  apply get_store_of_apart
  rw [length_leBytes]
  exact Field.apart h

/-- Stores that do not reach a field leave it alone. -/
lemma get_storeAll_of_apart {stores : List (Field × List UInt8)}
    (h : ∀ w ∈ stores, g.offset + g.size ≤ w.1.offset ∨ w.1.offset + w.2.length ≤ g.offset) :
    (stat.storeAll stores).get g = stat.get g := by
  induction stores generalizing stat with
  | nil => rfl
  | cons w stores ih =>
    have hrest : ∀ w ∈ stores,
        g.offset + g.size ≤ w.1.offset ∨ w.1.offset + w.2.length ≤ g.offset :=
      fun w' hw' => h w' (List.mem_cons_of_mem _ hw')
    calc (stat.storeAll (w :: stores)).get g
        = ((stat.store w.1 w.2).storeAll stores).get g := rfl
      _ = (stat.store w.1 w.2).get g := ih hrest
      _ = stat.get g := get_store_of_apart (h w List.mem_cons_self)

lemma storeAll_append (stores stores' : List (Field × List UInt8)) :
    stat.storeAll (stores ++ stores') = (stat.storeAll stores).storeAll stores' := by
  rw [ConnectStat.storeAll, List.foldl_append]
  rfl

lemma get_statInit_fd {fd : ℕ} (h : fd < 256 ^ Field.fd.size) : (statInit fd).get .fd = fd := by
  rw [statInit, get_set_of_ne (by decide), get_set_self h]

end ShareBike.Http
