import Mathlib.Logic.Function.Basic

/-! # The key-value store

`microkvs` is not part of this repository. The code relies on it as a map from
names to objects whose store of a single object is atomic: it happens or it
does not. An object is its length and the memory it is mapped at, since the
code reads mapped objects through raw pointers. -/
namespace EmbeddedPlatform

/-- An object as `FindObject` and `MapObject` show it: the length recorded for
it and what memory reads as from the mapped pointer on. -/
structure KvsObject where
  m_len : Nat
  ptr : Nat → UInt8

namespace KvsObject

/-- The object a store of `data` leaves; flash past the data is blank. -/
def ofBytes (data : List UInt8) : KvsObject where
  m_len := data.length
  ptr := fun i => data.getD i 0xff

/-- A copy of `n` bytes from the mapped pointer. -/
def read (o : KvsObject) (n : Nat) : List UInt8 := (List.range n).map o.ptr

theorem read_ofBytes (data : List UInt8) : (ofBytes data).read data.length = data := by
  apply List.ext_getElem
  · simp [read]
  · intro i h₁ h₂
    simp [read, ofBytes, List.getD_eq_getElem?_getD, h₂]

end KvsObject

abbrev Kvs := String → Option KvsObject

namespace Kvs

def empty : Kvs := fun _ => none

def FindObject (kvs : Kvs) (name : String) : Option KvsObject := kvs name

/-- A store of one object that takes effect. -/
def store (kvs : Kvs) (name : String) (data : List UInt8) : Kvs :=
  Function.update kvs name (some (.ofBytes data))

@[simp] theorem store_self (kvs : Kvs) (name : String) (data : List UInt8) :
    kvs.store name data name = some (.ofBytes data) := by simp [store]

theorem store_of_ne {kvs : Kvs} {name other : String} {data : List UInt8} (h : other ≠ name) :
    kvs.store name data other = kvs other := by simp [store, h]

/-- The first `n` bytes of an object, or `dflt` if there is none. -/
def ReadObject (kvs : Kvs) (name : String) (n : Nat) (dflt : List UInt8) : List UInt8 :=
  match kvs.FindObject name with
  | some o => o.read n
  | none => dflt

/-- Stores `value` unless the object, or `dflt` in its place, already equals it.
`ok` says whether the store, if one is made, takes effect. -/
def StoreObjectIfNecessary (kvs : Kvs) (ok : Bool) (name : String)
    (value dflt : List UInt8) : Kvs :=
  if kvs.ReadObject name value.length dflt = value then kvs
  else if ok then kvs.store name value
  else kvs

theorem storeObjectIfNecessary_cases (kvs : Kvs) (ok : Bool) (name : String)
    (value dflt : List UInt8) :
    kvs.StoreObjectIfNecessary ok name value dflt = kvs ∨
      kvs.StoreObjectIfNecessary ok name value dflt = kvs.store name value := by
  unfold StoreObjectIfNecessary
  split
  · exact .inl rfl
  · split
    · exact .inr rfl
    · exact .inl rfl

end Kvs

end EmbeddedPlatform
