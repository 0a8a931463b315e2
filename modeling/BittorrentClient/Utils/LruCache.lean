import BittorrentClient.Library.UnorderedMap

namespace BittorrentClient
open Cpp

/-- A node of `items_`. Iterators know it by its address. -/
structure LruNode (Key Value : Type) where
  address : Nat
  key : Key
  value : Value

/-- The most recently used node is in front. `allocated` counts the nodes made
so far, for the address of the next one. -/
structure LruCache (Key Value : Type) where
  capacity : Nat
  items : List (LruNode Key Value)
  index : UnorderedMap Key Nat
  allocated : Nat

namespace LruCache

variable {Key Value : Type}

def make (capacity : Nat) : LruCache Key Value := ⟨capacity, [], ∅, 0⟩

/-- What an iterator, or a pointer to a value, refers to. -/
def valueAt (c : LruCache Key Value) (it : Nat) : Option Value :=
  (c.items.find? (fun node => node.address = it)).map LruNode.value

/-- A write through an iterator, or through a pointer to a value. -/
def modifyAt (c : LruCache Key Value) (it : Nat) (f : Value → Value) : LruCache Key Value :=
  { c with items := c.items.map fun node => if node.address = it then { node with value := f node.value } else node }

/-- `items_.splice(items_.begin(), items_, it)`. -/
def splice (c : LruCache Key Value) (it : Nat) : LruCache Key Value :=
  { c with items := c.items.filter (fun node => node.address = it) ++ c.items.filter (fun node => node.address ≠ it) }

variable [DecidableEq Key]

def contains (c : LruCache Key Value) (key : Key) : Bool := (c.index.lookup key).isSome

/-- `get`; the pointer is null for an unknown key. -/
def get (c : LruCache Key Value) (key : Key) : Option Nat × LruCache Key Value :=
  match c.index.lookup key with
  | none => (none, c)
  | some it => (some it, c.splice it)

def evictLru (c : LruCache Key Value) : LruCache Key Value :=
  match c.items.getLast? with
  | none => c
  | some node => { c with items := c.items.dropLast, index := c.index.erase node.key }

/-- `put`, with a reference to the stored value. -/
def put (c : LruCache Key Value) (key : Key) (value : Value) : Nat × LruCache Key Value :=
  match c.index.lookup key with
  | some it => (it, (c.modifyAt it fun _ => value).splice it)
  | none =>
    let c := if c.capacity ≤ c.index.keys.length then c.evictLru else c
    (c.allocated,
      { c with
        items := ⟨c.allocated, key, value⟩ :: c.items
        index := c.index.insert key c.allocated
        allocated := c.allocated + 1 })

/-- `erase` of a node that the caller has reached. -/
def eraseAt (c : LruCache Key Value) (pos : LruNode Key Value) : LruCache Key Value :=
  { c with
    items := c.items.filter (fun node => node.address ≠ pos.address)
    index := c.index.erase pos.key }

/-- The iterator that `erase` of a node returns; there is none at the end. -/
def following (c : LruCache Key Value) (pos : LruNode Key Value) : Option (LruNode Key Value) :=
  (c.items.dropWhile fun node => node.address ≠ pos.address).tail.head?

/-- `erase` of a key, with whether there was anything to erase. -/
def erase (c : LruCache Key Value) (key : Key) : Bool × LruCache Key Value :=
  match c.index.lookup key with
  | none => (false, c)
  | some it =>
    (true, { c with items := c.items.filter (fun node => node.address ≠ it), index := c.index.erase key })

def clear (c : LruCache Key Value) : LruCache Key Value := { c with items := [], index := ∅ }

def lruKey (c : LruCache Key Value) : Option Key := c.items.getLast?.map LruNode.key

end LruCache

end BittorrentClient
