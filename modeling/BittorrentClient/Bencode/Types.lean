import BittorrentClient.Library.Decimal
import BittorrentClient.Library.OrderedMap

namespace BittorrentClient
open Cpp

/-- A bencoded value: `BInteger`, `BString`, `BList` or `BDict`. The content
of a dictionary is a `std::map`, listed in its iteration order. -/
inductive BType
  | integer (value : Int64)
  | string (content : Bytes)
  | list (content : List BType)
  | dict (content : List (Bytes × BType))

/-- The order of the keys is what a `std::map` adds to a list of entries. -/
inductive BType.WellFormed : BType → Prop
  | integer (value : Int64) : WellFormed (.integer value)
  | string (content : Bytes) : WellFormed (.string content)
  | list {content : List BType} : (∀ item ∈ content, WellFormed item) → WellFormed (.list content)
  | dict {content : List (Bytes × BType)} : KeysAscend content →
      (∀ entry ∈ content, WellFormed entry.2) → WellFormed (.dict content)

/-- A value tree as the program can hold one. -/
structure BTree where
  root : BType
  wellFormed : root.WellFormed

end BittorrentClient
