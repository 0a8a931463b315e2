import BittorrentClient.Bencode.Types

namespace BittorrentClient.Bencode
open Cpp

/-- `bencode::integer`. -/
def integer (v : Int64) : Bytes := text ['i'] ++ toStringSigned v.toInt ++ text ['e']

/-- `bencode::string`. -/
def string (s : Bytes) : Bytes := toStringUnsigned s.length ++ text [':'] ++ s

/-- `bencode::list`, on elements that are already encoded. -/
def list (items : List Bytes) : Bytes :=
  items.foldl (fun out item => out ++ item) (text ['l']) ++ text ['e']

/-- `bencode::dict`, on raw keys and values that are already encoded. -/
def dict (entries : List (Bytes × Bytes)) : Bytes :=
  entries.foldl (fun out entry => out ++ string entry.1 ++ entry.2) (text ['d']) ++ text ['e']

mutual
/-- The four encoders applied bottom-up to a value tree. -/
def encode : BType → Bytes
  | .integer value => integer value
  | .string content => string content
  | .list content => list (encodeItems content)
  | .dict content => dict (encodeEntries content)

def encodeItems : List BType → List Bytes
  | [] => []
  | item :: rest => encode item :: encodeItems rest

def encodeEntries : List (Bytes × BType) → List (Bytes × Bytes)
  | [] => []
  | (key, value) :: rest => (key, encode value) :: encodeEntries rest
end

theorem list_eq (items : List Bytes) : list items = 108 :: (items.flatten ++ [101]) := by
  have fold : items.foldl (fun out item => out ++ id item) (text ['l']) = text ['l'] ++ (items.map id).flatten :=
    List.foldl_append_eq_append
  rw [List.map_id] at fold
  exact congrArg (· ++ text ['e']) fold

theorem dict_eq (entries : List (Bytes × Bytes)) :
    dict entries = 100 :: ((entries.map (fun entry => string entry.1 ++ entry.2)).flatten ++ [101]) := by
  simp only [dict, List.append_assoc, List.foldl_append_eq_append]
  rfl

end BittorrentClient.Bencode
