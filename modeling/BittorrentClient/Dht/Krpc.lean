import BittorrentClient.Bencode.Encoder
import BittorrentClient.Bencode.Parser
import BittorrentClient.Dht.KademliaLookup
import BittorrentClient.Library.ByteOrder
import BittorrentClient.Library.Splice
import BittorrentClient.Library.UnorderedMap

namespace BittorrentClient
open Cpp

/-- `struct in_addr`: an IPv4 address in network byte order. -/
structure InAddr where
  bytes : Bytes
  length_eq : bytes.length = 4

/-- The address conversions of the C library. -/
structure Inet where
  aton : Bytes → Option InAddr
  ntoa : InAddr → Bytes

namespace Inet

/-- The `in_addr` after `inet_aton`, which leaves it zero when it refuses the text. -/
def address (inet : Inet) (ip : Bytes) : InAddr := (inet.aton ip).getD ⟨[0, 0, 0, 0], rfl⟩

/-- A text that `inet_aton` reads and `inet_ntoa` writes back. -/
def Canonical (inet : Inet) (ip : Bytes) : Prop := inet.ntoa (inet.address ip) = ip

end Inet

/-- `peer_to_compact`. -/
def peerToCompact (inet : Inet) (ip : Bytes) (port : UInt16) : Bytes :=
  (inet.address ip).bytes ++ writeBe16 port

namespace Dht

def NodeId.zero : NodeId := ⟨List.replicate 20 0, rfl⟩

/-- `NodeId::from_string`, zero for a string of another length. -/
def NodeId.fromString (s : Bytes) : NodeId := if sized : s.length = 20 then ⟨s, sized⟩ else .zero

namespace RoutingEntry

def compact (inet : Inet) (entry : RoutingEntry) : Bytes :=
  entry.id.bytes ++ (inet.address entry.pa.ip).bytes ++ writeBe16 entry.pa.port

/-- The four bytes at an offset, as `memcpy` takes them. -/
def addressAt (data : Bytes) (offset : Nat) : InAddr :=
  ⟨[data.getD offset 0, data.getD (offset + 1) 0, data.getD (offset + 2) 0, data.getD (offset + 3) 0], rfl⟩

/-- `from_compact`, at the time `now`. -/
def fromCompact (inet : Inet) (now : Nat) (data : Bytes) (offset : Nat) : RoutingEntry :=
  if data.length < offset + 26 then ⟨⟨.zero, ⟨[], 0⟩⟩, 0⟩
  else
    let id := NodeId.fromString (Splice.slice data offset 20)
    let addr := addressAt data (offset + 20)
    ⟨⟨id, ⟨inet.ntoa addr, readBe16 data (offset + 24)⟩⟩, now⟩

end RoutingEntry

/-- `make_ping`. -/
def makePing (txn : Txn) (selfId : NodeId) : Bytes :=
  let args := Bencode.dict [(text ['i', 'd'], Bencode.string selfId.bytes)]
  Bencode.dict
    [(text ['a'], args),
      (text ['q'], Bencode.string (text ['p', 'i', 'n', 'g'])),
      (text ['t'], Bencode.string txn),
      (text ['y'], Bencode.string (text ['q']))]

/-- `make_find_node`. -/
def makeFindNode (txn : Txn) (selfId target : NodeId) : Bytes :=
  let args := Bencode.dict
    [(text ['i', 'd'], Bencode.string selfId.bytes),
      (text ['t', 'a', 'r', 'g', 'e', 't'], Bencode.string target.bytes)]
  Bencode.dict
    [(text ['a'], args),
      (text ['q'], Bencode.string (text ['f', 'i', 'n', 'd', '_', 'n', 'o', 'd', 'e'])),
      (text ['t'], Bencode.string txn),
      (text ['y'], Bencode.string (text ['q']))]

/-- `make_get_peers`. -/
def makeGetPeers (txn : Txn) (selfId : NodeId) (infoHash : InfoHash) : Bytes :=
  let args := Bencode.dict
    [(text ['i', 'd'], Bencode.string selfId.bytes),
      (text ['i', 'n', 'f', 'o', '_', 'h', 'a', 's', 'h'], Bencode.string infoHash.bytes)]
  Bencode.dict
    [(text ['a'], args),
      (text ['q'], Bencode.string (text ['g', 'e', 't', '_', 'p', 'e', 'e', 'r', 's'])),
      (text ['t'], Bencode.string txn),
      (text ['y'], Bencode.string (text ['q']))]

/-- `make_announce_peer`. -/
def makeAnnouncePeer (txn : Txn) (selfId : NodeId) (infoHash : InfoHash) (port : UInt16) (token : Bytes)
    (impliedPort : Bool) : Bytes :=
  let args := Bencode.dict
    [(text ['i', 'd'], Bencode.string selfId.bytes),
      (text ['i', 'm', 'p', 'l', 'i', 'e', 'd', '_', 'p', 'o', 'r', 't'],
        Bencode.integer (if impliedPort then 1 else 0)),
      (text ['i', 'n', 'f', 'o', '_', 'h', 'a', 's', 'h'], Bencode.string infoHash.bytes),
      (text ['p', 'o', 'r', 't'], Bencode.integer (Int64.ofNat port.toNat)),
      (text ['t', 'o', 'k', 'e', 'n'], Bencode.string token)]
  Bencode.dict
    [(text ['a'], args),
      (text ['q'], Bencode.string (text ['a', 'n', 'n', 'o', 'u', 'n', 'c', 'e', '_', 'p', 'e', 'e', 'r'])),
      (text ['t'], Bencode.string txn),
      (text ['y'], Bencode.string (text ['q']))]

/-- The outer dictionary of the four responses. -/
def responseDict (txn : Txn) (r : Bytes) : Bytes :=
  Bencode.dict
    [(text ['r'], r), (text ['t'], Bencode.string txn), (text ['y'], Bencode.string (text ['r']))]

/-- `make_response`. -/
def makeResponse (txn : Txn) (selfId : NodeId) : Bytes :=
  responseDict txn (Bencode.dict [(text ['i', 'd'], Bencode.string selfId.bytes)])

def nodesToCompact (inet : Inet) (nodes : List RoutingEntry) : Bytes :=
  nodes.foldl (fun out n => out ++ n.compact inet) []

/-- `make_nodes_response`. -/
def makeNodesResponse (inet : Inet) (txn : Txn) (selfId : NodeId) (nodes : List RoutingEntry) : Bytes :=
  responseDict txn (Bencode.dict
    [(text ['i', 'd'], Bencode.string selfId.bytes),
      (text ['n', 'o', 'd', 'e', 's'], Bencode.string (nodesToCompact inet nodes))])

/-- `make_peers_response`. -/
def makePeersResponse (inet : Inet) (txn : Txn) (selfId : NodeId) (token : Bytes) (pas : List PeerAddress) : Bytes :=
  let encoded := pas.map (fun p => Bencode.string (peerToCompact inet p.ip p.port))
  responseDict txn (Bencode.dict
    [(text ['i', 'd'], Bencode.string selfId.bytes),
      (text ['t', 'o', 'k', 'e', 'n'], Bencode.string token),
      (text ['v', 'a', 'l', 'u', 'e', 's'], Bencode.list encoded)])

/-- `make_nodes_response_gp`. -/
def makeNodesResponseGp (inet : Inet) (txn : Txn) (selfId : NodeId) (token : Bytes) (nodes : List RoutingEntry) :
    Bytes :=
  responseDict txn (Bencode.dict
    [(text ['i', 'd'], Bencode.string selfId.bytes),
      (text ['n', 'o', 'd', 'e', 's'], Bencode.string (nodesToCompact inet nodes)),
      (text ['t', 'o', 'k', 'e', 'n'], Bencode.string token)])

/-- `make_error`. -/
def makeError (txn : Txn) (code : Int32) (msg : Bytes) : Bytes :=
  Bencode.dict
    [(text ['e'], Bencode.list [Bencode.integer code.toInt64, Bencode.string msg]),
      (text ['t'], Bencode.string txn),
      (text ['y'], Bencode.string (text ['e']))]

inductive KrpcType
  | query
  | response
  | error
  deriving DecidableEq

inductive KrpcQuery
  | ping
  | findNode
  | getPeers
  | announcePeer
  deriving DecidableEq

namespace Krpc

/-- `KrpcMessage`, with the initial values of its members. -/
structure Message where
  type : KrpcType := .response
  txn : Txn := []
  queryType : Option KrpcQuery := none
  senderId : NodeId := .zero
  target : NodeId := .zero
  infoHash : Option InfoHash := none
  peerPort : UInt16 := 0
  token : Bytes := []
  impliedPort : Bool := false
  nodes : List RoutingEntry := []
  nodeCounts : List Nat := []
  values : List Bytes := []
  errorCode : Int32 := 0
  errorMsg : Bytes := []

/-- A string under a key, empty for anything else. -/
def bstring (d : List (Bytes × BType)) (key : Bytes) : Bytes :=
  match mapFind key d with
  | some (.string content) => content
  | _ => []

def binteger (d : List (Bytes × BType)) (key : Bytes) : Int64 :=
  match mapFind key d with
  | some (.integer value) => value
  | _ => 0

def bdict (d : List (Bytes × BType)) (key : Bytes) : Option (List (Bytes × BType)) :=
  match mapFind key d with
  | some (.dict content) => some content
  | _ => none

def blist (d : List (Bytes × BType)) (key : Bytes) : Option (List BType) :=
  match mapFind key d with
  | some (.list content) => some content
  | _ => none

/-- The vectors `nodes` and `counts` and the map `index` of `parse_nodes`. -/
structure ParsedNodes where
  nodes : List RoutingEntry
  counts : List Nat
  index : UnorderedMap Bytes Nat

/-- One round of the loop of `parse_nodes`. -/
def parseNode (inet : Inet) (now : Nat) (compact : Bytes) (parsed : ParsedNodes) (i : Nat) : ParsedNodes :=
  let key := Splice.slice compact i 26
  match parsed.index.lookup key with
  | some at_ => { parsed with counts := parsed.counts.modify at_ (· + 1) }
  | none =>
    ⟨parsed.nodes ++ [RoutingEntry.fromCompact inet now compact i], parsed.counts ++ [1],
      parsed.index.insert key parsed.nodes.length⟩

/-- `parse_nodes`: the offsets are the multiples of 26 with 26 bytes behind them. -/
def parseNodes (inet : Inet) (now : Nat) (compact : Bytes) : ParsedNodes :=
  ((List.range (compact.length / 26)).map (· * 26)).foldl (parseNode inet now compact) ⟨[], [], ∅⟩

def parsePeers (lst : Option (List BType)) : List Bytes :=
  (lst.getD []).filterMap fun
    | .string content => if content.length = 6 then some content else none
    | _ => none

/-- The branch of `parse_krpc` for queries. -/
def readQuery (msg : Message) (root : List (Bytes × BType)) : Option Message := do
  let q := bstring root (text ['q'])
  let a ← bdict root (text ['a'])
  let msg := { msg with type := .query, senderId := .fromString (bstring a (text ['i', 'd'])) }
  if q = text ['p', 'i', 'n', 'g'] then some { msg with queryType := some .ping }
  else if q = text ['f', 'i', 'n', 'd', '_', 'n', 'o', 'd', 'e'] then
    some { msg with
      queryType := some .findNode
      target := .fromString (bstring a (text ['t', 'a', 'r', 'g', 'e', 't'])) }
  else if q = text ['g', 'e', 't', '_', 'p', 'e', 'e', 'r', 's'] then
    let ih ← InfoHash.tryFromRaw (bstring a (text ['i', 'n', 'f', 'o', '_', 'h', 'a', 's', 'h']))
    some { msg with queryType := some .getPeers, infoHash := some ih }
  else if q = text ['a', 'n', 'n', 'o', 'u', 'n', 'c', 'e', '_', 'p', 'e', 'e', 'r'] then
    let ih ← InfoHash.tryFromRaw (bstring a (text ['i', 'n', 'f', 'o', '_', 'h', 'a', 's', 'h']))
    some { msg with
      queryType := some .announcePeer
      infoHash := some ih
      token := bstring a (text ['t', 'o', 'k', 'e', 'n'])
      peerPort := (binteger a (text ['p', 'o', 'r', 't'])).toUInt64.toUInt16
      impliedPort := binteger a (text ['i', 'm', 'p', 'l', 'i', 'e', 'd', '_', 'p', 'o', 'r', 't']) != 0 }
  else none

/-- The branch of `parse_krpc` for responses. -/
def readResponse (inet : Inet) (now : Nat) (msg : Message) (root : List (Bytes × BType)) : Option Message := do
  let r ← bdict root (text ['r'])
  let nodesRaw := bstring r (text ['n', 'o', 'd', 'e', 's'])
  let msg := if nodesRaw.isEmpty then msg
    else
      let parsed := parseNodes inet now nodesRaw
      { msg with nodes := parsed.nodes, nodeCounts := parsed.counts }
  some { msg with
    type := .response
    senderId := .fromString (bstring r (text ['i', 'd']))
    token := bstring r (text ['t', 'o', 'k', 'e', 'n'])
    values := parsePeers (blist r (text ['v', 'a', 'l', 'u', 'e', 's'])) }

/-- The branch of `parse_krpc` for errors. -/
def readError (msg : Message) (root : List (Bytes × BType)) : Message :=
  let msg := { msg with type := .error }
  match blist root (text ['e']) with
  | some (codeNode :: msgNode :: _) =>
    let msg := match codeNode with
      | .integer value => { msg with errorCode := value.toInt32 }
      | _ => msg
    match msgNode with
    | .string content => { msg with errorMsg := content }
    | _ => msg
  | _ => msg

def readMessage (inet : Inet) (now : Nat) (root : List (Bytes × BType)) : Option Message :=
  let msg : Message := { txn := bstring root (text ['t']) }
  let y := bstring root (text ['y'])
  if y = text ['q'] then readQuery msg root
  else if y = text ['r'] then readResponse inet now msg root
  else if y = text ['e'] then some (readError msg root)
  else none

end Krpc

open Krpc in
/-- `parse_krpc`, at the time `now`. Whatever the parser throws ends in `nullopt`. -/
def parseKrpc (inet : Inet) (now : Nat) (data : Bencode.Metadata) : Option Message :=
  match Bencode.Parser.parseValue data 0 with
  | .ok (.dict root, _) => readMessage inet now root
  | _ => none

end Dht

end BittorrentClient
