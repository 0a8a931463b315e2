import BittorrentClient.Bencode.Bounds
import BittorrentClient.Bencode.RoundTrip
import BittorrentClient.Dht.Krpc
import BittorrentClient.Library.Tally

namespace BittorrentClient.Dht
open Cpp Bencode Krpc Splice

theorem NodeId.fromString_bytes (id : NodeId) : NodeId.fromString id.bytes = id := dif_pos id.length_eq

theorem tryFromRaw_bytes (hash : InfoHash) : InfoHash.tryFromRaw hash.bytes = some hash := dif_pos hash.length_eq

theorem readBe16_writeBe16 (value : UInt16) : readBe16 (writeBe16 value) 0 = value := by
  have bound := value.toNat_lt
  have eight : UInt16.toNat 8 % 16 = 8 := rfl
  apply UInt16.toNat_inj.mp
  simp only [readBe16, writeBe16, List.getD_cons_zero, List.getD_cons_succ, UInt16.toNat_or, UInt16.toNat_shiftLeft,
    UInt8.toNat_toUInt16, UInt16.toNat_toUInt8, UInt16.toNat_shiftRight, eight, Nat.shiftRight_eq_div_pow]
  have high : (value.toNat / 2 ^ 8 % 2 ^ 8) <<< 8 % 2 ^ 16 = (value.toNat / 2 ^ 8) <<< 8 := by
    rw [Nat.shiftLeft_eq, Nat.shiftLeft_eq]
    omega
  rw [high, ← Nat.shiftLeft_add_eq_or_of_lt (Nat.mod_lt _ (by decide)), Nat.shiftLeft_eq]
  omega

section Compact

/-- `compact` of the part of an entry that goes on the wire. -/
def Node.compact (inet : Inet) (node : Node) : Bytes :=
  node.id.bytes ++ (inet.address node.pa.ip).bytes ++ writeBe16 node.pa.port

variable {inet : Inet}

theorem Node.compact_length (node : Node) : (node.compact inet).length = 26 := by
  simp only [Node.compact, List.length_append, node.id.length_eq, (inet.address node.pa.ip).length_eq]
  rfl

theorem getD_slice {data : Bytes} {offset width k : Nat} (inside : k < width) :
    (slice data offset width).getD k 0 = data.getD (offset + k) 0 := by
  simp [slice, List.getD_eq_getElem?_getD, inside]

/-- `from_compact` reads 26 bytes, wherever they stand. -/
theorem fromCompact_slice (now : Nat) {data : Bytes} {offset : Nat} (inside : offset + 26 ≤ data.length) :
    RoutingEntry.fromCompact inet now data offset = RoutingEntry.fromCompact inet now (slice data offset 26) 0 := by
  have length : (slice data offset 26).length = 26 := slice_length inside
  have front : slice (slice data offset 26) 0 20 = slice data offset 20 := by
    simp [slice, List.take_take]
  have address : RoutingEntry.addressAt (slice data offset 26) 20 = RoutingEntry.addressAt data (offset + 20) := by
    unfold RoutingEntry.addressAt
    congr 1
    simp only [getD_slice (show 20 < 26 by decide), getD_slice (show 20 + 1 < 26 by decide),
      getD_slice (show 20 + 2 < 26 by decide), getD_slice (show 20 + 3 < 26 by decide), Nat.add_assoc]
  have port : readBe16 (slice data offset 26) 24 = readBe16 data (offset + 24) := by
    simp only [readBe16, getD_slice (show 24 < 26 by decide), getD_slice (show 24 + 1 < 26 by decide), Nat.add_assoc]
  simp only [RoutingEntry.fromCompact, length, if_neg (show ¬data.length < offset + 26 by omega),
    if_neg (show ¬26 < 0 + 26 by decide), Nat.zero_add, front, address, port]

theorem readBe16_append {front back : Bytes} {offset : Nat} (length : front.length = offset) :
    readBe16 (front ++ back) offset = readBe16 back 0 := by
  subst length
  simp [readBe16, List.getD_eq_getElem?_getD, List.getElem?_append_right]

theorem addressAt_append {front back : Bytes} {offset : Nat} (length : front.length = offset) (addr : InAddr) :
    RoutingEntry.addressAt (front ++ addr.bytes ++ back) offset = addr := by
  subst length
  obtain ⟨bytes, four⟩ := addr
  match bytes, four with
  | [a, b, c, d], _ => simp [RoutingEntry.addressAt, List.getD_eq_getElem?_getD]

theorem fromCompact_compact (now : Nat) {node : Node} (canonical : inet.Canonical node.pa.ip) :
    RoutingEntry.fromCompact inet now (node.compact inet) 0 = ⟨node, now⟩ := by
  have length : (node.compact inet).length = 26 := node.compact_length
  have id : slice (node.compact inet) 0 20 = node.id.bytes := by
    rw [Node.compact, List.append_assoc, slice, List.drop_zero, ← node.id.length_eq, List.take_left]
  have address : RoutingEntry.addressAt (node.compact inet) 20 = inet.address node.pa.ip :=
    addressAt_append node.id.length_eq _
  have port : readBe16 (node.compact inet) 24 = node.pa.port := by
    rw [Node.compact, readBe16_append, readBe16_writeBe16]
    rw [List.length_append, node.id.length_eq, (inet.address node.pa.ip).length_eq]
  simp only [RoutingEntry.fromCompact, length, if_neg (show ¬26 < 0 + 26 by decide), id, NodeId.fromString_bytes,
    Nat.zero_add, address, port]
  unfold Inet.Canonical at canonical
  rw [canonical]

/-- Entries with the same 26 bytes are the same node. -/
theorem compact_injective {a b : Node} (canonicalA : inet.Canonical a.pa.ip) (canonicalB : inet.Canonical b.pa.ip)
    (same : a.compact inet = b.compact inet) : a = b := by
  have readA := fromCompact_compact 0 canonicalA
  rw [same, fromCompact_compact 0 canonicalB] at readA
  exact (congrArg RoutingEntry.toNode readA).symm

end Compact

section ParseNodes
variable {inet : Inet} {now : Nat}

/-- The loop after the given chunks: one entry for each distinct chunk, in the
order of first occurrence, with the number of its occurrences. -/
structure Tallied (inet : Inet) (now : Nat) (keys : List Bytes) (parsed : ParsedNodes) : Prop where
  nodes : parsed.nodes = keys.eraseDups.map (fun key => RoutingEntry.fromCompact inet now key 0)
  counts : parsed.counts = keys.eraseDups.map keys.count
  index : ∀ key, parsed.index.lookup key = if key ∈ keys then some (keys.eraseDups.idxOf key) else none

theorem Tallied.next {keys : List Bytes} {parsed : ParsedNodes} (tallied : Tallied inet now keys parsed)
    {compact : Bytes} {i : Nat} (inside : i + 26 ≤ compact.length) :
    Tallied inet now (keys ++ [slice compact i 26]) (parseNode inet now compact parsed i) := by
  have others : ∀ other, other ≠ slice compact i 26 →
      (keys ++ [slice compact i 26]).count other = keys.count other := by
    intro other different
    simp [List.count_append, Ne.symm different]
  have found := tallied.index (slice compact i 26)
  by_cases seen : slice compact i 26 ∈ keys
  · rw [if_pos seen] at found
    have distinct : (keys ++ [slice compact i 26]).eraseDups = keys.eraseDups := by
      rw [Tally.eraseDups_concat, if_pos seen]
    simp only [parseNode, found]
    refine ⟨?_, ?_, ?_⟩
    · rw [distinct]
      exact tallied.nodes
    · rw [distinct, tallied.counts]
      exact Tally.modify_idxOf (Tally.nodup_eraseDups keys) (List.mem_eraseDups.mpr seen) _ _
        (by simp [List.count_append]) others
    · intro key
      rw [distinct, tallied.index key]
      have same : key ∈ keys ++ [slice compact i 26] ↔ key ∈ keys := by
        simp only [List.mem_append, List.mem_singleton]
        exact ⟨fun either => either.elim id fun equal => equal ▸ seen, Or.inl⟩
      simp only [same]
  · rw [if_neg seen] at found
    have distinct : (keys ++ [slice compact i 26]).eraseDups = keys.eraseDups ++ [slice compact i 26] := by
      rw [Tally.eraseDups_concat, if_neg seen]
    have fresh : slice compact i 26 ∉ keys.eraseDups := fun member => seen (List.mem_eraseDups.mp member)
    have unchanged : keys.eraseDups.map (keys ++ [slice compact i 26]).count = keys.eraseDups.map keys.count :=
      List.map_congr_left fun other member => others other fun equal => fresh (equal ▸ member)
    simp only [parseNode, found]
    refine ⟨?_, ?_, ?_⟩
    · rw [distinct, List.map_append, tallied.nodes, fromCompact_slice now inside, List.map_singleton]
    · rw [distinct, List.map_append, unchanged, tallied.counts]
      simp [List.count_append, List.count_eq_zero.mpr seen]
    · intro key
      rw [UnorderedMap.lookup_insert_eq, distinct, tallied.nodes, List.length_map, tallied.index key]
      by_cases equal : key = slice compact i 26
      · subst equal
        simp [List.idxOf_append_of_notMem fresh]
      · by_cases member : key ∈ keys
        · simp [equal, member, List.idxOf_append_of_mem (List.mem_eraseDups.mpr member)]
        · simp [equal, member]

theorem tallied_chunks (compact : Bytes) {n : Nat} (within : n * 26 ≤ compact.length) :
    Tallied inet now ((List.range n).map (fun k => slice compact (k * 26) 26))
      (((List.range n).map (· * 26)).foldl (parseNode inet now compact) ⟨[], [], ∅⟩) := by
  induction n with
  | zero => exact ⟨rfl, rfl, fun key => by simp⟩
  | succ n ih =>
    have step := (ih (by omega)).next (show n * 26 + 26 ≤ compact.length by omega)
    simpa only [List.range_succ, List.map_append, List.map_singleton, List.foldl_append, List.foldl_cons,
      List.foldl_nil] using step

/-- The chunks of joined texts of one width are the texts. -/
theorem chunks_flatten {texts : List Bytes} (widths : ∀ t ∈ texts, t.length = 26) :
    texts.flatten.length = texts.length * 26 ∧
      (List.range texts.length).map (fun k => slice texts.flatten (k * 26) 26) = texts := by
  induction texts with
  | nil => exact ⟨rfl, rfl⟩
  | cons first rest ih =>
    have width := widths first (List.mem_cons_self ..)
    obtain ⟨length, chunks⟩ := ih fun t member => widths t (List.mem_cons_of_mem _ member)
    refine ⟨by rw [List.flatten_cons, List.length_append, length, width, List.length_cons]; omega, ?_⟩
    rw [List.length_cons, List.range_succ_eq_map, List.map_cons, List.map_map, List.flatten_cons]
    congr 1
    · rw [Nat.zero_mul, slice, List.drop_zero, ← width, List.take_left]
    · refine Eq.trans (List.map_congr_left fun k _ => ?_) chunks
      simp only [Function.comp_apply, slice]
      rw [show (k + 1) * 26 = first.length + k * 26 by omega, ← List.drop_drop, List.drop_left]

/-- The distinct nodes of a list, in the order of first occurrence. -/
def distinctNodes (nodes : List RoutingEntry) : List Node := (nodes.map RoutingEntry.toNode).eraseDups

/-- How often each of them occurs. -/
def occurrences (nodes : List RoutingEntry) : List Nat :=
  (distinctNodes nodes).map (nodes.map RoutingEntry.toNode).count

theorem occurrences_sum (nodes : List RoutingEntry) : (occurrences nodes).sum = nodes.length := by
  rw [occurrences, distinctNodes, Tally.sum_count, List.length_map]

theorem nodesToCompact_eq (nodes : List RoutingEntry) :
    nodesToCompact inet nodes = ((nodes.map RoutingEntry.toNode).map (Node.compact inet)).flatten := by
  rw [List.map_map, nodesToCompact, List.foldl_append_eq_append, List.nil_append]
  rfl

theorem parseNodes_nodesToCompact {nodes : List RoutingEntry}
    (canonical : ∀ node ∈ nodes, inet.Canonical node.pa.ip) :
    (parseNodes inet now (nodesToCompact inet nodes)).nodes = (distinctNodes nodes).map (⟨·, now⟩) ∧
      (parseNodes inet now (nodesToCompact inet nodes)).counts = occurrences nodes := by
  have canonicalNodes : ∀ node ∈ nodes.map RoutingEntry.toNode, inet.Canonical node.pa.ip :=
    List.forall_mem_map.mpr canonical
  have widths : ∀ t ∈ (nodes.map RoutingEntry.toNode).map (Node.compact inet), t.length = 26 :=
    List.forall_mem_map.mpr fun node _ => node.compact_length
  obtain ⟨length, chunks⟩ := chunks_flatten widths
  rw [← nodesToCompact_eq] at length chunks
  have count : (nodesToCompact inet nodes).length / 26 =
      ((nodes.map RoutingEntry.toNode).map (Node.compact inet)).length := by omega
  have tallied := @tallied_chunks inet now (nodesToCompact inet nodes)
    ((nodes.map RoutingEntry.toNode).map (Node.compact inet)).length (by omega)
  rw [chunks, ← count] at tallied
  have distinct : ((nodes.map RoutingEntry.toNode).map (Node.compact inet)).eraseDups =
      (distinctNodes nodes).map (Node.compact inet) :=
    Tally.eraseDups_map fun a inA b inB => compact_injective (canonicalNodes a inA) (canonicalNodes b inB)
  have inNodes : ∀ node ∈ distinctNodes nodes, node ∈ nodes.map RoutingEntry.toNode :=
    fun node member => List.mem_eraseDups.mp member
  refine ⟨tallied.nodes.trans ?_, tallied.counts.trans ?_⟩
  · rw [distinct, List.map_map]
    exact List.map_congr_left fun node member => fromCompact_compact now (canonicalNodes node (inNodes node member))
  · rw [distinct, List.map_map]
    refine List.map_congr_left fun node member => ?_
    exact Tally.count_map fun a inA => compact_injective (canonicalNodes a inA) (canonicalNodes node (inNodes node member))

end ParseNodes

/-- Every string with the given bytes is read as the given message. -/
def Decodes (inet : Inet) (now : Nat) (bytes : Bytes) (msg : Message) : Prop :=
  ∀ data : Metadata, data.bytes = bytes → parseKrpc inet now data = some msg

section Builders
variable {inet : Inet} {now : Nat}

theorem decodes_of_spells {bytes : Bytes} {root : List (Bytes × BType)} {msg : Message}
    (spelled : Spells bytes (.dict root)) (read : readMessage inet now root = some msg) :
    Decodes inet now bytes msg := by
  rintro data rfl
  rw [parseKrpc, Parser.parseValue_alone spelled]
  exact read

theorem spells_idDict (id : NodeId) :
    Spells (Bencode.dict [(text ['i', 'd'], Bencode.string id.bytes)]) (.dict [(text ['i', 'd'], .string id.bytes)]) :=
  spells_dict (.cons (entrySpelled (spells_string _)) .nil) (List.pairwise_singleton _ _)

/-- The text of a query: its arguments, its name and its transaction id. -/
theorem spells_query {args : Bytes} {a : List (Bytes × BType)} (spelled : Spells args (.dict a)) (name txn : Bytes) :
    Spells
      (Bencode.dict [(text ['a'], args), (text ['q'], Bencode.string name), (text ['t'], Bencode.string txn),
        (text ['y'], Bencode.string (text ['q']))])
      (.dict [(text ['a'], .dict a), (text ['q'], .string name), (text ['t'], .string txn),
        (text ['y'], .string (text ['q']))]) := by
  have ascend : List.Pairwise (· < ·) [text ['a'], text ['q'], text ['t'], text ['y']] := by decide
  exact spells_dict (.cons (entrySpelled spelled) (.cons (entrySpelled (spells_string _)) (.cons (entrySpelled (spells_string _))
    (.cons (entrySpelled (spells_string _)) .nil)))) ascend

/-- The text of a response. -/
theorem spells_response {r : Bytes} {content : List (Bytes × BType)} (spelled : Spells r (.dict content))
    (txn : Bytes) :
    Spells (responseDict txn r)
      (.dict [(text ['r'], .dict content), (text ['t'], .string txn), (text ['y'], .string (text ['r']))]) := by
  have ascend : List.Pairwise (· < ·) [text ['r'], text ['t'], text ['y']] := by decide
  exact spells_dict (.cons (entrySpelled spelled) (.cons (entrySpelled (spells_string _)) (.cons (entrySpelled (spells_string _)) .nil))) ascend

theorem decodes_ping (txn : Txn) (selfId : NodeId) :
    Decodes inet now (makePing txn selfId)
      { type := .query, txn := txn, queryType := some .ping, senderId := selfId } := by
  refine decodes_of_spells (spells_query (spells_idDict selfId) _ txn) ?_
  change some ({
      type := .query, txn := txn, queryType := some .ping,
      senderId := NodeId.fromString selfId.bytes } : Message) = _
  rw [NodeId.fromString_bytes]

theorem decodes_findNode (txn : Txn) (selfId target : NodeId) :
    Decodes inet now (makeFindNode txn selfId target)
      { type := .query, txn := txn, queryType := some .findNode, senderId := selfId, target := target } := by
  have ascend : List.Pairwise (· < ·) [text ['i', 'd'], text ['t', 'a', 'r', 'g', 'e', 't']] := by decide
  refine decodes_of_spells (spells_query (spells_dict (.cons (entrySpelled (spells_string _))
    (.cons (entrySpelled (spells_string _)) .nil)) ascend) _ txn) ?_
  change some ({
      type := .query, txn := txn, queryType := some .findNode,
      senderId := NodeId.fromString selfId.bytes, target := NodeId.fromString target.bytes } : Message) = _
  rw [NodeId.fromString_bytes, NodeId.fromString_bytes]

theorem decodes_getPeers (txn : Txn) (selfId : NodeId) (infoHash : InfoHash) :
    Decodes inet now (makeGetPeers txn selfId infoHash)
      { type := .query, txn := txn, queryType := some .getPeers, senderId := selfId, infoHash := some infoHash } := by
  have ascend : List.Pairwise (· < ·) [text ['i', 'd'], text ['i', 'n', 'f', 'o', '_', 'h', 'a', 's', 'h']] := by
    decide
  refine decodes_of_spells (spells_query (spells_dict (.cons (entrySpelled (spells_string _))
    (.cons (entrySpelled (spells_string _)) .nil)) ascend) _ txn) ?_
  change ((InfoHash.tryFromRaw infoHash.bytes).bind fun ih =>
    some ({
        type := .query, txn := txn, queryType := some .getPeers,
        senderId := NodeId.fromString selfId.bytes, infoHash := some ih } : Message)) = _
  rw [NodeId.fromString_bytes, tryFromRaw_bytes]
  rfl

theorem port_of_integer (port : UInt16) : (Int64.ofNat port.toNat).toUInt64.toUInt16 = port := by
  apply UInt16.toNat_inj.mp
  simp

theorem decodes_announcePeer (txn : Txn) (selfId : NodeId) (infoHash : InfoHash) (port : UInt16) (token : Bytes)
    (impliedPort : Bool) :
    Decodes inet now (makeAnnouncePeer txn selfId infoHash port token impliedPort)
      { type := .query, txn := txn, queryType := some .announcePeer, senderId := selfId, infoHash := some infoHash,
        peerPort := port, token := token, impliedPort := impliedPort } := by
  have ascend : List.Pairwise (· < ·) [text ['i', 'd'],
      text ['i', 'm', 'p', 'l', 'i', 'e', 'd', '_', 'p', 'o', 'r', 't'],
      text ['i', 'n', 'f', 'o', '_', 'h', 'a', 's', 'h'], text ['p', 'o', 'r', 't'],
      text ['t', 'o', 'k', 'e', 'n']] := by decide
  refine decodes_of_spells (spells_query (spells_dict (.cons (entrySpelled (spells_string _))
    (.cons (entrySpelled (spells_integer _)) (.cons (entrySpelled (spells_string _)) (.cons (entrySpelled (spells_integer _))
      (.cons (entrySpelled (spells_string _)) .nil))))) ascend) _ txn) ?_
  have implied : ((if impliedPort then 1 else 0 : Int64) != 0) = impliedPort := by cases impliedPort <;> rfl
  change ((InfoHash.tryFromRaw infoHash.bytes).bind fun ih =>
    some ({
        type := .query, txn := txn, queryType := some .announcePeer,
        senderId := NodeId.fromString selfId.bytes, infoHash := some ih,
        peerPort := (Int64.ofNat port.toNat).toUInt64.toUInt16, token := token,
        impliedPort := (if impliedPort then 1 else 0 : Int64) != 0 } : Message)) = _
  rw [NodeId.fromString_bytes, tryFromRaw_bytes, port_of_integer, implied]
  rfl

theorem decodes_response (txn : Txn) (selfId : NodeId) :
    Decodes inet now (makeResponse txn selfId) { type := .response, txn := txn, senderId := selfId } := by
  refine decodes_of_spells (spells_response (spells_idDict selfId) txn) ?_
  change some ({ type := .response, txn := txn, senderId := NodeId.fromString selfId.bytes } : Message) = _
  rw [NodeId.fromString_bytes]

theorem decodes_error (txn : Txn) (code : Int32) (msg : Bytes) :
    Decodes inet now (makeError txn code msg)
      { type := .error, txn := txn, errorCode := code, errorMsg := msg } := by
  have ascend : List.Pairwise (· < ·) [text ['e'], text ['t'], text ['y']] := by decide
  have pair : Spells (Bencode.list [Bencode.integer code.toInt64, Bencode.string msg])
      (.list [.integer code.toInt64, .string msg]) :=
    spells_list (.cons (spells_integer _) (.cons (spells_string _) .nil))
  have spelled : Spells (makeError txn code msg) (.dict [(text ['e'], .list [.integer code.toInt64, .string msg]),
      (text ['t'], .string txn), (text ['y'], .string (text ['e']))]) :=
    spells_dict (.cons (entrySpelled pair) (.cons (entrySpelled (spells_string _)) (.cons (entrySpelled (spells_string _)) .nil))) ascend
  refine decodes_of_spells spelled ?_
  change some ({ type := .error, txn := txn, errorCode := code.toInt64.toInt32, errorMsg := msg } : Message) = _
  rw [Int32.toInt32_toInt64]

theorem peerToCompact_length (ip : Bytes) (port : UInt16) : (peerToCompact inet ip port).length = 6 := by
  rw [peerToCompact, List.length_append, (inet.address ip).length_eq]
  rfl

theorem parsePeers_strings {values : List Bytes} (widths : ∀ value ∈ values, value.length = 6) :
    parsePeers (some (values.map .string)) = values := by
  rw [parsePeers, Option.getD_some, List.filterMap_map]
  refine Eq.trans (List.filterMap_congr fun value member => ?_) List.filterMap_some
  exact if_pos (widths value member)

theorem decodes_peersResponse (txn : Txn) (selfId : NodeId) (token : Bytes) (pas : List PeerAddress) :
    Decodes inet now (makePeersResponse inet txn selfId token pas)
      { type := .response, txn := txn, senderId := selfId, token := token,
        values := pas.map (fun p => peerToCompact inet p.ip p.port) } := by
  have ascend : List.Pairwise (· < ·) [text ['i', 'd'], text ['t', 'o', 'k', 'e', 'n'],
      text ['v', 'a', 'l', 'u', 'e', 's']] := by decide
  have values : Spells (Bencode.list (pas.map (fun p => Bencode.string (peerToCompact inet p.ip p.port))))
      (.list ((pas.map (fun p => peerToCompact inet p.ip p.port)).map .string)) := by
    rw [List.map_map]
    refine spells_list (List.forall₂_map_left_iff.mpr (List.forall₂_map_right_iff.mpr ?_))
    exact List.forall₂_same.mpr fun p _ => spells_string _
  refine decodes_of_spells (spells_response (spells_dict (.cons (entrySpelled (spells_string _))
    (.cons (entrySpelled (spells_string _)) (.cons (entrySpelled values) .nil))) ascend) txn) ?_
  change some ({
      type := .response, txn := txn, senderId := NodeId.fromString selfId.bytes, token := token,
      values := parsePeers (some ((pas.map (fun p => peerToCompact inet p.ip p.port)).map .string)) } : Message) = _
  rw [NodeId.fromString_bytes, parsePeers_strings]
  exact List.forall_mem_map.mpr fun p _ => peerToCompact_length p.ip p.port

/-- A response with compact nodes. An empty `nodes` string is not parsed, which
leaves what parsing it would. -/
theorem readResponse_nodes {root : List (Bytes × BType)} (r : List (Bytes × BType)) {nodes : List RoutingEntry}
    (canonical : ∀ node ∈ nodes, inet.Canonical node.pa.ip) (inner : bdict root (text ['r']) = some r)
    (listed : bstring r (text ['n', 'o', 'd', 'e', 's']) = nodesToCompact inet nodes) {selfId : NodeId}
    (named : bstring r (text ['i', 'd']) = selfId.bytes) (txn : Txn) :
    readResponse inet now { txn := txn } root = some {
      type := .response
      txn := txn
      senderId := selfId
      token := bstring r (text ['t', 'o', 'k', 'e', 'n'])
      nodes := (distinctNodes nodes).map (⟨·, now⟩)
      nodeCounts := occurrences nodes
      values := parsePeers (blist r (text ['v', 'a', 'l', 'u', 'e', 's'])) } := by
  obtain ⟨parsed, counted⟩ := @parseNodes_nodesToCompact inet now nodes canonical
  rw [← parsed, ← counted]
  simp only [readResponse, inner, listed, named, NodeId.fromString_bytes, bind, Option.bind]
  split
  · rename_i empty
    rw [List.isEmpty_iff.mp empty]
    rfl
  · rfl

theorem decodes_nodesResponse (txn : Txn) (selfId : NodeId) {nodes : List RoutingEntry}
    (canonical : ∀ node ∈ nodes, inet.Canonical node.pa.ip) :
    Decodes inet now (makeNodesResponse inet txn selfId nodes)
      { type := .response, txn := txn, senderId := selfId, nodes := (distinctNodes nodes).map (⟨·, now⟩),
        nodeCounts := occurrences nodes } := by
  have ascend : List.Pairwise (· < ·) [text ['i', 'd'], text ['n', 'o', 'd', 'e', 's']] := by decide
  refine decodes_of_spells (spells_response (spells_dict (.cons (entrySpelled (spells_string _))
    (.cons (entrySpelled (spells_string _)) .nil)) ascend) txn) ?_
  exact readResponse_nodes [(text ['i', 'd'], .string selfId.bytes),
    (text ['n', 'o', 'd', 'e', 's'], .string (nodesToCompact inet nodes))] canonical rfl rfl rfl txn

theorem decodes_nodesResponseGp (txn : Txn) (selfId : NodeId) (token : Bytes) {nodes : List RoutingEntry}
    (canonical : ∀ node ∈ nodes, inet.Canonical node.pa.ip) :
    Decodes inet now (makeNodesResponseGp inet txn selfId token nodes)
      { type := .response, txn := txn, senderId := selfId, token := token,
        nodes := (distinctNodes nodes).map (⟨·, now⟩), nodeCounts := occurrences nodes } := by
  have ascend : List.Pairwise (· < ·) [text ['i', 'd'], text ['n', 'o', 'd', 'e', 's'],
      text ['t', 'o', 'k', 'e', 'n']] := by decide
  refine decodes_of_spells (spells_response (spells_dict (.cons (entrySpelled (spells_string _))
    (.cons (entrySpelled (spells_string _)) (.cons (entrySpelled (spells_string _)) .nil))) ascend) txn) ?_
  exact readResponse_nodes [(text ['i', 'd'], .string selfId.bytes),
    (text ['n', 'o', 'd', 'e', 's'], .string (nodesToCompact inet nodes)),
    (text ['t', 'o', 'k', 'e', 'n'], .string token)] canonical rfl rfl rfl txn

end Builders

/-- `parse_krpc` undoes every builder. Repeated nodes come back once, with the
number of their occurrences. -/
theorem parse_krpc_undoes_builders (inet : Inet) (now : Nat) (txn : Txn) (selfId target : NodeId)
    (infoHash : InfoHash) (port : UInt16) (token : Bytes) (impliedPort : Bool) (code : Int32) (msg : Bytes)
    (pas : List PeerAddress) (nodes : List RoutingEntry) (canonical : ∀ node ∈ nodes, inet.Canonical node.pa.ip) :
    Decodes inet now (makePing txn selfId)
      { type := .query, txn := txn, queryType := some .ping, senderId := selfId } ∧
    Decodes inet now (makeFindNode txn selfId target)
      { type := .query, txn := txn, queryType := some .findNode, senderId := selfId, target := target } ∧
    Decodes inet now (makeGetPeers txn selfId infoHash)
      { type := .query, txn := txn, queryType := some .getPeers, senderId := selfId, infoHash := some infoHash } ∧
    Decodes inet now (makeAnnouncePeer txn selfId infoHash port token impliedPort)
      { type := .query, txn := txn, queryType := some .announcePeer, senderId := selfId, infoHash := some infoHash,
        peerPort := port, token := token, impliedPort := impliedPort } ∧
    Decodes inet now (makeResponse txn selfId) { type := .response, txn := txn, senderId := selfId } ∧
    Decodes inet now (makeError txn code msg)
      { type := .error, txn := txn, errorCode := code, errorMsg := msg } ∧
    Decodes inet now (makePeersResponse inet txn selfId token pas)
      { type := .response, txn := txn, senderId := selfId, token := token,
        values := pas.map (fun p => peerToCompact inet p.ip p.port) } ∧
    Decodes inet now (makeNodesResponse inet txn selfId nodes)
      { type := .response, txn := txn, senderId := selfId, nodes := (distinctNodes nodes).map (⟨·, now⟩),
        nodeCounts := occurrences nodes } ∧
    Decodes inet now (makeNodesResponseGp inet txn selfId token nodes)
      { type := .response, txn := txn, senderId := selfId, token := token,
        nodes := (distinctNodes nodes).map (⟨·, now⟩), nodeCounts := occurrences nodes } ∧
    (∀ p ∈ pas, (peerToCompact inet p.ip p.port).length = 6) ∧ (occurrences nodes).sum = nodes.length :=
  ⟨decodes_ping txn selfId, decodes_findNode txn selfId target, decodes_getPeers txn selfId infoHash,
    decodes_announcePeer txn selfId infoHash port token impliedPort, decodes_response txn selfId,
    decodes_error txn code msg, decodes_peersResponse txn selfId token pas,
    decodes_nodesResponse txn selfId canonical, decodes_nodesResponseGp txn selfId token canonical,
    fun p _ => peerToCompact_length p.ip p.port, occurrences_sum nodes⟩

/-- The address conversions on decimal quads. -/
def decimalQuads : Inet where
  aton ip :=
    match (ip.splitOn 46).mapM (fun part => (stoul part).toOption) with
    | some [a, b, c, d] =>
      if a < 256 ∧ b < 256 ∧ c < 256 ∧ d < 256 then some ⟨[a.toUInt8, b.toUInt8, c.toUInt8, d.toUInt8], rfl⟩
      else none
    | _ => none
  ntoa addr := [46].intercalate (addr.bytes.map fun byte => toStringUnsigned byte.toNat)

/-- A node at `10.0.0.7` with an id of equal bytes. -/
def sampleNode (byte : UInt8) (port : UInt16) : RoutingEntry :=
  ⟨⟨⟨List.replicate 20 byte, rfl⟩, ⟨text ['1', '0', '.', '0', '.', '0', '.', '7'], port⟩⟩, 0⟩

/-- Three entries on the wire, two of them the same node. -/
theorem parse_krpc_counts_repeats :
    Decodes decimalQuads 5
      (makeNodesResponse decimalQuads (text ['a', 'a']) .zero [sampleNode 1 6881, sampleNode 2 80, sampleNode 1 6881])
      { type := .response, txn := text ['a', 'a'],
        nodes := [⟨(sampleNode 1 6881).toNode, 5⟩, ⟨(sampleNode 2 80).toNode, 5⟩], nodeCounts := [2, 1] } := by
  have canonical : ∀ node ∈ [sampleNode 1 6881, sampleNode 2 80, sampleNode 1 6881],
      decimalQuads.Canonical node.pa.ip := by
    simp only [List.forall_mem_cons, List.not_mem_nil, false_imp_iff, implies_true, and_true]
    exact ⟨rfl, rfl, rfl⟩
  exact (parse_krpc_undoes_builders decimalQuads 5 (text ['a', 'a']) .zero .zero ⟨List.replicate 20 0, rfl⟩ 0 [] false
    0 [] [] _ canonical).2.2.2.2.2.2.2.1

end BittorrentClient.Dht
