import BittorrentClient.Dht.DhtClient
import BittorrentClient.Dht.KrpcRoundTrip
import BittorrentClient.Trackers.UdpTracker

namespace BittorrentClient
open Cpp

/-- `parse_compact_peers`. -/
def parseCompactPeers (inet : Inet) (data : Bytes) : List PeerAddress :=
  (List.range (data.length / 6)).filterMap fun k => compactToPeer inet data (k * 6)

/-- An address with points between its bytes. -/
def InAddr.dotted (addr : InAddr) : Bytes :=
  dottedQuad (addr.bytes.getD 0 0) (addr.bytes.getD 1 0) (addr.bytes.getD 2 0) (addr.bytes.getD 3 0)

/-- `inet_ntoa` prints canonical dotted quads, and `inet_aton` inverts it. -/
structure Inet.Dotted (inet : Inet) : Prop where
  ntoa : ∀ addr, inet.ntoa addr = addr.dotted
  aton : ∀ addr, inet.aton (inet.ntoa addr) = some addr

section Decode
variable {inet : Inet} {six rest : Bytes}

theorem getD_behind (length : six.length = 6) (k : Nat) : (six ++ rest).getD (6 + k) 0 = rest.getD k 0 := by
  rw [List.getD_eq_getElem?_getD, List.getElem?_append_right (by omega), length, Nat.add_sub_cancel_left,
    ← List.getD_eq_getElem?_getD]

/-- The first six bytes do not matter to what stands behind them. -/
theorem compactToPeer_behind (length : six.length = 6) (offset : Nat) :
    compactToPeer inet (six ++ rest) (6 + offset) = compactToPeer inet rest offset := by
  have size : (six ++ rest).length < 6 + (offset + 6) ↔ rest.length < offset + 6 := by
    rw [List.length_append, length]
    omega
  simp only [compactToPeer, Dht.RoutingEntry.addressAt, readBe16, Nat.add_assoc, size, getD_behind length]

/-- The decoder takes six bytes at a time. -/
theorem parseCompactPeers_append (length : six.length = 6) (rest : Bytes) :
    parseCompactPeers inet (six ++ rest) = (compactToPeer inet (six ++ rest) 0).toList ++ parseCompactPeers inet rest := by
  have count : (six ++ rest).length / 6 = rest.length / 6 + 1 := by
    rw [List.length_append, length]
    omega
  have later : ∀ k, compactToPeer inet (six ++ rest) ((k + 1) * 6) = compactToPeer inet rest (k * 6) := by
    intro k
    rw [← compactToPeer_behind length (k * 6)]
    congr 1
    omega
  rw [parseCompactPeers, count, List.range_succ_eq_map, List.filterMap_cons, List.filterMap_map]
  simp only [Function.comp_def, Nat.succ_eq_add_one, later, Nat.zero_mul]
  cases compactToPeer inet (six ++ rest) 0 with
  | none => rfl
  | some peer => rfl

theorem length_peerToCompact (ip : Bytes) (port : UInt16) : (peerToCompact inet ip port).length = 6 := by
  rw [peerToCompact, List.length_append, (inet.address ip).length_eq]
  rfl

/-- One peer is read back. -/
theorem compactToPeer_peerToCompact {peer : PeerAddress} (canonical : inet.Canonical peer.ip) (rest : Bytes) :
    compactToPeer inet (peerToCompact inet peer.ip peer.port ++ rest) 0 = some peer := by
  have size : ¬ (peerToCompact inet peer.ip peer.port ++ rest).length < 0 + 6 := by
    rw [List.length_append, length_peerToCompact]
    omega
  have address : Dht.RoutingEntry.addressAt (peerToCompact inet peer.ip peer.port ++ rest) 0 = inet.address peer.ip := by
    have front := @Dht.addressAt_append [] (writeBe16 peer.port ++ rest) 0 rfl (inet.address peer.ip)
    rwa [List.nil_append, ← List.append_assoc] at front
  have port : readBe16 (peerToCompact inet peer.ip peer.port ++ rest) 4 = peer.port := by
    rw [peerToCompact, List.append_assoc, Dht.readBe16_append (inet.address peer.ip).length_eq]
    exact Dht.readBe16_writeBe16 peer.port
  rw [compactToPeer, if_neg size, address, Nat.zero_add, port, canonical]

theorem Inet.Dotted.canonical (dotted : inet.Dotted) (addr : InAddr) : inet.Canonical addr.dotted := by
  have read := dotted.aton addr
  rw [dotted.ntoa] at read
  rw [Inet.Canonical, Inet.address, read, Option.getD_some, dotted.ntoa]

/-- The encoder is inverted, whatever is left at the end. -/
theorem parseCompactPeers_peers (dotted : inet.Dotted) {peers : List PeerAddress}
    (quads : ∀ peer ∈ peers, ∃ addr : InAddr, peer.ip = addr.dotted) {trailing : Bytes} (few : trailing.length ≤ 5) :
    parseCompactPeers inet (peers.flatMap (fun peer => peerToCompact inet peer.ip peer.port) ++ trailing) = peers := by
  induction peers with
  | nil =>
    have none : trailing.length / 6 = 0 := Nat.div_eq_of_lt (by omega)
    rw [List.flatMap_nil, List.nil_append, parseCompactPeers, none]
    rfl
  | cons peer later ih =>
    obtain ⟨addr, same⟩ := quads peer List.mem_cons_self
    have canonical : inet.Canonical peer.ip := same ▸ dotted.canonical addr
    rw [List.flatMap_cons, List.append_assoc, parseCompactPeers_append (length_peerToCompact ..),
      compactToPeer_peerToCompact canonical, ih fun other member => quads other (List.mem_cons_of_mem peer member)]
    rfl

end Decode

namespace UdpTracker
variable {inet : Inet} {ntop : Bytes → Bytes} {header b : Bytes}

/-- One entry of the response, as the other decoder reads it. -/
theorem peerAt_eq (dotted : inet.Dotted) (length : header.length = 20) {offset : Nat} (inside : offset + 6 ≤ b.length) :
    peerAt ntop false (header ++ b) (20 + offset) = compactToPeer inet b offset := by
  have whole : (header ++ b).length = 20 + b.length := by rw [List.length_append, length]
  have byte : ∀ k, k < 6 → (header ++ b).getD (20 + offset + k) 0 = b.getD (offset + k) 0 := by
    intro k small
    rw [List.getD_eq_getElem?_getD, List.getElem?_append_right (by omega), length, List.getD_eq_getElem?_getD]
    congr 2
    omega
  have read : ∀ k, k < 6 → (header ++ b)[20 + offset + k]? = some (b.getD (offset + k) 0) := by
    intro k small
    rw [getElem?_eq_some_getD (by omega), byte k small]
  have first : (header ++ b)[20 + offset]? = some (b.getD offset 0) := read 0 (by decide)
  have port : be16At (header ++ b) (20 + offset + 4) = some (readBe16 b (offset + 4)) := by
    rw [be16At, if_pos (by omega), readBe16, readBe16]
    simp only [Nat.add_assoc, ← byte 4 (by decide), ← byte 5 (by decide)]
  have address : inet.ntoa (Dht.RoutingEntry.addressAt b offset) =
      dottedQuad (b.getD offset 0) (b.getD (offset + 1) 0) (b.getD (offset + 2) 0) (b.getD (offset + 3) 0) := dotted.ntoa _
  rw [peerAt, if_neg Bool.false_ne_true, first, read 1 (by decide), read 2 (by decide), read 3 (by decide), port,
    compactToPeer, if_neg (Nat.not_lt.mpr inside), address]
  rfl

/-- Both decoders find the same peers. -/
theorem readPeers_eq (dotted : inet.Dotted) (length : header.length = 20) :
    readPeers ntop false (header ++ b) = some (parseCompactPeers inet b) := by
  have size : (header ++ b).length - 20 = b.length := by
    rw [List.length_append, length]
    omega
  rw [readPeers, size]
  refine mapM_eq_filterMap fun k member => ?_
  have below : k < b.length / 6 := List.mem_range.mp member
  have inside : k * 6 + 6 ≤ b.length := by omega
  refine ⟨peerAt_eq dotted length inside, ?_⟩
  rw [compactToPeer, if_neg (Nat.not_lt.mpr inside)]
  rfl

theorem deserialize_eq (dotted : inet.Dotted) (length : header.length = 20) :
    ∃ response, AnnounceResp.deserialize ntop false (header ++ b) = some (.ok response) ∧
      response.peers = parseCompactPeers inet b := by
  have long : 20 ≤ (header ++ b).length := by
    rw [List.length_append, length]
    exact Nat.le_add_right 20 _
  exact ⟨_, AnnounceResp.deserialize_long long (readPeers_eq dotted length), rfl⟩

end UdpTracker

/-- The compact format is decoded in the same way everywhere, and as it was encoded. -/
theorem compact_peers_agree {inet : Inet} (dotted : inet.Dotted) (ntop : Bytes → Bytes) :
    (∀ (peers : List PeerAddress) (trailing : Bytes), (∀ peer ∈ peers, ∃ addr : InAddr, peer.ip = addr.dotted) →
      trailing.length ≤ 5 →
      parseCompactPeers inet (peers.flatMap (fun peer => peerToCompact inet peer.ip peer.port) ++ trailing) = peers) ∧
    ∀ header b : Bytes, header.length = 20 →
      ∃ response, UdpTracker.AnnounceResp.deserialize ntop false (header ++ b) = some (.ok response) ∧
        response.peers = parseCompactPeers inet b :=
  ⟨fun _ _ quads few => parseCompactPeers_peers dotted quads few, fun _ _ length => UdpTracker.deserialize_eq dotted length⟩

/-- The conversions, on dotted quads. -/
def quadInet : Inet where
  aton := fun ip =>
    match ip.splitOn 46 with
    | [a, b, c, d] => some ⟨[a, b, c, d].map fun digits => UInt8.ofNat (digitsValue digits), rfl⟩
    | _ => none
  ntoa := InAddr.dotted

theorem splitOn_dottedQuad (a b c d : UInt8) :
    (dottedQuad a b c d).splitOn 46 = [a, b, c, d].map fun byte => toStringUnsigned byte.toNat := by
  have plain : ∀ byte : UInt8, 46 ∉ toStringUnsigned byte.toNat := fun byte member =>
    absurd (toStringUnsigned_isdigit byte.toNat 46 member) (by decide)
  rw [dottedQuad, List.splitOn_append_cons_self_of_not_mem (plain a), List.splitOn_append_cons_self_of_not_mem (plain b),
    List.splitOn_append_cons_self_of_not_mem (plain c), List.splitOn_eq_singleton (plain d)]
  rfl

theorem quadInet_dotted : quadInet.Dotted where
  ntoa := fun _ => rfl
  aton := by
    rintro ⟨bytes, four⟩
    match bytes, four with
    | [a, b, c, d], _ =>
      have back : ∀ byte : UInt8, UInt8.ofNat (digitsValue (toStringUnsigned byte.toNat)) = byte := by
        intro byte
        rw [digitsValue_toStringUnsigned, UInt8.ofNat_toNat]
      have split : ((⟨[a, b, c, d], rfl⟩ : InAddr).dotted).splitOn 46 =
          [a, b, c, d].map fun byte => toStringUnsigned byte.toNat := splitOn_dottedQuad a b c d
      simp only [quadInet, split, List.map_cons, List.map_nil, back]

/-- Two peers in the compact format, and a byte too many. -/
def twoPeers : List PeerAddress := [⟨dottedQuad 10 0 0 1, 6881⟩, ⟨dottedQuad 10 0 0 2, 51413⟩]

theorem compact_peers_agree_two :
    let compact := twoPeers.flatMap (fun peer => peerToCompact quadInet peer.ip peer.port) ++ [7]
    parseCompactPeers quadInet compact = twoPeers ∧
      ∃ response, UdpTracker.AnnounceResp.deserialize id false (List.replicate 20 0 ++ compact) = some (.ok response) ∧
        response.peers = twoPeers := by
  intro compact
  have agree := compact_peers_agree quadInet_dotted id
  have quads : ∀ peer ∈ twoPeers, ∃ addr : InAddr, peer.ip = addr.dotted :=
    List.forall_mem_cons.mpr ⟨⟨⟨[10, 0, 0, 1], rfl⟩, rfl⟩, List.forall_mem_singleton.mpr ⟨⟨[10, 0, 0, 2], rfl⟩, rfl⟩⟩
  have parsed : parseCompactPeers quadInet compact = twoPeers := agree.1 twoPeers [7] quads (by decide)
  obtain ⟨response, read, same⟩ := agree.2 (List.replicate 20 0) compact rfl
  exact ⟨parsed, response, read, same.trans parsed⟩

end BittorrentClient
