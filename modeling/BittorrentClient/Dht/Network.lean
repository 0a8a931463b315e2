import BittorrentClient.Dht.DrawnQueries
import BittorrentClient.Dht.RunningClient
import BittorrentClient.Dht.StoredPeers
import BittorrentClient.Trackers.CompactPeers

namespace BittorrentClient.Dht
open Cpp Machine

/-- Where a datagram comes from. -/
structure Endpoint where
  addr : InAddr
  port : UInt16

/-- Clients, each at an address of its own, and the libraries that they are built
on. What the C library prints of an address it reads back. -/
structure Network (ι : Type) where
  lib : Libraries
  endpoint : ι → Endpoint
  distinct : Function.Injective endpoint
  dotted : lib.inet.Dotted
  pton4 : ∀ addr, lib.pton4 (lib.inet.ntoa addr) = some addr

/-- What starts a thread of a client: a datagram of another client or of a
stranger, a call from the torrent layer, or the time. -/
inductive Task (ι : Type)
  | deliver (sender receiver : ι) (index : Nat) (data : Bencode.Metadata)
  | stranger (source : Endpoint) (receiver : ι) (data : Bencode.Metadata)
  | registerTorrent (i : ι) (infoHash : InfoHash) (port : UInt16)
  | unregisterTorrent (i : ι) (infoHash : InfoHash)
  | getPeers (i : ι) (infoHash : InfoHash)
  | announce (i : ι) (infoHash : InfoHash) (port : UInt16)
  | ping (i : ι) (pa : PeerAddress)
  | lookupTick (i : ι)
  | maintain (i : ι)
  | bootstrap (i : ι)

namespace Network

variable {ι : Type} (net : Network ι)

/-- The address that `recvfrom` gives for a source. -/
def address (e : Endpoint) : PeerAddress := ⟨net.lib.inet.ntoa e.addr, e.port⟩

/-- A datagram sent to that address comes to the client. -/
def Reaches (pa : PeerAddress) (i : ι) : Prop :=
  (net.lib.pton4 pa.ip).map InAddr.bytes = some (net.endpoint i).addr.bytes ∧ pa.port = (net.endpoint i).port

instance (pa : PeerAddress) (i : ι) : Decidable (net.Reaches pa i) := inferInstanceAs (Decidable (_ ∧ _))

/-- The thread that a task starts. A datagram that was sent may arrive at any time
after that, several times or never. -/
def program [DecidableEq ι] : Task ι → (ι → Running) → Option (Script (ι → Running) Moment Unit)
  | .deliver sender receiver index data, s =>
    match (s sender).outbox[index]? with
    | some (msg, pa) =>
      if data.bytes = msg ∧ net.Reaches pa receiver then
        some ((Running.receive net.lib false data (net.address (net.endpoint sender))).on receiver)
      else none
    | none => none
  | .stranger source receiver data, _ => some ((Running.receive net.lib true data (net.address source)).on receiver)
  | .registerTorrent i infoHash port, _ => some ((Running.registerTorrent net.lib infoHash port).on i)
  | .unregisterTorrent i infoHash, _ => some ((Running.unregisterTorrent infoHash).on i)
  | .getPeers i infoHash, _ => some ((Running.getPeers net.lib infoHash).on i)
  | .announce i infoHash port, _ => some ((Running.announce net.lib infoHash port).on i)
  | .ping i pa, _ => some ((Running.ping net.lib pa).on i)
  | .lookupTick i, _ => some ((Running.lookupTick net.lib).on i)
  | .maintain i, _ => some ((Running.maintain net.lib).on i)
  | .bootstrap i, _ => some ((Running.bootstrap net.lib).on i)

/-- A stranger has an address of its own too. -/
def Unspoofed (_ : Pool (ι → Running) Moment) : Turn (Task ι) Moment → Prop
  | .start (.stranger source _ _) => ∀ i, net.endpoint i ≠ source
  | _ => True

/-- The clients at first: whatever their routing tables, they have looked nothing
up, stored, registered, sent and reported nothing. -/
def Starts (s : ι → Running) : Prop :=
  ∀ i, (s i).client.lookupManager = .init ∧ (s i).client.peerStore = .make ∧ (s i).client.announceCoordinator = .make ∧
    (s i).outbox = [] ∧ (s i).reports = []

/-- A message names a peer: by announcing it, or among the values of a response. -/
def Names (msg : Krpc.Message) (pa peer : PeerAddress) : Prop :=
  msg.queryType = some .announcePeer ∧ peer = (if !msg.impliedPort then { pa with port := msg.peerPort } else pa) ∨
    msg.type = .response ∧ ∃ compact ∈ msg.values, compactToPeer net.lib.inet compact 0 = some peer

/-- Where the peers of a hash come from: a client that offers the hash, a stranger
who named the peer, or another hash that some client looked up under an id that it
also used for this one. -/
inductive Origin (s : ι → Running) : Endpoint → InfoHash → Prop
  | offered (i : ι) {infoHash port} : (infoHash, port) ∈ (s i).offers → Origin s (net.endpoint i) infoHash
  | named (i : ι) {e infoHash} (heard : Krpc.Message × PeerAddress) : heard ∈ (s i).strangers →
      net.Names heard.1 heard.2 (net.address e) → Origin s e infoHash
  | mixed (i : ι) {e infoHash other} (txn : Txn) : Origin s e other → (s i).client.lookupManager.Drew txn other →
      (s i).client.lookupManager.Drew txn infoHash → Origin s e infoHash

/-- The peer has an origin. -/
def Known (s : ι → Running) (infoHash : InfoHash) (peer : PeerAddress) : Prop :=
  ∃ e, peer = net.address e ∧ net.Origin s e infoHash

end Network

namespace Running

/-- What is on record stays on record. -/
structure Grows (n n' : Running) : Prop where
  offers : n.offers ⊆ n'.offers
  heard : n.heard ⊆ n'.heard
  strangers : n.strangers ⊆ n'.strangers
  history : n.client.lookupManager.history ⊆ n'.client.lookupManager.history

theorem Grows.refl (n : Running) : n.Grows n := ⟨fun _ => id, fun _ => id, fun _ => id, fun _ => id⟩

theorem Grows.trans {n middle n' : Running} (first : n.Grows middle) (later : middle.Grows n') : n.Grows n' :=
  ⟨List.Subset.trans first.offers later.offers, List.Subset.trans first.heard later.heard,
    List.Subset.trans first.strangers later.strangers, List.Subset.trans first.history later.history⟩

/-- The token came from the address, in a response under an id that was drawn. -/
def Tokened (n : Running) (pa : PeerAddress) (token : Bytes) : Prop :=
  token ≠ [] ∧ ∃ msg infoHash, (msg, pa) ∈ n.heard ∧ msg.type = .response ∧ msg.token = token ∧
    n.client.lookupManager.Drew msg.txn infoHash

theorem Tokened.later {n n' : Running} (grows : n.Grows n') {pa : PeerAddress} {token : Bytes}
    (tokened : n.Tokened pa token) : n'.Tokened pa token := by
  obtain ⟨some, msg, infoHash, heard, response, carried, drew⟩ := tokened
  exact ⟨some, msg, infoHash, grows.heard heard, response, carried, drew.later grows.history⟩

end Running

namespace Network

variable {ι : Type} (net : Network ι)

/-- What the clients of the network keep to. -/
def Later (s s' : ι → Running) : Prop := ∀ i, (s i).Grows (s' i)

/-- Nothing but what a client of the network says: it announces what it was asked to
announce, with a token of the receiver, asks under an id that it drew, and lists
peers with an origin, for the hash that it was asked for. -/
structure Meant (s : ι → Running) (n : Running) (msg : Krpc.Message) (pa : PeerAddress) : Prop where
  announces : ∀ infoHash, msg.type = .query → msg.queryType = some .announcePeer → msg.infoHash = some infoHash →
    msg.impliedPort = true ∧ (infoHash, msg.peerPort) ∈ n.offers ∧ n.Tokened pa msg.token
  asks : ∀ infoHash, msg.type = .query → msg.queryType = some .getPeers → msg.infoHash = some infoHash →
    n.client.lookupManager.Drew msg.txn infoHash
  lists : msg.type = .response → ∀ compact ∈ msg.values, ∀ peer, compactToPeer net.lib.inet compact 0 = some peer →
    ∀ i, net.Reaches pa i → ∃ infoHash, net.Known s infoHash peer ∧ (s i).client.lookupManager.Drew msg.txn infoHash

/-- However and whenever the datagram is parsed. -/
def Genuine (s : ι → Running) (n : Running) (bytes : Bytes) (pa : PeerAddress) : Prop :=
  ∀ now (data : Bencode.Metadata) msg, data.bytes = bytes → parseKrpc net.lib.inet now data = some msg → net.Meant s n msg pa

/-- A client of the network, in between its steps. -/
structure Sound (s : ι → Running) (n : Running) : Prop where
  store : n.client.peerStore.Invariant
  stored : ∀ infoHash pa, n.client.peerStore.Holds infoHash pa → net.Known s infoHash pa
  free : n.client.lookupManager.pit = none
  bound : n.client.lookupManager.BoundByDrawing
  registered : ∀ infoHash torrent, n.client.announceCoordinator.registered.lookup infoHash = some torrent →
    (infoHash, torrent.listenPort) ∈ n.offers
  tokens : ∀ pa token, n.client.announceCoordinator.receivedTokens.lookup pa = some token → n.Tokened pa token
  sent : ∀ datagram ∈ n.outbox, net.Genuine s n datagram.1 datagram.2
  reported : ∀ report ∈ n.reports, ∃ infoHash : InfoHash, report.1 = infoHash.hex ∧ net.Known s infoHash report.2

variable {net} {s s' : ι → Running} {n n' : Running} {i : ι} {infoHash : InfoHash} {peer pa : PeerAddress} {e : Endpoint}

theorem Origin.later (later : Later s s') (origin : net.Origin s e infoHash) : net.Origin s' e infoHash := by
  induction origin with
  | offered i offers => exact .offered i ((later i).offers offers)
  | named i heard member names => exact .named i heard ((later i).strangers member) names
  | mixed i txn _ first second ih => exact .mixed i txn ih (first.later (later i).history) (second.later (later i).history)

theorem Known.later (later : Later s s') (known : net.Known s infoHash peer) : net.Known s' infoHash peer :=
  known.imp fun _ there => ⟨there.1, there.2.later later⟩

theorem Meant.later (later : Later s s') (grows : n.Grows n') {msg : Krpc.Message} (meant : net.Meant s n msg pa) :
    net.Meant s' n' msg pa where
  announces := by
    intro infoHash query announce named
    obtain ⟨implied, offers, tokened⟩ := meant.announces infoHash query announce named
    exact ⟨implied, grows.offers offers, tokened.later grows⟩
  asks := fun infoHash query ask named => (meant.asks infoHash query ask named).later grows.history
  lists := by
    intro response compact member peer read i reaches
    obtain ⟨infoHash, known, drew⟩ := meant.lists response compact member peer read i reaches
    exact ⟨infoHash, known.later later, drew.later (later i).history⟩

theorem Genuine.later (later : Later s s') (grows : n.Grows n') {bytes : Bytes} (genuine : net.Genuine s n bytes pa) :
    net.Genuine s' n' bytes pa :=
  fun now data msg same parsed => (genuine now data msg same parsed).later later grows

/-- The client waits while others go on. -/
theorem Sound.later (later : Later s s') (sound : net.Sound s n) : net.Sound s' n where
  store := sound.store
  stored := fun infoHash pa holds => (sound.stored infoHash pa holds).later later
  free := sound.free
  bound := sound.bound
  registered := sound.registered
  tokens := sound.tokens
  sent := fun datagram member => (sound.sent datagram member).later later (.refl n)
  reported := by
    intro report member
    obtain ⟨infoHash, hex, known⟩ := sound.reported report member
    exact ⟨infoHash, hex, known.later later⟩

section Steps
variable [DecidableEq ι]

theorem later_update (grows : (s i).Grows n') : Later s (Function.update s i n') := by
  intro j
  by_cases same : j = i
  · rw [same, Function.update_self]
    exact grows
  · rw [Function.update_of_ne same]
    exact .refl _

variable (net) in
/-- The clients keep to what they say, and nothing is taken off the record. -/
def discipline : Discipline (ι → Running) where
  holds s := ∀ i, net.Sound s (s i)
  grows := Later
  refl s i := .refl (s i)
  trans first later i := (first i).trans (later i)

variable (net) in
/-- The script is safe to run from here on, for the client. -/
def Safe {α : Type} (i : ι) (script : Does α) (post : α → (ι → Running) → Prop) (s : ι → Running) : Prop :=
  (script.on i).Keeps net.discipline post s

variable {α β : Type} {script : Does α} {rest : α → Does β} {post : α → (ι → Running) → Prop}
  {last : β → (ι → Running) → Prop}

theorem safe_pure {result : α} (there : post result s) : net.Safe i (pure result) post s := there

theorem Safe.seq (first : net.Safe i script post s)
    (second : ∀ result s', Later s s' → post result s' → net.Safe i (rest result) last s') :
    net.Safe i (script >>= rest) last s := by
  rw [Safe, Script.on_bind]
  exact Script.Keeps.seq first second

theorem safe_forM {Item : Type} {items : List Item} {body : Item → Does Unit}
    (safe : ∀ item ∈ items, ∀ s', Later s s' → net.Safe i (body item) (fun _ _ => True) s') :
    net.Safe i (items.forM body) (fun _ _ => True) s := by
  rw [Safe, Script.on_forM]
  exact Script.keeps_forM safe

/-- A step of the client, seen from the state that it leaves. -/
theorem safe_step {f : Moment → Running → α × Running}
    (grows : ∀ s n now, net.Sound s n → n.Grows (f now n).2)
    (sound : ∀ s' n now, Later s s' → net.Sound s' n → n.Grows (f now n).2 → s' i = (f now n).2 →
      net.Sound s' (f now n).2 ∧ post (f now n).1 s') :
    net.Safe i (.atomically f) post s := by
  intro s' later holds now
  have grown := grows s' (s' i) now (holds i)
  have after : Later s' (Function.update s' i (f now (s' i)).2) := later_update grown
  obtain ⟨kept, ending⟩ := sound _ (s' i) now (net.discipline.trans later after) ((holds i).later after) grown
    (Function.update_self ..)
  have each : ∀ j, net.Sound (Function.update s' i (f now (s' i)).2) (Function.update s' i (f now (s' i)).2 j) := by
    intro j
    by_cases same : j = i
    · rw [same, Function.update_self]
      exact kept
    · rw [Function.update_of_ne same]
      exact (holds j).later after
  exact ⟨each, after, ending⟩

end Steps

end Network

end BittorrentClient.Dht
