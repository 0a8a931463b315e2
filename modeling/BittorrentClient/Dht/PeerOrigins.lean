import BittorrentClient.Dht.Network

namespace BittorrentClient.Dht.Network
open Cpp Machine Krpc Bencode

variable {ι : Type} {net : Network ι} {s s' : ι → Running} {n : Running} {i : ι} {infoHash : InfoHash} {pa peer : PeerAddress}

section Messages
variable {bytes token : Bytes} {txn : Txn} {msg : Message}

theorem genuine_of_decodes (decodes : ∀ now, ∃ msg, Decodes net.lib.inet now bytes msg ∧ net.Meant s n msg pa) :
    net.Genuine s n bytes pa := by
  intro now data msg same parsed
  obtain ⟨meant, read, whole⟩ := decodes now
  rw [read data same] at parsed
  cases parsed
  exact whole

/-- A query of the two kinds without a hash says nothing about peers. -/
theorem meant_plain (query : msg.type = .query) (kind : msg.queryType = some .ping ∨ msg.queryType = some .findNode) :
    net.Meant s n msg pa where
  announces := by
    intro infoHash _ announce
    rw [announce] at kind
    rcases kind with kind | kind
    · cases kind
    · cases kind
  asks := by
    intro infoHash _ ask
    rw [ask] at kind
    rcases kind with kind | kind
    · cases kind
    · cases kind
  lists := by
    intro response
    cases query.symm.trans response

/-- So does a reply without peers. -/
theorem meant_reply (reply : msg.type ≠ .query) (none : msg.values = []) : net.Meant s n msg pa where
  announces := fun _ query => absurd query reply
  asks := fun _ query => absurd query reply
  lists := by
    intro _ compact member
    rw [none] at member
    cases member

theorem genuine_ping (selfId : NodeId) : net.Genuine s n (makePing txn selfId) pa :=
  genuine_of_decodes fun _ => ⟨_, decodes_ping txn selfId, meant_plain rfl (Or.inl rfl)⟩

theorem genuine_findNode (selfId target : NodeId) : net.Genuine s n (makeFindNode txn selfId target) pa :=
  genuine_of_decodes fun _ => ⟨_, decodes_findNode txn selfId target, meant_plain rfl (Or.inr rfl)⟩

theorem genuine_response (selfId : NodeId) : net.Genuine s n (makeResponse txn selfId) pa :=
  genuine_of_decodes fun _ => ⟨_, decodes_response txn selfId, meant_reply nofun rfl⟩

theorem genuine_error (code : Int32) (text : Bytes) : net.Genuine s n (makeError txn code text) pa :=
  genuine_of_decodes fun _ => ⟨_, decodes_error txn code text, meant_reply nofun rfl⟩

/-- A response without `values`. -/
theorem genuine_responseDict {r : Bytes} {content : List (Bytes × BType)} (spelled : Spells r (.dict content))
    (none : parsePeers (blist content (text ['v', 'a', 'l', 'u', 'e', 's'])) = []) :
    net.Genuine s n (responseDict txn r) pa :=
  genuine_of_decodes fun _ => ⟨_, decodes_of_spells (spells_response spelled txn) rfl, meant_reply nofun none⟩

theorem genuine_nodesResponse (selfId : NodeId) (nodes : List RoutingEntry) :
    net.Genuine s n (makeNodesResponse net.lib.inet txn selfId nodes) pa := by
  have ascend : List.Pairwise (· < ·) [text ['i', 'd'], text ['n', 'o', 'd', 'e', 's']] := by decide
  exact genuine_responseDict (spells_dict (.cons (entrySpelled (spells_string _))
    (.cons (entrySpelled (spells_string _)) .nil)) ascend) rfl

theorem genuine_nodesResponseGp (selfId : NodeId) (token : Bytes) (nodes : List RoutingEntry) :
    net.Genuine s n (makeNodesResponseGp net.lib.inet txn selfId token nodes) pa := by
  have ascend : List.Pairwise (· < ·) [text ['i', 'd'], text ['n', 'o', 'd', 'e', 's'],
      text ['t', 'o', 'k', 'e', 'n']] := by decide
  exact genuine_responseDict (spells_dict (.cons (entrySpelled (spells_string _))
    (.cons (entrySpelled (spells_string _)) (.cons (entrySpelled (spells_string _)) .nil))) ascend) rfl

theorem genuine_getPeers (selfId : NodeId) (drew : n.client.lookupManager.Drew txn infoHash) :
    net.Genuine s n (makeGetPeers txn selfId infoHash) pa := by
  refine genuine_of_decodes fun _ => ⟨_, decodes_getPeers txn selfId infoHash, ⟨?_, ?_, ?_⟩⟩
  · intro other _ announce
    cases announce
  · intro other _ _ same
    cases same
    exact drew
  · intro response
    cases response

theorem genuine_announcePeer (selfId : NodeId) {port : UInt16} (offered : (infoHash, port) ∈ n.offers)
    (tokened : n.Tokened pa token) : net.Genuine s n (makeAnnouncePeer txn selfId infoHash port token true) pa := by
  refine genuine_of_decodes fun _ => ⟨_, decodes_announcePeer txn selfId infoHash port token true, ⟨?_, ?_, ?_⟩⟩
  · intro other _ _ same
    cases same
    exact ⟨rfl, offered, tokened⟩
  · intro other _ ask
    cases ask
  · intro response
    cases response

theorem address_canonical (net : Network ι) (e : Endpoint) : net.lib.inet.Canonical (net.address e).ip := by
  unfold Inet.Canonical Inet.address
  change net.lib.inet.ntoa ((net.lib.inet.aton (net.lib.inet.ntoa e.addr)).getD _) = net.lib.inet.ntoa e.addr
  rw [net.dotted.aton, Option.getD_some]

theorem genuine_peersResponse (selfId : NodeId) {pas : List PeerAddress} (known : ∀ peer ∈ pas, net.Known s infoHash peer)
    (asked : ∀ j, net.Reaches pa j → (s j).client.lookupManager.Drew txn infoHash) :
    net.Genuine s n (makePeersResponse net.lib.inet txn selfId token pas) pa := by
  refine genuine_of_decodes fun _ => ⟨_, decodes_peersResponse txn selfId token pas, ⟨nofun, nofun, ?_⟩⟩
  intro _ compact member peer read j reaches
  obtain ⟨listed, inPas, rfl⟩ := List.mem_map.mp member
  obtain ⟨e, same, origin⟩ := known listed inPas
  have back := compactToPeer_peerToCompact (same ▸ address_canonical net e : net.lib.inet.Canonical listed.ip) []
  rw [List.append_nil, read] at back
  cases back
  exact ⟨infoHash, ⟨e, same, origin⟩, asked j reaches⟩

end Messages

theorem Sound.change {n' : Running} (old : net.Sound s n) (grows : n.Grows n') (outbox : n'.outbox = n.outbox)
    (reports : n'.reports = n.reports) (store : n'.client.peerStore.Invariant)
    (stored : ∀ infoHash pa, n'.client.peerStore.Holds infoHash pa → net.Known s infoHash pa)
    (free : n'.client.lookupManager.pit = none) (bound : n'.client.lookupManager.BoundByDrawing)
    (registered : ∀ infoHash torrent, n'.client.announceCoordinator.registered.lookup infoHash = some torrent →
      (infoHash, torrent.listenPort) ∈ n'.offers)
    (tokens : ∀ pa token, n'.client.announceCoordinator.receivedTokens.lookup pa = some token → n'.Tokened pa token) :
    net.Sound s n' where
  store := store
  stored := stored
  free := free
  bound := bound
  registered := registered
  tokens := tokens
  sent := by
    rw [outbox]
    exact fun datagram member => (old.sent datagram member).later (fun i => .refl (s i)) grows
  reported := by
    rw [reports]
    exact old.reported

/-- A step that leaves alone all that matters here. -/
structure Idle (n n' : Running) : Prop where
  store : n'.client.peerStore = n.client.peerStore
  lookups : n'.client.lookupManager = n.client.lookupManager
  coordinator : n'.client.announceCoordinator = n.client.announceCoordinator
  outbox : n'.outbox = n.outbox
  reports : n'.reports = n.reports
  offers : n'.offers = n.offers
  heard : n'.heard = n.heard
  strangers : n'.strangers = n.strangers

theorem Idle.grows {n' : Running} (idle : Idle n n') : n.Grows n' :=
  ⟨idle.offers ▸ List.Subset.refl _, idle.heard ▸ List.Subset.refl _, idle.strangers ▸ List.Subset.refl _,
    idle.lookups ▸ List.Subset.refl _⟩

section Rules
variable [DecidableEq ι] {α : Type} {post : α → (ι → Running) → Prop}

theorem safe_idle {f : Moment → Running → α × Running} (idle : ∀ now n, Idle n (f now n).2) :
    net.Safe i (.atomically f) (fun _ _ => True) s := by
  refine safe_step (fun _ n now _ => (idle now n).grows) fun s' n now _ sound grows _ => ⟨?_, trivial⟩
  have same := idle now n
  refine sound.change grows same.outbox same.reports ?_ ?_ ?_ ?_ ?_ ?_
  · rw [same.store]
    exact sound.store
  · rw [same.store]
    exact sound.stored
  · rw [same.lookups]
    exact sound.free
  · rw [same.lookups]
    exact sound.bound
  · rw [same.coordinator, same.offers]
    exact sound.registered
  · rw [same.coordinator]
    exact fun pa token found => (sound.tokens pa token found).later grows

theorem safe_read (f : DhtClient → α) : net.Safe i (Running.read f) (fun _ _ => True) s :=
  safe_idle fun _ _ => ⟨rfl, rfl, rfl, rfl, rfl, rfl, rfl, rfl⟩

/-- A call of the peer store. -/
theorem safe_store {f : Moment → PeerStore → α × PeerStore}
    (kept : ∀ now store, store.Invariant → (f now store).2.Invariant ∧ ∀ infoHash peer, (f now store).2.Holds infoHash peer →
      store.Holds infoHash peer ∨ ∀ s', Later s s' → net.Known s' infoHash peer)
    (ending : ∀ s' now store, store.Invariant → (∀ infoHash peer, store.Holds infoHash peer → net.Known s' infoHash peer) →
      post (f now store).1 s') :
    net.Safe i (Running.locked fun now c => ((f now c.peerStore).1, { c with peerStore := (f now c.peerStore).2 })) post s := by
  refine safe_step (fun _ n _ _ => ⟨fun _ => id, fun _ => id, fun _ => id, fun _ => id⟩) ?_
  intro s' n now later sound grows _
  obtain ⟨invariant, among⟩ := kept now _ sound.store
  refine ⟨sound.change grows rfl rfl invariant (fun infoHash peer holds => ?_) sound.free sound.bound sound.registered
    fun pa token found => (sound.tokens pa token found).later grows, ending s' now _ sound.store sound.stored⟩
  rcases among infoHash peer holds with old | new
  · exact sound.stored infoHash peer old
  · exact new s' later

/-- A call of the lookup manager. -/
theorem safe_lookups {f : Moment → Env → GetPeersLookupManager → α × GetPeersLookupManager}
    (runs : ∀ now env m, (f now env m).2 = m ∨ ∃ call, m.step env call = some (f now env m).2)
    (ending : ∀ s' now env m, m.BoundByDrawing → m.history ⊆ (f now env m).2.history →
      (s' i).client.lookupManager = (f now env m).2 → post (f now env m).1 s') :
    net.Safe i (Running.lookups net.lib f) post s := by
  have kept : ∀ now env m, m.pit = none → m.BoundByDrawing →
      (f now env m).2.pit = none ∧ (f now env m).2.BoundByDrawing ∧ m.history ⊆ (f now env m).2.history := by
    intro now env m free bound
    rcases runs now env m with same | ⟨call, run⟩
    · rw [same]
      exact ⟨free, bound, List.Subset.refl _⟩
    · exact ⟨GetPeersLookupManager.step_pit free run, GetPeersLookupManager.step_boundByDrawing free bound run⟩
  refine safe_step (fun _ n now sound => ⟨fun _ => id, fun _ => id, fun _ => id, ?_⟩) ?_
  · exact (kept now _ _ sound.free sound.bound).2.2
  · intro s' n now _ sound grows same
    obtain ⟨free, bound, history⟩ := kept now (Running.lookupEnv net.lib now n.client) _ sound.free sound.bound
    refine ⟨sound.change grows rfl rfl sound.store sound.stored free bound sound.registered
      fun pa token found => (sound.tokens pa token found).later grows, ?_⟩
    refine ending s' now _ _ sound.bound history ?_
    rw [same]

/-- A call of the announce coordinator. -/
theorem safe_coordinator {f : Moment → AnnounceCoordinator → α × AnnounceCoordinator}
    (kept : ∀ now c infoHash torrent, (f now c).2.registered.lookup infoHash = some torrent →
      ∃ old, c.registered.lookup infoHash = some old ∧ old.listenPort = torrent.listenPort)
    (tokens : ∀ now c pa token, (f now c).2.receivedTokens.lookup pa = some token →
      c.receivedTokens.lookup pa = some token ∨ ∀ s', Later s s' → (s' i).Tokened pa token)
    (ending : ∀ s' now c, Later s s' → (∀ infoHash torrent, c.registered.lookup infoHash = some torrent →
      (infoHash, torrent.listenPort) ∈ (s' i).offers) → post (f now c).1 s') :
    net.Safe i (Running.locked fun now c =>
      ((f now c.announceCoordinator).1, { c with announceCoordinator := (f now c.announceCoordinator).2 })) post s := by
  refine safe_step (fun _ n _ _ => ⟨fun _ => id, fun _ => id, fun _ => id, fun _ => id⟩) ?_
  intro s' n now later sound grows same
  refine ⟨sound.change grows rfl rfl sound.store sound.stored sound.free sound.bound (fun infoHash torrent found => ?_)
    (fun pa token found => ?_), ending s' now _ later ?_⟩
  · obtain ⟨old, before, port⟩ := kept now _ infoHash torrent found
    rw [← port]
    exact sound.registered infoHash old before
  · rcases tokens now _ pa token found with before | new
    · exact (sound.tokens pa token before).later grows
    · have tokened := new s' later
      rw [same] at tokened
      exact tokened
  · rw [same]
    exact sound.registered

theorem safe_sendKrpc {make : NodeId → Bytes}
    (genuine : ∀ s', Later s s' → ∀ selfId, net.Genuine s' (s' i) (make selfId) pa) :
    net.Safe i (Running.sendKrpc net.lib make pa) (fun _ _ => True) s := by
  refine safe_step (fun _ n _ _ => ⟨fun _ => id, fun _ => id, fun _ => id, fun _ => id⟩) ?_
  intro s' n now later sound grows same
  have new := genuine s' later n.client.selfId
  rw [same] at new
  refine ⟨{ sound with sent := fun datagram member => ?_ }, trivial⟩
  rcases List.mem_append.mp member with old | sending
  · exact (sound.sent datagram old).later (fun j => .refl (s' j)) grows
  · rcases DhtClient.datagrams_sendKrpc net.lib n.client now.takes (make n.client.selfId) pa with ⟨_, one⟩ | ⟨_, none⟩
    · rw [one] at sending
      cases List.mem_singleton.mp sending
      exact new
    · rw [none] at sending
      cases sending

theorem safe_invokePeerCallback (known : ∀ s', Later s s' → net.Known s' infoHash peer) :
    net.Safe i (Running.invokePeerCallback infoHash.hex peer) (fun _ _ => True) s := by
  refine safe_step (fun _ n _ _ => ⟨fun _ => id, fun _ => id, fun _ => id, fun _ => id⟩) ?_
  intro s' n now later sound grows _
  have sent : ∀ datagram ∈ n.outbox, net.Genuine s' _ datagram.1 datagram.2 :=
    fun datagram member => (sound.sent datagram member).later (fun j => .refl (s' j)) grows
  refine ⟨{ sound with sent := sent, reported := fun report member => ?_ }, trivial⟩
  rcases List.mem_append.mp member with old | calling
  · exact sound.reported report old
  · unfold DhtClient.invokePeerCallback at calling
    split at calling
    · cases List.mem_singleton.mp calling
      exact ⟨infoHash, rfl, known s' later⟩
    · cases calling

theorem safe_sendQuery {make : Txn → NodeId → Bytes}
    (genuine : ∀ s', Later s s' → ∀ txn selfId, net.Genuine s' (s' i) (make txn selfId) pa) :
    net.Safe i (Running.sendQuery net.lib make pa) (fun _ _ => True) s := by
  refine Safe.seq (safe_idle fun _ _ => ⟨rfl, rfl, rfl, rfl, rfl, rfl, rfl, rfl⟩) fun txn s' later _ => ?_
  exact safe_sendKrpc fun s'' more selfId => genuine s'' (net.discipline.trans later more) txn selfId

end Rules

/-- The address that an announce is stored under. -/
def announced (msg : Message) (pa : PeerAddress) : PeerAddress :=
  if !msg.impliedPort then { pa with port := msg.peerPort } else pa

/-- What a client knows of a message that it handles. -/
structure Credible (net : Network ι) (s : ι → Running) (i : ι) (msg : Message) (pa : PeerAddress) : Prop where
  heard : (msg, pa) ∈ (s i).heard
  announces : ∀ infoHash, msg.type = .query → msg.queryType = some .announcePeer → msg.infoHash = some infoHash →
    net.Known s infoHash (announced msg pa)
  asks : ∀ infoHash, msg.type = .query → msg.queryType = some .getPeers → msg.infoHash = some infoHash →
    ∀ j, net.Reaches pa j → (s j).client.lookupManager.Drew msg.txn infoHash
  lists : msg.type = .response → ∀ compact ∈ msg.values, ∀ peer, compactToPeer net.lib.inet compact 0 = some peer →
    ∀ s', Later s s' → ∀ infoHash, (s' i).client.lookupManager.Drew msg.txn infoHash → net.Known s' infoHash peer

section Handlers
variable {msg : Message} {α : Type}

theorem later_trans {middle : ι → Running} (first : Later s middle) (later : Later middle s') : Later s s' :=
  fun i => (first i).trans (later i)

theorem Credible.later (later : Later s s') (credible : net.Credible s i msg pa) : net.Credible s' i msg pa where
  heard := (later i).heard credible.heard
  announces := fun infoHash query kind named => (credible.announces infoHash query kind named).later later
  asks := fun infoHash query kind named j reaches => (credible.asks infoHash query kind named j reaches).later (later j).history
  lists := fun response compact member peer read s'' more =>
    credible.lists response compact member peer read s'' (later_trans later more)

variable [DecidableEq ι]

/-- An update of nothing that matters here. -/
theorem safe_update {f : Moment → DhtClient → DhtClient} (idle : ∀ now n, Idle n { n with client := f now n.client }) :
    net.Safe i (Running.update f) (fun _ _ => True) s :=
  safe_idle idle

theorem safe_rotateIfNeeded : net.Safe i Running.rotateIfNeeded (fun _ _ => True) s :=
  safe_update fun _ _ => ⟨rfl, rfl, rfl, rfl, rfl, rfl, rfl, rfl⟩

theorem safe_addEntry (entry : Moment → RoutingEntry) : net.Safe i (Running.addEntry entry) (fun _ _ => True) s :=
  safe_update fun _ _ => ⟨rfl, rfl, rfl, rfl, rfl, rfl, rfl, rfl⟩

theorem safe_expireStale : net.Safe i Running.expireStale (fun _ _ => True) s :=
  safe_store (f := fun now store => ((), store.expireStale (now.clock 0)))
    (fun _ _ inv => ⟨(inv.expireStale _).1, fun _ _ holds => Or.inl (inv.holds_expireStale holds)⟩) fun _ _ _ _ _ => trivial

theorem safe_livePeers : net.Safe i (Running.livePeers infoHash) (fun peers s' => ∀ peer ∈ peers, net.Known s' infoHash peer) s :=
  safe_store (f := fun now store => store.livePeers (now.clock 0) infoHash)
    (fun _ _ inv => ⟨(inv.livePeers _ _).2.1, fun _ _ holds => Or.inl (inv.holds_livePeers holds)⟩)
    fun _ _ _ inv known peer member => known infoHash peer (inv.livePeers_held member)

theorem safe_countLivePeers : net.Safe i (Running.countLivePeers infoHash) (fun _ _ => True) s :=
  safe_store (f := fun now store => ((), (store.livePeers (now.clock 0) infoHash).2))
    (fun _ _ inv => ⟨(inv.livePeers _ _).2.1, fun _ _ holds => Or.inl (inv.holds_livePeers holds)⟩) fun _ _ _ _ _ => trivial

theorem safe_upsert (known : ∀ s', Later s s' → net.Known s' infoHash peer) :
    net.Safe i (Running.upsert infoHash peer) (fun _ _ => True) s := by
  refine safe_store (f := fun now store => ((), store.upsert (now.clock 0) infoHash peer)) (fun now store inv => ?_)
    fun _ _ _ _ _ => trivial
  obtain ⟨kept, among⟩ := inv.holds_upsert infoHash (now.clock 0) peer
  refine ⟨kept, fun other listed holds => ?_⟩
  rcases among other listed holds with old | ⟨rfl, rfl⟩
  · exact Or.inl old
  · exact Or.inr known

theorem safe_ensureBucket : net.Safe i
    (Running.update fun _ c => { c with peerStore := c.peerStore.ensureBucket infoHash }) (fun _ _ => True) s :=
  safe_store (f := fun _ store => ((), store.ensureBucket infoHash))
    (fun _ _ inv => ⟨inv.holds_ensureBucket.1, fun other peer holds => Or.inl (inv.holds_ensureBucket.2 other peer holds)⟩)
    fun _ _ _ _ _ => trivial

theorem safe_onGetPeers (query : msg.type = .query) (kind : msg.queryType = some .getPeers)
    (credible : net.Credible s i msg pa) : net.Safe i (Running.onGetPeers net.lib msg pa) (fun _ _ => True) s := by
  unfold Running.onGetPeers
  cases named : msg.infoHash with
  | none => exact safe_pure trivial
  | some infoHash =>
    refine safe_rotateIfNeeded.seq fun _ s₁ l₁ _ => (safe_read _).seq fun token s₂ l₂ _ => ?_
    refine safe_expireStale.seq fun _ s₃ l₃ _ => safe_livePeers.seq fun peers s₄ l₄ known => ?_
    have later := later_trans (later_trans l₁ l₂) (later_trans l₃ l₄)
    split
    case isTrue =>
      exact safe_sendKrpc fun s' more selfId => genuine_peersResponse selfId
        (fun peer member => (known peer member).later more)
        (((credible.later later).later more).asks infoHash query kind named)
    case isFalse =>
      refine (safe_read _).seq fun closest s₅ _ _ => ?_
      exact safe_sendKrpc fun s' _ selfId => genuine_nodesResponseGp selfId _ _

theorem safe_onAnnouncePeer (query : msg.type = .query) (kind : msg.queryType = some .announcePeer)
    (credible : net.Credible s i msg pa) : net.Safe i (Running.onAnnouncePeer net.lib msg pa) (fun _ _ => True) s := by
  unfold Running.onAnnouncePeer
  cases named : msg.infoHash with
  | none => exact safe_pure trivial
  | some infoHash =>
    refine safe_rotateIfNeeded.seq fun _ s₁ l₁ _ => ?_
    refine (safe_idle fun _ _ => ⟨rfl, rfl, rfl, rfl, rfl, rfl, rfl, rfl⟩).seq fun valid s₂ l₂ _ => ?_
    have known := ((credible.later (later_trans l₁ l₂)).announces infoHash query kind named)
    split
    case isTrue => exact safe_sendKrpc fun _ _ _ => genuine_error _ _
    case isFalse =>
      refine (safe_upsert fun s' more => known.later more).seq fun _ s₃ l₃ _ => ?_
      refine (safe_invokePeerCallback fun s' more => (known.later l₃).later more).seq fun _ _ _ _ => ?_
      exact safe_sendKrpc fun _ _ selfId => genuine_response selfId

/-- Queries that the client drew ids for. -/
def Queries (s : ι → Running) (i : ι) (outbound : List OutboundKrpc) : Prop :=
  ∃ selfId, GetPeersLookupManager.Asks selfId (s i).client.lookupManager outbound

theorem safe_sendOutbound {outbound : List OutboundKrpc} (queries : Queries s i outbound) :
    net.Safe i (Running.sendOutbound net.lib outbound) (fun _ _ => True) s := by
  obtain ⟨selfId, asks⟩ := queries
  refine safe_forM fun o member s₁ l₁ => safe_sendKrpc fun s' more _ => ?_
  obtain ⟨txn, infoHash, same, drew⟩ := asks o member
  rw [same]
  exact genuine_getPeers selfId ((drew.later (l₁ i).history).later (more i).history)

theorem safe_startOrAdvance : net.Safe i (Running.lookups net.lib fun _ env m => m.startOrAdvance env infoHash)
    (fun result s' => Queries s' i result.outbound) s := by
  refine safe_lookups (fun _ env m => Or.inr ⟨.startOrAdvance infoHash, rfl⟩) fun s' _ env m _ _ same => ⟨env.selfId, ?_⟩
  rw [same]
  exact m.startOrAdvance_asks env infoHash

theorem safe_onResponse {reply : KrpcMessage} :
    net.Safe i (Running.lookups net.lib fun _ env m => m.onResponse env reply) (fun result s' => Queries s' i result.outbound ∧
      ∀ infoHash, result.infoHash = some infoHash → (s' i).client.lookupManager.Drew reply.txn infoHash) s := by
  refine safe_lookups (fun _ env m => Or.inr ⟨.onResponse reply, rfl⟩) fun s' _ env m bound history same => ⟨⟨env.selfId, ?_⟩, ?_⟩
  · rw [same]
    exact m.onResponse_asks env reply
  · intro infoHash attributed
    rw [same]
    refine (bound reply.txn infoHash ?_).later history
    unfold GetPeersLookupManager.onResponse at attributed
    split at attributed
    case h_1 => cases attributed
    case h_2 found known =>
      cases attributed
      exact known

theorem safe_tickLookups : net.Safe i (Running.tickLookups net.lib) (fun _ _ => True) s := by
  have ticking : net.Safe i (Running.lookups net.lib fun now env m => (m.tick env now.hashes).getD ([], m))
      (fun outbound s' => Queries s' i outbound) s := by
    refine safe_lookups (fun now env m => ?_) fun s' now env m _ _ same => ⟨env.selfId, ?_⟩
    · cases ticked : m.tick env now.hashes with
      | none => exact Or.inl rfl
      | some result => exact Or.inr ⟨.tick now.hashes, by rw [GetPeersLookupManager.step, ticked]; rfl⟩
    · rw [same]
      cases ticked : m.tick env now.hashes with
      | none => exact GetPeersLookupManager.asks_nil _ _
      | some result => exact m.tick_asks env now.hashes ticked
  exact ticking.seq fun outbound s' _ queries => safe_sendOutbound queries

theorem safe_logCompleted (completed : Bool) (infoHash : Option InfoHash) :
    net.Safe i (Running.logCompleted completed infoHash) (fun _ _ => True) s := by
  unfold Running.logCompleted
  split
  case isTrue =>
    cases infoHash with
    | none => exact safe_pure trivial
    | some infoHash => exact safe_countLivePeers
  case isFalse => exact safe_pure trivial

/-- The coordinator forgets torrents or notes something about them. -/
theorem safe_note {f : Moment → AnnounceCoordinator → AnnounceCoordinator}
    (kept : ∀ now c infoHash torrent, (f now c).registered.lookup infoHash = some torrent →
      ∃ old, c.registered.lookup infoHash = some old ∧ old.listenPort = torrent.listenPort)
    (tokens : ∀ now c, (f now c).receivedTokens = c.receivedTokens) :
    net.Safe i (Running.update fun now c => { c with announceCoordinator := f now c.announceCoordinator })
      (fun _ _ => True) s := by
  refine safe_coordinator (f := fun now c => ((), f now c)) kept (fun now c pa token found => Or.inl ?_) fun _ _ _ _ _ => trivial
  rw [← tokens now c]
  exact found

/-- A field of a registered torrent, if it is registered, is written. -/
theorem registered_insert {c : AnnounceCoordinator} {torrent written after : RegisteredTorrent} {infoHash other : InfoHash}
    (found : c.registered.lookup infoHash = some torrent)
    (there : (c.registered.insert infoHash written).lookup other = some after) (port : torrent.listenPort = written.listenPort) :
    ∃ old, c.registered.lookup other = some old ∧ old.listenPort = after.listenPort := by
  rw [UnorderedMap.lookup_insert_eq] at there
  split at there
  case isTrue same =>
    cases there
    exact ⟨torrent, same ▸ found, port⟩
  case isFalse => exact ⟨after, there, rfl⟩

theorem safe_markInitialLookupStarted : net.Safe i (Running.update fun _ c =>
    { c with announceCoordinator := c.announceCoordinator.markInitialLookupStarted infoHash }) (fun _ _ => True) s := by
  refine safe_note (f := fun _ c => c.markInitialLookupStarted infoHash) (fun _ c other after there => ?_) fun _ c => ?_
  · unfold AnnounceCoordinator.markInitialLookupStarted at there
    split at there
    case h_1 => exact ⟨after, there, rfl⟩
    case h_2 torrent found => exact registered_insert found there rfl
  · unfold AnnounceCoordinator.markInitialLookupStarted
    split
    · rfl
    · rfl

theorem safe_markRefreshed (refreshed : Nat) : net.Safe i (Running.update fun _ c =>
    { c with announceCoordinator := c.announceCoordinator.markRefreshed infoHash refreshed }) (fun _ _ => True) s := by
  refine safe_note (f := fun _ c => c.markRefreshed infoHash refreshed) (fun _ c other after there => ?_) fun _ c => ?_
  · unfold AnnounceCoordinator.markRefreshed at there
    split at there
    case h_1 => exact ⟨after, there, rfl⟩
    case h_2 torrent found => exact registered_insert found there rfl
  · unfold AnnounceCoordinator.markRefreshed
    split
    · rfl
    · rfl

theorem safe_unregisterTorrent : net.Safe i (Running.unregisterTorrent infoHash) (fun _ _ => True) s := by
  refine safe_note (f := fun _ c => c.unregisterTorrent infoHash) (fun _ c other after there => ?_) fun _ _ => rfl
  rw [AnnounceCoordinator.unregisterTorrent, UnorderedMap.lookup_erase_eq] at there
  split at there
  · cases there
  · exact ⟨after, there, rfl⟩

theorem safe_getPeers : net.Safe i (Running.getPeers net.lib infoHash) (fun _ _ => True) s := by
  refine safe_ensureBucket.seq fun _ s₁ _ _ => safe_startOrAdvance.seq fun result s₂ _ queries => ?_
  split
  case isTrue => exact safe_pure trivial
  case isFalse =>
    refine safe_markInitialLookupStarted.seq fun _ s₃ l₃ _ => ?_
    refine (safe_sendOutbound (queries.imp fun _ asks => asks.later (l₃ i).history)).seq fun _ _ _ _ => ?_
    exact safe_logCompleted _ _

theorem safe_lookUpPending : net.Safe i (Running.lookUpPending net.lib infoHash) (fun _ _ => True) s := by
  refine (safe_read _).seq fun pending s₁ _ _ => ?_
  split
  · exact safe_pure trivial
  · exact safe_getPeers

theorem safe_tryPendingInitialLookups : net.Safe i (Running.tryPendingInitialLookups net.lib) (fun _ _ => True) s := by
  refine (safe_read _).seq fun size s₁ _ _ => ?_
  split
  · exact safe_pure trivial
  · exact (safe_read _).seq fun hashes s₂ _ _ => safe_forM fun _ _ _ _ => safe_lookUpPending

/-- What the client may announce to the address. -/
def Allowed (s : ι → Running) (i : ι) (req : AnnounceRequest) : Prop :=
  (req.infoHash, req.listenPort) ∈ (s i).offers ∧ (s i).Tokened req.pa req.token

theorem safe_sendAnnounceRequests {requests : List AnnounceRequest} (allowed : ∀ req ∈ requests, Allowed s i req) :
    net.Safe i (Running.sendAnnounceRequests net.lib requests) (fun _ _ => True) s := by
  refine safe_forM fun req member s₁ l₁ => ?_
  split
  case isTrue => exact safe_pure trivial
  case isFalse =>
    obtain ⟨offered, tokened⟩ := allowed req member
    refine safe_sendQuery fun s' more txn selfId => ?_
    exact genuine_announcePeer selfId ((more i).offers ((l₁ i).offers offered)) ((tokened.later (l₁ i)).later (more i))

theorem onGetPeersResponse_eq {token : Bytes} (full : ¬token.isEmpty = true) (c : AnnounceCoordinator) :
    c.onGetPeersResponse infoHash pa token =
      ((c.registered.lookup infoHash).elim [] fun torrent => [⟨pa, infoHash, torrent.listenPort, token⟩],
        { c with receivedTokens := c.receivedTokens.insert pa token }) := by
  unfold AnnounceCoordinator.onGetPeersResponse
  rw [if_neg full]
  dsimp only
  cases c.registered.lookup infoHash with
  | none => rfl
  | some torrent => rfl

/-- The requests that a response leads to. -/
theorem safe_collectRequests (response : msg.type = .response) (credible : net.Credible s i msg pa) :
    net.Safe i (Running.collectRequests msg pa) (fun requests s' => ∀ req ∈ requests, Allowed s' i req) s := by
  unfold Running.collectRequests
  split
  case isTrue =>
    refine safe_pure ?_
    intro _ member
    cases member
  case isFalse full =>
    have reading : net.Safe i (Running.read fun c => c.lookupManager.infoHashForTxn msg.txn)
        (fun infoHash s' => ∀ hash, infoHash = some hash → (s' i).client.lookupManager.Drew msg.txn hash) s := by
      refine safe_lookups (f := fun _ _ m => (m.infoHashForTxn msg.txn, m)) (fun _ _ _ => Or.inl rfl) ?_
      intro s' _ _ m bound _ same hash found
      rw [same]
      exact bound msg.txn hash found
    refine reading.seq fun attributed s₁ l₁ drew => ?_
    cases attributed with
    | none =>
      refine safe_pure ?_
      intro _ member
      cases member
    | some infoHash =>
      have tokened : ∀ s', Later s₁ s' → (s' i).Tokened pa msg.token := by
        intro s' more
        refine ⟨fun empty => full (by rw [empty]; rfl), msg, infoHash, (more i).heard ((l₁ i).heard credible.heard), response,
          rfl, (drew infoHash rfl).later (more i).history⟩
      refine safe_coordinator (f := fun _ c => c.onGetPeersResponse infoHash pa msg.token) (fun _ c other after there => ?_)
        (fun _ c address token there => ?_) fun s' _ c more offered req member => ?_
      · rw [onGetPeersResponse_eq full] at there
        exact ⟨after, there, rfl⟩
      · rw [onGetPeersResponse_eq full, UnorderedMap.lookup_insert_eq] at there
        split at there
        case isTrue same =>
          cases there
          rw [same]
          exact Or.inr tokened
        case isFalse => exact Or.inl there
      · rw [onGetPeersResponse_eq full] at member
        cases found : c.registered.lookup infoHash with
        | none =>
          rw [found] at member
          cases member
        | some torrent =>
          rw [found] at member
          cases List.mem_singleton.mp member
          exact ⟨offered infoHash torrent found, tokened s' more⟩

theorem safe_storeValue {compact : Bytes} (known : ∀ peer, compactToPeer net.lib.inet compact 0 = some peer →
    ∀ s', Later s s' → net.Known s' infoHash peer) :
    net.Safe i (Running.storeValue net.lib infoHash compact) (fun _ _ => True) s := by
  unfold Running.storeValue
  cases read : compactToPeer net.lib.inet compact 0 with
  | none => exact safe_pure trivial
  | some peer =>
    refine (safe_upsert (known peer read)).seq fun _ s₁ l₁ _ => ?_
    exact safe_invokePeerCallback fun s' more => known peer read s' (later_trans l₁ more)

theorem safe_followUp {requests : List AnnounceRequest} {result : ResponseResult} (response : msg.type = .response)
    (credible : net.Credible s i msg pa) (allowed : ∀ req ∈ requests, Allowed s i req)
    (queries : Queries s i result.outbound)
    (attributed : ∀ infoHash, result.infoHash = some infoHash → (s i).client.lookupManager.Drew msg.txn infoHash) :
    net.Safe i (Running.followUp net.lib msg requests result) (fun _ _ => True) s := by
  unfold Running.followUp
  split
  case isTrue => exact safe_sendAnnounceRequests allowed
  case isFalse =>
    have storing : net.Safe i (result.infoHash.elim (pure ()) fun infoHash =>
        msg.values.forM (Running.storeValue net.lib infoHash)) (fun _ _ => True) s := by
      cases found : result.infoHash with
      | none => exact safe_pure trivial
      | some infoHash =>
        refine safe_forM fun compact member s₁ l₁ => safe_storeValue fun peer read s' more => ?_
        have drew := (attributed infoHash found).later ((later_trans l₁ more) i).history
        exact credible.lists response compact member peer read s' (later_trans l₁ more) infoHash drew
    refine storing.seq fun _ s₁ l₁ _ => ?_
    refine (safe_sendOutbound (queries.imp fun _ asks => asks.later (l₁ i).history)).seq fun _ s₂ l₂ _ => ?_
    refine (safe_logCompleted _ _).seq fun _ s₃ l₃ _ => ?_
    have later := later_trans (later_trans l₁ l₂) l₃
    refine (safe_sendAnnounceRequests fun req member => ?_).seq fun _ _ _ _ => safe_tryPendingInitialLookups
    exact ⟨(later i).offers (allowed req member).1, (allowed req member).2.later (later i)⟩

theorem safe_handleResponse (response : msg.type = .response) (credible : net.Credible s i msg pa) :
    net.Safe i (Running.onResponse net.lib msg pa) (fun _ _ => True) s := by
  refine (safe_forM fun node _ s' _ => safe_addEntry fun _ => node).seq fun _ s₁ l₁ _ => ?_
  refine (safe_collectRequests response (credible.later l₁)).seq fun requests s₂ l₂ allowed => ?_
  refine safe_onResponse.seq fun result s₃ l₃ ending => ?_
  refine safe_followUp response (credible.later (later_trans (later_trans l₁ l₂) l₃)) (fun req member => ?_) ending.1 ending.2
  exact ⟨(l₃ i).offers (allowed req member).1, (allowed req member).2.later (l₃ i)⟩

theorem safe_handleMessage (credible : net.Credible s i msg pa) :
    net.Safe i (Running.handleMessage net.lib msg pa) (fun _ _ => True) s := by
  have hearing : net.Safe i (Running.hearFrom msg pa) (fun _ _ => True) s := by
    unfold Running.hearFrom
    split
    · exact safe_update fun _ _ => ⟨rfl, rfl, rfl, rfl, rfl, rfl, rfl, rfl⟩
    · exact safe_pure trivial
  refine hearing.seq fun _ s₁ l₁ _ => ?_
  have credible := credible.later l₁
  unfold Running.dispatch
  cases type : msg.type with
  | query =>
    cases kind : msg.queryType with
    | none => exact safe_pure trivial
    | some which =>
      cases which with
      | ping => exact safe_sendKrpc fun _ _ selfId => genuine_response selfId
      | findNode =>
        exact (safe_read _).seq fun closest _ _ _ => safe_sendKrpc fun _ _ selfId => genuine_nodesResponse selfId _
      | getPeers => exact safe_onGetPeers type kind credible
      | announcePeer => exact safe_onAnnouncePeer type kind credible
  | response => exact safe_handleResponse type credible
  | error => exact safe_pure trivial

end Handlers

section Receiving
variable {msg : Message} {a : ι} {source : Endpoint}

/-- A datagram that a client sent leaves no other way than to its receiver. -/
theorem reaches_endpoint {j : ι} (reaches : net.Reaches (net.address source) j) : source = net.endpoint j := by
  obtain ⟨addr, port⟩ := reaches
  change (net.lib.pton4 (net.lib.inet.ntoa source.addr)).map InAddr.bytes = _ at addr
  rw [net.pton4, Option.map_some, Option.some.injEq] at addr
  obtain ⟨⟨bytes, four⟩, here⟩ := source
  generalize net.endpoint j = there at addr port
  obtain ⟨⟨bytes', four'⟩, port'⟩ := there
  cases addr
  cases port
  rfl

theorem address_of_compact {compact : Bytes} (read : compactToPeer net.lib.inet compact 0 = some peer) :
    ∃ e, peer = net.address e := by
  unfold compactToPeer at read
  split at read
  · cases read
  · cases read
    exact ⟨⟨_, _⟩, rfl⟩

theorem address_of_announced (msg : Message) (source : Endpoint) :
    ∃ e, announced msg (net.address source) = net.address e := by
  unfold announced
  split
  · exact ⟨⟨source.addr, msg.peerPort⟩, rfl⟩
  · exact ⟨source, rfl⟩

theorem credible_of_meant (meant : net.Meant s (s a) msg pa) (reaches : net.Reaches pa i)
    (heard : (msg, net.address (net.endpoint a)) ∈ (s i).heard) : net.Credible s i msg (net.address (net.endpoint a)) where
  heard := heard
  announces := by
    intro infoHash query kind named
    obtain ⟨implied, offered, _⟩ := meant.announces infoHash query kind named
    refine ⟨net.endpoint a, ?_, .offered a offered⟩
    rw [announced, implied]
    rfl
  asks := by
    intro infoHash query kind named j back
    have same : a = j := net.distinct (reaches_endpoint back)
    exact same ▸ meant.asks infoHash query kind named
  lists := by
    intro response compact member peer read s' later infoHash drew
    obtain ⟨other, ⟨e, same, origin⟩, before⟩ := meant.lists response compact member peer read i reaches
    exact ⟨e, same, .mixed i msg.txn (origin.later later) (before.later (later i).history) drew⟩

theorem credible_of_stranger (strange : ∀ j, net.endpoint j ≠ source) (heard : (msg, net.address source) ∈ (s i).heard)
    (noted : (msg, net.address source) ∈ (s i).strangers) : net.Credible s i msg (net.address source) where
  heard := heard
  announces := by
    intro infoHash _ kind _
    obtain ⟨e, same⟩ := @address_of_announced _ net msg source
    exact ⟨e, same, .named i _ noted (Or.inl ⟨kind, same.symm⟩)⟩
  asks := fun _ _ _ _ j back => absurd (reaches_endpoint back).symm (strange j)
  lists := by
    intro response compact member peer read s' later infoHash _
    obtain ⟨e, same⟩ := address_of_compact read
    exact ⟨e, same, .named i _ ((later i).strangers noted) (Or.inr ⟨response, compact, member, same ▸ read⟩)⟩

variable [DecidableEq ι]

theorem safe_receive {stranger : Bool} {data : Metadata}
    (credible : ∀ s', Later s s' → ∀ now msg, parseKrpc net.lib.inet now data = some msg → (msg, pa) ∈ (s' i).heard →
      (stranger = true → (msg, pa) ∈ (s' i).strangers) → net.Credible s' i msg pa) :
    net.Safe i (Running.receive net.lib stranger data pa) (fun _ _ => True) s := by
  have reading : net.Safe i (.atomically (Running.parseDatagram net.lib stranger data pa))
      (fun parsed s' => ∀ msg, parsed = some msg → net.Credible s' i msg pa) s := by
    unfold Running.parseDatagram
    refine safe_step (fun _ n now _ => ?_) fun s' n now later sound grows same => ?_
    · cases parseKrpc net.lib.inet (now.clock 0) data with
      | none => exact .refl n
      | some msg =>
        refine ⟨fun _ => id, List.subset_append_left _ _, ?_, fun _ => id⟩
        cases stranger with
        | false => exact fun _ => id
        | true => exact List.subset_append_left _ _
    · have parsing : ∀ msg, parseKrpc net.lib.inet (now.clock 0) data = some msg → (msg, pa) ∈ (s' i).heard ∧
          (stranger = true → (msg, pa) ∈ (s' i).strangers) := by
        intro msg parsed
        rw [same, parsed]
        refine ⟨List.mem_append_right _ List.mem_cons_self, fun isIt => ?_⟩
        rw [isIt]
        exact List.mem_append_right _ List.mem_cons_self
      cases parsed : parseKrpc net.lib.inet (now.clock 0) data with
      | none =>
        refine ⟨sound, ?_⟩
        intro msg none
        cases none
      | some msg =>
        rw [parsed] at grows
        refine ⟨sound.change grows rfl rfl sound.store sound.stored sound.free sound.bound sound.registered
          fun address token found => (sound.tokens address token found).later grows, fun other found => ?_⟩
        cases found
        exact credible s' later _ msg parsed (parsing msg parsed).1 (parsing msg parsed).2
  refine reading.seq fun parsed s₁ _ believed => ?_
  cases parsed with
  | none => exact safe_pure trivial
  | some msg => exact safe_handleMessage (believed msg rfl)

end Receiving

section Maintenance
variable [DecidableEq ι]

theorem safe_lookupTick : net.Safe i (Running.lookupTick net.lib) (fun _ _ => True) s := by
  refine Safe.seq (safe_idle fun now n => ?_) fun due s₁ _ _ => ?_
  · split
    · exact ⟨rfl, rfl, rfl, rfl, rfl, rfl, rfl, rfl⟩
    · exact ⟨rfl, rfl, rfl, rfl, rfl, rfl, rfl, rfl⟩
  · split
    · exact safe_tickLookups
    · exact safe_pure trivial

theorem safe_refreshBucket (bucket : Nat) : net.Safe i (Running.refreshBucket net.lib bucket) (fun _ _ => True) s := by
  refine Safe.seq (safe_idle fun _ _ => ⟨rfl, rfl, rfl, rfl, rfl, rfl, rfl, rfl⟩) fun target s₁ _ _ => ?_
  refine Safe.seq (safe_idle fun _ _ => ⟨rfl, rfl, rfl, rfl, rfl, rfl, rfl, rfl⟩) fun closest s₂ _ _ => ?_
  refine safe_forM fun node _ s₃ _ => ?_
  exact safe_sendQuery fun _ _ txn selfId => genuine_findNode selfId target

theorem safe_refreshBuckets : net.Safe i (Running.refreshBuckets net.lib) (fun _ _ => True) s := by
  refine Safe.seq (safe_idle fun _ _ => ⟨rfl, rfl, rfl, rfl, rfl, rfl, rfl, rfl⟩) fun found s₁ _ _ => ?_
  obtain ⟨buckets, cursor⟩ := found
  dsimp only
  split
  case isTrue => exact safe_pure trivial
  case isFalse =>
    refine (safe_forM fun _ _ _ _ => safe_refreshBucket _).seq fun _ s₂ _ _ => ?_
    exact safe_idle fun _ _ => ⟨rfl, rfl, rfl, rfl, rfl, rfl, rfl, rfl⟩

theorem safe_refreshTorrent (now : Nat) : net.Safe i (Running.refreshTorrent net.lib now infoHash) (fun _ _ => True) s := by
  refine (safe_read _).seq fun pending s₁ _ _ => ?_
  split
  case isTrue => exact safe_pure trivial
  case isFalse => exact safe_getPeers.seq fun _ _ _ _ => safe_markRefreshed now

theorem safe_maintainRegisteredTorrents :
    net.Safe i (Running.maintainRegisteredTorrents net.lib) (fun _ _ => True) s := by
  refine safe_tryPendingInitialLookups.seq fun _ s₁ _ _ => ?_
  refine Safe.seq (safe_idle fun _ _ => ⟨rfl, rfl, rfl, rfl, rfl, rfl, rfl, rfl⟩) fun now s₂ _ _ => ?_
  exact (safe_read _).seq fun due s₃ _ _ => safe_forM fun _ _ _ _ => safe_refreshTorrent now

theorem safe_bootstrap : net.Safe i (Running.bootstrap net.lib) (fun _ _ => True) s := by
  refine Safe.seq (safe_idle fun _ _ => ⟨rfl, rfl, rfl, rfl, rfl, rfl, rfl, rfl⟩) fun resolved s₁ _ _ => ?_
  refine safe_forM fun pa _ s₂ _ => ?_
  refine (safe_sendQuery fun _ _ txn selfId => genuine_ping selfId).seq fun _ s₃ _ _ => ?_
  exact safe_sendQuery fun _ _ txn selfId => genuine_findNode selfId selfId

theorem safe_retryBootstrap : net.Safe i (Running.retryBootstrap net.lib) (fun _ _ => True) s := by
  refine Safe.seq (safe_idle fun _ _ => ⟨rfl, rfl, rfl, rfl, rfl, rfl, rfl, rfl⟩) fun due s₁ _ _ => ?_
  split
  · exact safe_bootstrap
  · exact safe_pure trivial

theorem safe_maintain : net.Safe i (Running.maintain net.lib) (fun _ _ => True) s := by
  have expiring : ∀ s, net.Safe i (Running.lookups net.lib fun _ env m => ((), m.expireActiveLookupsLocked env))
      (fun _ _ => True) s :=
    fun _ => safe_lookups (fun _ env m => Or.inr ⟨.expireActiveLookups, rfl⟩) fun _ _ _ _ _ _ _ => trivial
  refine safe_rotateIfNeeded.seq fun _ s₁ _ _ => (expiring s₁).seq fun _ s₂ _ _ => ?_
  refine safe_tickLookups.seq fun _ s₃ _ _ => safe_expireStale.seq fun _ s₄ _ _ => ?_
  refine safe_refreshBuckets.seq fun _ s₅ _ _ => safe_maintainRegisteredTorrents.seq fun _ s₆ _ _ => ?_
  exact safe_retryBootstrap

theorem safe_registerTorrent (port : UInt16) :
    net.Safe i (Running.registerTorrent net.lib infoHash port) (fun _ _ => True) s := by
  have registering : net.Safe i (.atomically fun now s => ((), { s with
      client := { s.client with
        announceCoordinator := s.client.announceCoordinator.registerTorrent (now.clock 0) infoHash port }
      offers := s.offers ++ [(infoHash, port)] })) (fun _ _ => True) s := by
    refine safe_step (fun _ n _ _ => ?_) fun s' n now _ sound grows _ => ⟨?_, trivial⟩
    · exact ⟨List.subset_append_left _ _, fun _ => id, fun _ => id, fun _ => id⟩
    · refine sound.change grows rfl rfl sound.store sound.stored sound.free sound.bound (fun other torrent found => ?_)
        fun pa token there => (sound.tokens pa token there).later grows
      simp only [AnnounceCoordinator.registerTorrent, UnorderedMap.lookup_insert_eq] at found
      split at found
      case isTrue same =>
        cases found
        rw [same]
        exact List.mem_append_right _ List.mem_cons_self
      case isFalse => exact List.mem_append_left _ (sound.registered other torrent found)
  exact registering.seq fun _ _ _ _ => safe_getPeers

theorem safe_announce (port : UInt16) : net.Safe i (Running.announce net.lib infoHash port) (fun _ _ => True) s := by
  have collecting : net.Safe i (.atomically fun _ s =>
      (s.client.announceCoordinator.collectAnnounceAll infoHash port, { s with offers := s.offers ++ [(infoHash, port)] }))
      (fun requests s' => ∀ req ∈ requests, Allowed s' i req) s := by
    refine safe_step (fun _ n _ _ => ?_) fun s' n now _ sound grows same => ⟨?_, fun req member => ?_⟩
    · exact ⟨List.subset_append_left _ _, fun _ => id, fun _ => id, fun _ => id⟩
    · exact sound.change grows rfl rfl sound.store sound.stored sound.free sound.bound
        (fun other torrent found => List.mem_append_left _ (sound.registered other torrent found))
        fun pa token there => (sound.tokens pa token there).later grows
    · obtain ⟨entry, inTokens, rfl⟩ := List.mem_map.mp member
      rw [Allowed, same]
      refine ⟨List.mem_append_right _ List.mem_cons_self, ?_⟩
      exact (sound.tokens entry.1 entry.2 (AList.mem_lookup_iff.mpr inTokens)).later grows
  exact collecting.seq fun requests s₁ _ allowed => safe_sendAnnounceRequests allowed

end Maintenance

section Runs
variable {pool : Pool (ι → Running) Moment}

theorem sound_starts (starts : Starts s) (i : ι) : net.Sound s (s i) := by
  obtain ⟨lookups, store, coordinator, outbox, reports⟩ := starts i
  refine ⟨?_, ?_, ?_, ?_, ?_, ?_, ?_, ?_⟩
  · rw [store]
    exact PeerStore.kept_make.invariant
  · rw [store]
    exact fun infoHash pa holds => absurd holds PeerStore.not_holds_make
  · rw [lookups]
    rfl
  · rw [lookups]
    intro txn infoHash bound
    cases bound
  · rw [coordinator]
    intro infoHash torrent found
    cases found
  · rw [coordinator]
    intro pa token found
    cases found
  · rw [outbox]
    exact fun _ member => nomatch member
  · rw [reports]
    exact fun _ member => nomatch member

/-- Among clients alone, with ids that are not used again, a peer comes from a client
that offers the very hash. -/
theorem Origin.exact {e : Endpoint} (origin : net.Origin s e infoHash) (alone : ∀ j, (s j).strangers = [])
    (fresh : ∀ j txn a b, (s j).client.lookupManager.Drew txn a → (s j).client.lookupManager.Drew txn b → a = b) :
    ∃ j port, e = net.endpoint j ∧ (infoHash, port) ∈ (s j).offers := by
  induction origin with
  | offered j offers => exact ⟨j, _, rfl, offers⟩
  | named j heard member _ =>
    rw [alone j] at member
    cases member
  | mixed j txn _ first second ih =>
    cases fresh j txn _ _ first second
    exact ih

variable [DecidableEq ι]

/-- Whatever a thread is started for, its script is safe. -/
theorem safe_program {task : Task ι} {script : Script (ι → Running) Moment Unit} (allowed : Unspoofed net pool (.start task))
    (sound : ∀ i, net.Sound pool.shared (pool.shared i)) (starts : net.program task pool.shared = some script) :
    script.Keeps net.discipline (fun _ _ => True) pool.shared := by
  cases task with
  | deliver sender receiver index data =>
    simp only [program] at starts
    split at starts
    case h_2 => cases starts
    case h_1 bytes pa found =>
      split at starts
      case isFalse => cases starts
      case isTrue arrives =>
        cases Option.some.inj starts
        refine safe_receive fun s' later now msg parsed heard _ => ?_
        have genuine := (sound sender).sent (bytes, pa) (List.mem_of_getElem? found)
        exact credible_of_meant ((genuine now data msg arrives.1 parsed).later later (later sender)) arrives.2 heard
  | stranger source receiver data =>
    cases Option.some.inj starts
    exact safe_receive fun s' _ now msg _ heard noted => credible_of_stranger allowed heard (noted rfl)
  | registerTorrent i infoHash port =>
    cases Option.some.inj starts
    exact safe_registerTorrent port
  | unregisterTorrent i infoHash =>
    cases Option.some.inj starts
    exact safe_unregisterTorrent
  | getPeers i infoHash =>
    cases Option.some.inj starts
    exact safe_getPeers
  | announce i infoHash port =>
    cases Option.some.inj starts
    exact safe_announce port
  | ping i pa =>
    cases Option.some.inj starts
    exact safe_sendQuery fun _ _ txn selfId => genuine_ping selfId
  | lookupTick i =>
    cases Option.some.inj starts
    exact safe_lookupTick
  | maintain i =>
    cases Option.some.inj starts
    exact safe_maintain
  | bootstrap i =>
    cases Option.some.inj starts
    exact safe_bootstrap

/-- However the threads of all clients interleave, and whatever happens to the
datagrams, the clients keep to what they say. -/
theorem reach_sound (reach : Reach (fun pool => Starts pool.shared ∧ pool.threads = []) (Pool.step net.program)
    (Unspoofed net) pool) (i : ι) : net.Sound pool.shared (pool.shared i) :=
  (Pool.reach_holds (d := net.discipline) reach (fun _ starts => sound_starts starts)
    fun _ _ _ allowed sound starts => safe_program allowed sound starts).1 i

/-- A peer that any client reports for a hash is the address of a client that was
asked to announce the hash, or was named by a stranger, or comes from another hash by
way of an id that was used again. -/
theorem reports_have_origin (reach : Reach (fun pool => Starts pool.shared ∧ pool.threads = []) (Pool.step net.program)
    (Unspoofed net) pool) {i : ι} {report : Bytes × PeerAddress} (reported : report ∈ (pool.shared i).reports) :
    ∃ infoHash : InfoHash, report.1 = infoHash.hex ∧ net.Known pool.shared infoHash report.2 ∧
      ((∀ j, (pool.shared j).strangers = []) → (∀ j txn a b, (pool.shared j).client.lookupManager.Drew txn a →
          (pool.shared j).client.lookupManager.Drew txn b → a = b) →
        ∃ j port, report.2 = net.address (net.endpoint j) ∧ (infoHash, port) ∈ (pool.shared j).offers) := by
  obtain ⟨infoHash, hex, e, address, origin⟩ := (reach_sound reach i).reported report reported
  refine ⟨infoHash, hex, ⟨e, address, origin⟩, fun alone fresh => ?_⟩
  obtain ⟨j, port, same, offered⟩ := origin.exact alone fresh
  exact ⟨j, port, same ▸ address, offered⟩

/-- A client announces only what it was asked to announce, and to those who gave it
the token, in a response under an id that it had drawn. -/
theorem announces_are_allowed (reach : Reach (fun pool => Starts pool.shared ∧ pool.threads = []) (Pool.step net.program)
    (Unspoofed net) pool) {i : ι} {datagram : Bytes × PeerAddress} (sent : datagram ∈ (pool.shared i).outbox)
    {now : Nat} {data : Metadata} {msg : Message} (same : data.bytes = datagram.1)
    (parsed : parseKrpc net.lib.inet now data = some msg) (query : msg.type = .query)
    (announce : msg.queryType = some .announcePeer) :
    ∃ infoHash, msg.infoHash = some infoHash ∧ msg.impliedPort = true ∧ (infoHash, msg.peerPort) ∈ (pool.shared i).offers ∧
      (pool.shared i).Tokened datagram.2 msg.token := by
  rcases parseKrpc_query parsed query with ping | findNode | ⟨infoHash, named, _⟩
  · cases ping.symm.trans announce
  · cases findNode.symm.trans announce
  · exact ⟨infoHash, named, ((reach_sound reach i).sent datagram sent now data msg same parsed).announces infoHash query
      announce named⟩

end Runs

section Loopback
open DhtClient


/-- The libraries, with SHA-1 of what the tokens of the loopback address are made of. -/
def quadLibraries : Libraries :=
  { Tokens.loopbackLibrary with pton4 := quadInet.aton, inet := quadInet, sort := .insertion }

theorem loopback_length : ([127, 0, 0, 1] : Bytes).length = 4 := rfl

/-- The loopback address. -/
def loopbackAddr : InAddr := ⟨[127, 0, 0, 1], loopback_length⟩

theorem quadInet_aton (addr : InAddr) : quadLibraries.pton4 (quadLibraries.inet.ntoa addr) = some addr :=
  quadInet_dotted.aton addr

/-- Two clients at the loopback address: the first listens on port 6881, the
second on port 6882. -/
def loopbackEndpoint : Bool → Endpoint
  | false => ⟨loopbackAddr, 6881⟩
  | true => ⟨loopbackAddr, 6882⟩

theorem loopback_distinct : Function.Injective loopbackEndpoint := by
  intro i j same
  cases i <;> cases j <;> first | rfl | exact absurd (congrArg Endpoint.port same) (by decide)

def loopbackNetwork : Network Bool where
  lib := quadLibraries
  endpoint := loopbackEndpoint
  distinct := loopback_distinct
  dotted := quadInet_dotted
  pton4 := quadInet_aton

/-- A client that has done nothing yet. -/
def idle (client : DhtClient) : Running where
  client := { client with hasPeerCallback := true }
  bootstrapOnStart := false
  lastBootstrapAttempt := 0
  lastLookupTick := 0
  refreshBucketCursor := 0
  outbox := []
  reports := []
  offers := []
  heard := []
  strangers := []
  consulted := []

/-- The first client knows the second one. -/
def acquainted : Running := idle ((fresh (nodeOf 9) (Tokens.secretOf 1)).addEntry 0 ⟨⟨nodeOf 7, ⟨loopback, 6882⟩⟩, 0⟩ true)

def server : Running := idle (fresh (nodeOf 7) (Tokens.secretOf 2))

def both (first second : Running) : Bool → Running
  | false => first
  | true => second

theorem both_update_first (first second next : Running) :
    Function.update (both first second) false next = both next second := by
  funext i
  cases i <;> rfl

theorem both_update_second (first second next : Running) :
    Function.update (both first second) true next = both first next := by
  funext i
  cases i <;> rfl

/-- The outside of a client while nothing is drawn but its secret. -/
def stillClient : Dht.Outside := stillOutside 0 (Tokens.secretOf 2)

/-- The first client was asked to announce a hash, and asks the second one for its peers. -/
def offering : Running :=
  let registered := { acquainted with
    client := { acquainted.client with
      announceCoordinator := acquainted.client.announceCoordinator.registerTorrent 0 loopbackHash 6881 }
    offers := [(loopbackHash, 6881)] }
  registered.after (registered.client.getPeers quadLibraries stillClient 0 loopbackHash)

/-- A client after a datagram of the other one. -/
def received (n : Running) (msg : Message) (pa : PeerAddress) : Running :=
  let heard := { n with heard := n.heard ++ [(msg, pa)] }
  heard.after (heard.client.handleMessage quadLibraries stillClient msg pa)

def question : Message :=
  { type := .query, txn := [0, 0], queryType := some .getPeers, senderId := nodeOf 9, infoHash := some loopbackHash }

def asked : Running := received server question ⟨loopback, 6881⟩

def loopbackToken : Bytes := TokenSecretRotator.computeToken Tokens.loopbackLibrary (Tokens.secretOf 2).bytes loopback

/-- The second client knows no peer, only the first client, and gives a token. -/
def answer : Message :=
  { type := .response, txn := [0, 0], senderId := nodeOf 7, token := loopbackToken,
    nodes := [⟨⟨nodeOf 9, ⟨loopback, 6881⟩⟩, 0⟩], nodeCounts := occurrences [⟨⟨nodeOf 9, ⟨loopback, 6881⟩⟩, 0⟩] }

def answered : Running := received offering answer ⟨loopback, 6882⟩

def announcement : Message :=
  { type := .query, txn := [0, 0], queryType := some .announcePeer, senderId := nodeOf 9,
    infoHash := some loopbackHash, peerPort := 6881, token := loopbackToken, impliedPort := true }

def informed : Running := received asked announcement ⟨loopback, 6881⟩

theorem offering_outbox :
    offering.outbox[0]? = some (makeGetPeers [0, 0] (nodeOf 9) loopbackHash, ⟨loopback, 6882⟩) := by decide +kernel

theorem asked_outbox : asked.outbox[0]? = some (makeNodesResponseGp quadInet [0, 0] (nodeOf 7) loopbackToken
    [⟨⟨nodeOf 9, ⟨loopback, 6881⟩⟩, 0⟩], ⟨loopback, 6881⟩) := by decide +kernel

theorem answered_outbox : answered.outbox[1]? =
    some (makeAnnouncePeer [0, 0] (nodeOf 9) loopbackHash 6881 loopbackToken true, ⟨loopback, 6882⟩) := by decide +kernel

theorem informed_reports : (loopbackHash.hex, ⟨loopback, 6881⟩) ∈ informed.reports := by decide +kernel

theorem alone_offering : (Running.registerTorrent quadLibraries loopbackHash 6881).Alone acquainted () offering :=
  Script.Alone.bind (Script.Alone.atomically _ (Running.moment stillClient 0 stillClient.lookupTxn acquainted.client) _)
    (Running.like_getPeers stillClient 0)

theorem alone_received {n : Running} {data : Metadata} {msg : Message} {pa : PeerAddress}
    (parsed : parseKrpc quadInet 0 data = some msg) :
    (Running.receive quadLibraries false data pa).Alone n () (received n msg pa) := by
  have reading := Script.Alone.atomically (Running.parseDatagram quadLibraries false data pa)
    (Running.moment stillClient 0 stillClient.lookupTxn n.client) n
  have zero : parseKrpc quadLibraries.inet ((Running.moment stillClient 0 stillClient.lookupTxn n.client).clock 0) data =
    some msg := parsed
  simp only [Running.parseDatagram, zero, Bool.false_eq_true, if_false] at reading
  exact Script.Alone.bind reading (Running.like_handleMessage stillClient)

abbrev LoopbackReach (s : Bool → Running) : Prop :=
  ∃ threads, Reach (fun pool => Starts pool.shared ∧ pool.threads = []) (Pool.step loopbackNetwork.program)
    (Unspoofed loopbackNetwork) ⟨s, threads⟩

/-- A datagram of one client arrives at the other, which handles it to its end. -/
theorem LoopbackReach.deliver {s : Bool → Running} {sender receiver : Bool} {index : Nat} {bytes : Bytes}
    {dest : PeerAddress} {msg : Message} (reach : LoopbackReach s) (sent : (s sender).outbox[index]? = some (bytes, dest))
    (size : bytes.length < 2 ^ 64) (arrives : loopbackNetwork.Reaches dest receiver)
    (decodes : Decodes quadInet 0 bytes msg) :
    LoopbackReach (Function.update s receiver
      (received (s receiver) msg (loopbackNetwork.address (loopbackEndpoint sender)))) := by
  obtain ⟨threads, reach⟩ := reach
  have started : loopbackNetwork.program (.deliver sender receiver index ⟨bytes, size⟩) s = some
      ((Running.receive quadLibraries false ⟨bytes, size⟩ (loopbackNetwork.address (loopbackEndpoint sender))).on
        receiver) := by
    simp only [program, sent, true_and]
    exact if_pos arrives
  have step : Pool.step loopbackNetwork.program ⟨s, threads⟩ (.start (.deliver sender receiver index ⟨bytes, size⟩)) =
      some ⟨s, threads ++ [(Running.receive quadLibraries false ⟨bytes, size⟩
        (loopbackNetwork.address (loopbackEndpoint sender))).on receiver]⟩ := by
    simp only [Pool.step, started, Option.map_some]
  have own : Unspoofed loopbackNetwork ⟨s, threads⟩ (.start (.deliver sender receiver index ⟨bytes, size⟩)) := trivial
  exact Pool.reach_alone ((alone_received (decodes ⟨bytes, size⟩ rfl)).on rfl) (.next reach own step)
    (List.getElem?_concat_length ..) fun _ _ => by trivial

theorem offering_reach : LoopbackReach (both offering server) := by
  have first : Pool.step loopbackNetwork.program ⟨both acquainted server, []⟩
      (.start (.registerTorrent false loopbackHash 6881)) =
      some ⟨both acquainted server, [(Running.registerTorrent quadLibraries loopbackHash 6881).on false]⟩ := rfl
  have initial : Starts (both acquainted server) := by
    intro i
    cases i <;> exact ⟨rfl, rfl, rfl, rfl, rfl⟩
  have own : Unspoofed loopbackNetwork ⟨both acquainted server, []⟩ (.start (.registerTorrent false loopbackHash 6881)) :=
    trivial
  have begun : Reach (fun pool => Starts pool.shared ∧ pool.threads = []) (Pool.step loopbackNetwork.program)
      (Unspoofed loopbackNetwork)
      ⟨both acquainted server, [(Running.registerTorrent quadLibraries loopbackHash 6881).on false]⟩ :=
    .next (.start ⟨initial, rfl⟩) own first
  have ended : LoopbackReach (Function.update (both acquainted server) false offering) :=
    Pool.reach_alone (alone_offering.on (i := false) rfl) begun (List.getElem?_cons_zero ..) fun _ _ => by trivial
  rwa [both_update_first] at ended

theorem canonical_loopback : quadInet.Canonical loopback := rfl

/-- The first client asks, the second answers, the first announces itself with the
token, and the second reports it. -/
theorem informed_reach : LoopbackReach (both answered informed) := by
  have first := @LoopbackReach.deliver _ false true _ _ _ _ offering_reach offering_outbox (by decide +kernel)
    (by decide +kernel) (decodes_getPeers _ _ _)
  rw [both_update_second] at first
  have second := @LoopbackReach.deliver _ true false _ _ _ _ first asked_outbox (by decide +kernel)
    (by decide +kernel) (decodes_nodesResponseGp _ _ _ fun node member => by
      rw [List.mem_singleton.mp member]
      exact canonical_loopback)
  rw [both_update_first] at second
  have third := @LoopbackReach.deliver _ false true _ _ _ _ second answered_outbox (by decide +kernel)
    (by decide +kernel) (decodes_announcePeer _ _ _ _ _ _)
  rwa [both_update_second] at third

def drawnFor : Event → Option InfoHash
  | .drawn _ infoHash _ => some infoHash
  | _ => none

theorem drawn_once : ∀ j, ∀ event ∈ (both answered informed j).client.lookupManager.history,
    drawnFor event = none ∨ drawnFor event = some loopbackHash := by
  intro j
  cases j <;> decide +kernel

theorem reports_have_origin_answered : ∃ infoHash : InfoHash, loopbackHash.hex = infoHash.hex ∧
    ∃ j port, (⟨loopback, 6881⟩ : PeerAddress) = loopbackNetwork.address (loopbackNetwork.endpoint j) ∧
      (infoHash, port) ∈ (both answered informed j).offers := by
  obtain ⟨threads, reach⟩ := informed_reach
  obtain ⟨infoHash, hex, _, offered⟩ := reports_have_origin (i := true) reach informed_reports
  have alone : ∀ j, (both answered informed j).strangers = [] := by
    intro j
    cases j <;> rfl
  have drew : ∀ j txn a, (both answered informed j).client.lookupManager.Drew txn a → a = loopbackHash := by
    rintro j txn a ⟨before, drawn⟩
    rcases drawn_once j _ drawn with other | same
    · cases other
    · exact Option.some.inj same
  exact ⟨infoHash, hex, offered alone fun j txn a b first second => (drew j txn a first).trans (drew j txn b second).symm⟩

theorem announces_are_allowed_answered : answered.Tokened ⟨loopback, 6882⟩ loopbackToken := by
  obtain ⟨threads, reach⟩ := informed_reach
  have bounded : (makeAnnouncePeer [0, 0] (nodeOf 9) loopbackHash 6881 loopbackToken true).length < 2 ^ 64 := by
    decide +kernel
  have parsed := @decodes_announcePeer quadInet 0 [0, 0] (nodeOf 9) loopbackHash 6881 loopbackToken true ⟨_, bounded⟩ rfl
  obtain ⟨_, _, _, _, tokened⟩ := announces_are_allowed (i := false) reach (List.mem_of_getElem? answered_outbox) rfl
    parsed rfl rfl
  exact tokened

end Loopback

end BittorrentClient.Dht.Network
