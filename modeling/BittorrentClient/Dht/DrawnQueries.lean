import BittorrentClient.Dht.TxnRouting

namespace BittorrentClient.Dht.GetPeersLookupManager
open Cpp Machine RoutingTable

/-- The id was drawn for a query for the hash. -/
def Drew (m : GetPeersLookupManager) (txn : Txn) (infoHash : InfoHash) : Prop :=
  ∃ before, Event.drawn txn infoHash before ∈ m.history

/-- An id is bound only to a hash that it was drawn for. -/
def BoundByDrawing (m : GetPeersLookupManager) : Prop :=
  ∀ txn infoHash, m.infoHashForTxn txn = some infoHash → m.Drew txn infoHash

/-- Queries under ids that were drawn for them. -/
def Asks (selfId : NodeId) (m : GetPeersLookupManager) (outbound : List OutboundKrpc) : Prop :=
  ∀ o ∈ outbound, ∃ txn infoHash, o.msg = makeGetPeers txn selfId infoHash ∧ m.Drew txn infoHash

variable {env : Env} {m m' : GetPeersLookupManager} {infoHash : InfoHash} {txn : Txn} {outbound : List OutboundKrpc}

theorem Drew.later (drew : m.Drew txn infoHash) (kept : m.history ⊆ m'.history) : m'.Drew txn infoHash :=
  drew.imp fun _ member => kept member

theorem Asks.later {selfId : NodeId} (asks : Asks selfId m outbound) (kept : m.history ⊆ m'.history) :
    Asks selfId m' outbound := by
  intro o member
  obtain ⟨txn, infoHash, same, drew⟩ := asks o member
  exact ⟨txn, infoHash, same, drew.later kept⟩

theorem asks_nil (selfId : NodeId) (m : GetPeersLookupManager) : Asks selfId m [] := by
  intro o member
  cases member

/-- Where no id is newly bound, the bindings stay as they were drawn. -/
theorem BoundByDrawing.fewer (bound : m.BoundByDrawing) (kept : m.history ⊆ m'.history)
    (fewer : ∀ txn infoHash, m'.infoHashForTxn txn = some infoHash → m.infoHashForTxn txn = some infoHash) :
    m'.BoundByDrawing :=
  fun txn infoHash binding => (bound txn infoHash (fewer txn infoHash binding)).later kept

theorem send_drew (node : RoutingEntry) : (m.send env infoHash node).2.Drew (m.randomTxn env).1 infoHash := by
  refine ⟨m.infoHashForTxn (m.randomTxn env).1, ?_⟩
  rw [send_history]
  exact List.mem_cons_self

theorem send_kept (node : RoutingEntry) : m.history ⊆ (m.send env infoHash node).2.history := by
  rw [send_history]
  exact List.subset_cons_self _ _

theorem BoundByDrawing.send (bound : m.BoundByDrawing) (node : RoutingEntry) :
    (m.send env infoHash node).2.BoundByDrawing := by
  intro txn other binding
  rw [send_infoHashForTxn] at binding
  split at binding
  case isTrue same =>
    cases binding
    rw [same]
    exact send_drew node
  case isFalse => exact (bound txn other binding).later (send_kept node)

theorem BoundByDrawing.sendAll (bound : m.BoundByDrawing) (nodes : List RoutingEntry) :
    (m.sendAll env infoHash nodes).2.BoundByDrawing := by
  induction nodes generalizing m with
  | nil => exact bound
  | cons node rest ih => exact ih (bound.send node)

theorem sendAll_asks (nodes : List RoutingEntry) :
    Asks env.selfId (m.sendAll env infoHash nodes).2 (m.sendAll env infoHash nodes).1 := by
  induction nodes generalizing m with
  | nil => exact asks_nil _ _
  | cons node rest ih =>
    intro o member
    rcases List.mem_cons.mp member with rfl | later
    · exact ⟨(m.randomTxn env).1, infoHash, rfl, (send_drew node).later (sendAll_history rest)⟩
    · exact ih o later

theorem BoundByDrawing.act (bound : m.BoundByDrawing) (act : Act env m m') : m'.BoundByDrawing := by
  have kept := act.history_subset
  cases act with
  | read | merge | emplace => exact bound
  | @dispatch infoHash lookup count =>
    exact BoundByDrawing.sendAll (m := m.store infoHash (lookup.selectNextCandidates count).2) bound _
  | finish | abandon =>
    refine bound.fewer kept fun txn other binding => ?_
    simp only [finishLookup, close_infoHashForTxn] at binding
    split at binding
    · cases binding
    · exact binding
  | expire =>
    refine bound.fewer kept fun txn other binding => ?_
    simp only [expire, infoHashForTxn, (modify_frame _).1, UnorderedMap.lookup_erase_eq] at binding
    split at binding
    · cases binding
    · exact binding

theorem Acts.boundByDrawing (acts : Acts env m m') (bound : m.BoundByDrawing) : m'.BoundByDrawing :=
  acts.invariant (fun _ _ bound act => bound.act act) bound

theorem step_boundByDrawing {call : Call} (free : m.pit = none) (bound : m.BoundByDrawing)
    (run : m.step env call = some m') : m'.BoundByDrawing ∧ m.history ⊆ m'.history := by
  rcases step_cases free run with acts | ⟨txn, infoHash, middle, known, acts, rfl⟩
  · exact ⟨acts.boundByDrawing bound, acts.history_subset⟩
  · have answered : (m.answer txn infoHash).BoundByDrawing := by
      refine bound.fewer ?_ fun other hash binding => ?_
      · rw [answer, (modify_frame _).2.2]
        exact List.subset_cons_self _ _
      · simp only [answer, infoHashForTxn, (modify_frame _).1] at binding
        exact binding
    have later : m.history ⊆ middle.history := by
      refine List.Subset.trans ?_ acts.history_subset
      rw [answer, (modify_frame _).2.2]
      exact List.subset_cons_self _ _
    refine ⟨(acts.boundByDrawing answered).fewer (List.Subset.refl _) fun other hash binding => ?_, later⟩
    simp only [settle, infoHashForTxn, UnorderedMap.lookup_erase_eq] at binding
    split at binding
    · cases binding
    · exact binding

theorem advanceLookup_asks (env : Env) (infoHash : InfoHash) (m : GetPeersLookupManager) :
    Asks env.selfId (m.advanceLookup env infoHash).2 (m.advanceLookup env infoHash).1.outbound := by
  unfold advanceLookup
  split
  case h_1 => exact asks_nil _ _
  case h_2 lookup found =>
    split
    case h_1 => exact asks_nil _ _
    case h_2 =>
      split
      case isTrue => exact asks_nil _ _
      case isFalse =>
        dsimp only
        split
        case isTrue =>
          split
          · exact asks_nil _ _
          · exact asks_nil _ _
        case isFalse => exact sendAll_asks _

theorem resume_asks (env : Env) (infoHash : InfoHash) (m : GetPeersLookupManager) :
    Asks env.selfId (m.resume env infoHash).2 (m.resume env infoHash).1.outbound := by
  unfold resume
  split
  case h_1 => exact asks_nil _ _
  case h_2 =>
    split
    case isTrue => exact asks_nil _ _
    case isFalse =>
      split
      · exact asks_nil _ _
      · exact advanceLookup_asks env infoHash _

theorem startOrAdvance_asks (env : Env) (infoHash : InfoHash) (m : GetPeersLookupManager) :
    Asks env.selfId (m.startOrAdvance env infoHash).2 (m.startOrAdvance env infoHash).1.outbound := by
  unfold startOrAdvance
  dsimp only
  split
  case isTrue => exact asks_nil _ _
  case isFalse =>
    split
    · exact advanceLookup_asks env infoHash _
    · exact resume_asks env infoHash _

theorem onResponse_asks (env : Env) (msg : KrpcMessage) (m : GetPeersLookupManager) :
    Asks env.selfId (m.onResponse env msg).2 (m.onResponse env msg).1.outbound := by
  unfold onResponse
  split
  case h_1 => exact asks_nil _ _
  case h_2 infoHash known =>
    have responding : Asks env.selfId ((m.hold msg.txn).respond env msg infoHash).2
        ((m.hold msg.txn).respond env msg infoHash).1.outbound := by
      unfold respond
      split
      case isTrue => exact asks_nil _ _
      case isFalse =>
        dsimp only
        split
        · exact asks_nil _ _
        · exact advanceLookup_asks env infoHash _
    exact responding

theorem advanceAll_asks (env : Env) (hashes : List InfoHash) (m : GetPeersLookupManager) :
    Asks env.selfId (m.advanceAll env hashes).2 (m.advanceAll env hashes).1 := by
  induction hashes generalizing m with
  | nil => exact asks_nil _ _
  | cons hash rest ih =>
    intro o member
    rcases List.mem_append.mp member with here | later
    · exact ((advanceLookup_asks env hash m).later (advanceAll_acts env rest _).history_subset) o here
    · exact ih _ o later

theorem tick_asks (env : Env) (hashes : List InfoHash) (m : GetPeersLookupManager)
    {result : List OutboundKrpc × GetPeersLookupManager}
    (ticked : m.tick env hashes = some result) : Asks env.selfId result.2 result.1 := by
  simp only [tick] at ticked
  split at ticked
  case isTrue =>
    cases Option.some.inj ticked
    exact advanceAll_asks env hashes _
  case isFalse => cases ticked

end BittorrentClient.Dht.GetPeersLookupManager
