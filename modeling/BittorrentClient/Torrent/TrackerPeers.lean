import BittorrentClient.Trackers.HttpResponse
import BittorrentClient.Trackers.UdpAnnounce

namespace BittorrentClient.TorrentManager
open Cpp

inductive TrackerEvent
  | none
  | completed
  | started
  | stopped

def TrackerEvent.value : TrackerEvent → UInt32
  | .none => 0
  | .completed => 1
  | .started => 2
  | .stopped => 3

/-- The communicators that `create_communicator` makes. -/
inductive Communicator
  | udp
  | http

def createCommunicator : TrackerProtocol → Communicator
  | .udp => .udp
  | .http => .http
  | .https => .http

/-- What an announce reads of a torrent and its manager; `start` makes the communicator for
the torrent's tracker. -/
structure Announcer where
  tracker : TrackerDetails
  infoHash : InfoHash
  totalSize : UInt64
  mPeerId : PeerId
  mPort : UInt16
  mTracker : Option Communicator
  suits : ∀ communicator ∈ mTracker, communicator = createCommunicator tracker.protocol

/-- What the addresses of the tracker do, as streams or with datagrams. -/
structure Line where
  streams : List HttpTracker.Attempt
  datagrams : List UdpTracker.Attempt

namespace Announcer

theorem suits_created (protocol : TrackerProtocol) :
    ∀ communicator ∈ some (createCommunicator protocol), communicator = createCommunicator protocol :=
  fun _ made => (Option.mem_some.mp made).symm

/-- What `start` prepares before its announce. -/
def start (m : Announcer) (peerId : PeerId) : Announcer :=
  ⟨m.tracker, m.infoHash, m.totalSize, peerId, m.mPort, some (createCommunicator m.tracker.protocol),
    suits_created m.tracker.protocol⟩

/-- What is left to download. -/
def left (m : Announcer) (downloaded : UInt64) : UInt64 := if downloaded ≤ m.totalSize then m.totalSize - downloaded else 0

/-- The numbers of an announce. What was uploaded is not counted. -/
def request (m : Announcer) (downloaded : UInt64) (event : TrackerEvent) : UdpTracker.Announce :=
  ⟨m.infoHash, m.mPeerId, downloaded, m.left downloaded, 0, event.value, m.mPort⟩

/-- `TorrentManager::announce`; `none` is a read outside a datagram. -/
def announce (m : Announcer) (inet : Inet) (ntop : Bytes → Bytes) (downloaded : UInt64) (event : TrackerEvent) (line : Line) :
    Option (List PeerAddress) :=
  match m.mTracker with
  | none => some []
  | some .udp =>
    (UdpTracker.announce ntop m.tracker (m.request downloaded event) line.datagrams).map fun result => result.toOption.getD []
  | some .http =>
    some ((HttpTracker.announce inet m.tracker m.infoHash m.mPeerId downloaded (m.left downloaded) 0 event.value m.mPort
      line.streams).toOption.getD [])

variable {m : Announcer} {inet : Inet} {ntop : Bytes → Bytes} {downloaded : UInt64} {event : TrackerEvent} {line : Line}
  {peers : List PeerAddress}

/-- A response that comes after a timeout and a datagram of the other request. -/
example :
    let m : Announcer :=
      { tracker := ⟨.udp, [], 6969, []⟩, infoHash := ⟨List.replicate 20 1, rfl⟩, totalSize := 100,
        mPeerId := ⟨List.replicate 20 2, rfl⟩, mPort := 6881, mTracker := none, suits := fun _ made => nomatch made }
    let attempt : UdpTracker.Attempt :=
      { isIpv6 := false, drawn := ⟨7, 8, 9⟩, breaks := none,
        events := fun round => [.timeout, .datagram (writeBe32 0 ++ writeBe32 7 ++ writeBe64 5),
          .datagram (writeBe32 1 ++ writeBe32 7 ++ List.replicate 12 0),
          .datagram (writeBe32 1 ++ writeBe32 8 ++ List.replicate 12 0 ++ [1, 2, 3, 4] ++ writeBe16 6881)].getD round .timeout }
    (m.start ⟨List.replicate 20 3, rfl⟩).announce ⟨fun _ => none, InAddr.bytes⟩ id 0 .started ⟨[], [attempt]⟩ =
      some [⟨text ['1', '.', '2', '.', '3', '.', '4'], 6881⟩] := by
  decide +kernel

end Announcer

end BittorrentClient.TorrentManager
