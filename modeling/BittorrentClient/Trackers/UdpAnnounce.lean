import BittorrentClient.Trackers.UdpExchange

namespace BittorrentClient.UdpTracker
open Cpp

/-- What comes of one address: its family, the numbers drawn, what arrives, and how many
rounds of sending and receiving the socket works for, if it throws at all. -/
structure Attempt where
  isIpv6 : Bool
  drawn : Drawn
  events : Nat → Event
  breaks : Option Nat

/-- The exceptions that the loop over the addresses catches. -/
inductive AddressError
  | socket
  | exchange (error : UdpError)

/-- The exceptions of `announce`, with the values their texts carry. -/
inductive AnnounceError
  | notUdp (tracker : TrackerDetails)
  | noAddress (hostname : Bytes)
  | exhausted (hostname : Bytes) (lastError : Option AddressError)

/-- What the loop sees of an exchange; `none` is a read outside the datagram. -/
def Result.outcome : Result → Option (Except AddressError (List PeerAddress))
  | .outside => none
  | .throws error => some (.error (.exchange error))
  | .peers found => some (.ok found)

/-- One round of the loop over the addresses. -/
def Attempt.outcome (ntop : Bytes → Bytes) (a : Announce) (attempt : Attempt) : Option (Except AddressError (List PeerAddress)) :=
  let (sent, result) := tryAnnounceTo ntop attempt.isIpv6 a attempt.drawn attempt.events
  if attempt.breaks.any (· < sent.length) then some (.error .socket) else result.outcome

/-- The loop over the addresses that are left. -/
def tryAddresses (ntop : Bytes → Bytes) (a : Announce) (hostname : Bytes) (lastError : Option AddressError) :
    List Attempt → Option (Except AnnounceError (List PeerAddress))
  | [] => some (.error (.exhausted hostname lastError))
  | attempt :: rest =>
    match attempt.outcome ntop a with
    | none => none
    | some (.ok peers) => some (.ok peers)
    | some (.error error) => tryAddresses ntop a hostname (some error) rest

/-- The addresses are what `dns_lookup` gives. -/
def announce (ntop : Bytes → Bytes) (tracker : TrackerDetails) (a : Announce) (addresses : List Attempt) :
    Option (Except AnnounceError (List PeerAddress)) :=
  if tracker.protocol ≠ .udp then some (.error (.notUdp tracker))
  else if addresses.isEmpty then some (.error (.noAddress tracker.hostname))
  else tryAddresses ntop a tracker.hostname none addresses

/-- All attempts of a loop before the one numbered `k` receive nothing of interest, and
that one receives the datagram. -/
structure Awaits (least : Nat) (transactionId : UInt32) (events : Nat → Event) (used k : Nat) (data : Bytes) : Prop where
  within : k < maxRetransmissions + 1
  before : ∀ j < k, quiet least transactionId (events (used + j)) = true
  here : events (used + k) = .datagram data

section Loop
variable {α : Type} {judge : Event → Verdict α} {events : Nat → Event} {left used total : Nat}

end Loop

section Judged
variable {α : Type} {least action : Nat} {value : Bytes → α} {transactionId : UInt32} {event : Event}

variable {events : Nat → Event} {used total : Nat}

end Judged

section Exchange
variable {a : Announce} {drawn : Drawn} {connect : Event → Verdict Nat} {announce : Event → Verdict (List PeerAddress)}
  {events : Nat → Event} {sent : List Bytes}

end Exchange

section Addresses
variable {ntop : Bytes → Bytes} {a : Announce} {attempt : Attempt} {peers : List PeerAddress} {sent : List Bytes}

variable {addresses : List Attempt} {something : Attempt → Prop} {tracker : TrackerDetails}

end Addresses

end BittorrentClient.UdpTracker
