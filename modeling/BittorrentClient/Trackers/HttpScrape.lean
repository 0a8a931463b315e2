import BittorrentClient.Trackers.HttpResponse

namespace BittorrentClient.HttpTracker
open Cpp Bencode
open TorrentFile (getInteger_eq_ok)

structure TrackerScrapeStats where
  complete : UInt64
  incomplete : UInt64
  downloaded : Option UInt64

def completeKey : Bytes := text ['c', 'o', 'm', 'p', 'l', 'e', 't', 'e']

def incompleteKey : Bytes := text ['i', 'n', 'c', 'o', 'm', 'p', 'l', 'e', 't', 'e']

def downloadedKey : Bytes := text ['d', 'o', 'w', 'n', 'l', 'o', 'a', 'd', 'e', 'd']

def downloadKey : Bytes := text ['d', 'o', 'w', 'n', 'l', 'o', 'a', 'd']

section Stats
variable {fileStats dict : List (Bytes × BType)} {key : Bytes} {count : Option UInt64} {stats : TrackerScrapeStats}
  {infoHash : InfoHash} {body : Metadata}

/-- What a dictionary gives as a count, modulo `2 ^ 64`, or that it gives none. -/
inductive Counts (fileStats : List (Bytes × BType)) (key : Bytes) : Option UInt64 → Prop
  | nothing : mapFind key fileStats = none → Counts fileStats key none
  | given {value} : mapFind key fileStats = some (.integer value) → Counts fileStats key (some value.toUInt64)

/-- The counts of a torrent's entry. -/
structure Tells (fileStats : List (Bytes × BType)) (stats : TrackerScrapeStats) : Prop where
  complete : ∃ count, Counts fileStats completeKey count ∧ stats.complete = count.getD 0
  incomplete : ∃ count, Counts fileStats incompleteKey count ∧ stats.incomplete = count.getD 0
  downloaded : Counts fileStats downloadedKey stats.downloaded ∧ stats.downloaded ≠ none ∨
    mapFind downloadedKey fileStats = none ∧ Counts fileStats downloadKey stats.downloaded

end Stats

end BittorrentClient.HttpTracker
