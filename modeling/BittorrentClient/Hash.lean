import BittorrentClient.Library.Decimal

namespace BittorrentClient
open Cpp

/-- `crypto::SHA1Hash`. -/
structure Sha1Hash where
  bytes : Bytes
  length_eq : bytes.length = 20
  deriving DecidableEq

/-- The SHA-1 of an info dictionary, 20 raw bytes. -/
structure InfoHash where
  bytes : Bytes
  length_eq : bytes.length = 20

theorem InfoHash.bytes_injective : Function.Injective InfoHash.bytes := by
  rintro ⟨_, _⟩ ⟨_, _⟩ ⟨⟩
  rfl

instance : DecidableEq InfoHash := InfoHash.bytes_injective.decidableEq

/-- `InfoHash::try_from_raw`. -/
def InfoHash.tryFromRaw (raw : Bytes) : Option InfoHash :=
  if sized : raw.length = 20 then some ⟨raw, sized⟩ else none

/-- `hex`, two digits a byte. -/
def InfoHash.hex (hash : InfoHash) : Bytes :=
  hash.bytes.flatMap fun byte => text [Nat.digitChar (byte.toNat / 16), Nat.digitChar (byte.toNat % 16)]

end BittorrentClient
