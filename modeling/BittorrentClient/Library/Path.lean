import BittorrentClient.Library.Decimal

namespace Cpp

/-- A POSIX `std::filesystem::path`, by its native text. -/
structure Path where
  native : Bytes
  deriving DecidableEq

namespace Path

def isAbsolute (p : Path) : Bool := p.native.head? == some 47

def hasFilename (p : Path) : Bool := !p.native.isEmpty && p.native.getLast? != some 47

/-- `operator/`: an absolute right operand replaces the left one; otherwise a
separator is put in unless the left one is empty or already ends with one. -/
def append (p q : Path) : Path :=
  if q.isAbsolute then q
  else if p.hasFilename then ⟨p.native ++ 47 :: q.native⟩
  else ⟨p.native ++ q.native⟩

instance : Div Path := ⟨append⟩

end Path

end Cpp
