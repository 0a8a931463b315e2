import BittorrentClient.Library.PathNormal
import Mathlib.Data.List.Infix
import Mathlib.Logic.Function.Basic

namespace Cpp

/-- Where a file or a directory is: the names on the way to it from the root. -/
abbrev Place := List Bytes

namespace Path

/-- What a system call reads of a path: its text up to the first zero byte. -/
def cString (p : Path) : Path := ⟨p.native.takeWhile (· != 0)⟩

/-- The directories that a path goes through: its text up to each of its separators. -/
def directories (p : Path) : List Path := (p.native.inits.filter fun front => front.getLast? == some 47).map Path.mk

/-- Where a path leads to. A relative one starts in the working directory. -/
def place (cwd : Place) (p : Path) : Place :=
  p.cString.components.foldl (resolve true) (if p.cString.isAbsolute then [] else cwd)

end Path

/-- A tree of directories and files, without links. -/
structure FileTree where
  cwd : Place
  directories : Place → Bool
  files : Place → Option Bytes

namespace FileTree

def place (tree : FileTree) (path : Path) : Place := path.place tree.cwd

/-- The working directory and all above it are always there. -/
def isDirectory (tree : FileTree) (place : Place) : Bool := place.isPrefixOf tree.cwd || tree.directories place

/-- A path leads through directories only, and not to one. -/
def opens (tree : FileTree) (path : Path) : Bool :=
  path.cString.directories.all (fun dir => tree.isDirectory (tree.place dir)) && !tree.isDirectory (tree.place path)

/-- The bytes behind a path, if it leads to a file. -/
def content (tree : FileTree) (path : Path) : Option Bytes := if tree.opens path then tree.files (tree.place path) else none

/-- The file at the end of a path gets this content. -/
def store (tree : FileTree) (path : Path) (content : Bytes) : FileTree :=
  { tree with files := Function.update tree.files (tree.place path) (some content) }

/-- An empty file in place of what is at the end of a path. -/
def create (tree : FileTree) (path : Path) : Option FileTree := if tree.opens path then some (tree.store path []) else none

/-- `mkdir` of one path after the other, unless it is a directory already. -/
def makeDirectories (refused : Path → Bool) : List Path → FileTree → FileTree × Bool
  | [], tree => (tree, true)
  | path :: rest, tree =>
    if tree.isDirectory (tree.place path) then makeDirectories refused rest tree
    else if (tree.files (tree.place path)).isSome || refused path then (tree, false)
    else makeDirectories refused rest { tree with directories := Function.update tree.directories (tree.place path) true }

/-- Two trees with the same directories, seen from the same one. -/
structure Alike (tree other : FileTree) : Prop where
  cwd : tree.cwd = other.cwd
  directories : tree.directories = other.directories

variable {tree other : FileTree} {path : Path} {bytes new : Bytes}

@[simp] theorem store_cwd : (tree.store path new).cwd = tree.cwd := rfl

@[simp] theorem store_directories : (tree.store path new).directories = tree.directories := rfl

@[simp] theorem store_place (path' : Path) : (tree.store path new).place path' = tree.place path' := rfl

theorem store_files (place : Place) :
    (tree.store path new).files place = if place = tree.place path then some new else tree.files place :=
  Function.update_apply ..

theorem Alike.refl (tree : FileTree) : tree.Alike tree := ⟨rfl, rfl⟩

theorem Alike.trans {last : FileTree} (first : tree.Alike other) (second : other.Alike last) : tree.Alike last :=
  ⟨first.cwd.trans second.cwd, first.directories.trans second.directories⟩

theorem Alike.symm (alike : tree.Alike other) : other.Alike tree := ⟨alike.cwd.symm, alike.directories.symm⟩

theorem Alike.place (alike : tree.Alike other) (path : Path) : tree.place path = other.place path := by
  rw [FileTree.place, FileTree.place, alike.cwd]

theorem Alike.opens (alike : tree.Alike other) (path : Path) : tree.opens path = other.opens path := by
  simp only [FileTree.opens, isDirectory, FileTree.place, alike.cwd, alike.directories]

/-- A path leads to the same content if the files at its end are the same. -/
theorem Alike.content (alike : tree.Alike other) (same : tree.files (tree.place path) = other.files (tree.place path)) :
    tree.content path = other.content path := by
  rw [FileTree.content, FileTree.content, alike.opens, same, alike.place]

theorem store_alike : (tree.store path new).Alike tree := ⟨rfl, rfl⟩

theorem content_eq_some : tree.content path = some bytes ↔ tree.opens path = true ∧ tree.files (tree.place path) = some bytes := by
  rw [FileTree.content]
  split
  case isTrue opens => simp only [opens, true_and]
  case isFalse closed => simp only [closed, Bool.false_eq_true, false_and, reduceCtorEq]

theorem content_store_of_opens (opens : tree.opens path = true) : (tree.store path new).content path = some new :=
  content_eq_some.mpr ⟨opens, Function.update_self ..⟩

theorem content_store_self (found : tree.content path = some bytes) : (tree.store path new).content path = some new :=
  content_store_of_opens (content_eq_some.mp found).1

/-- A file is not changed by what is stored in another one. -/
theorem content_store_other {path' : Path} (apart : tree.place path' ≠ tree.place path) :
    (tree.store path new).content path' = tree.content path' :=
  store_alike.content (Function.update_of_ne apart ..)

/-- What becomes of a tree when directories are made: nothing that was there is lost. -/
structure Grown (tree other : FileTree) : Prop where
  cwd : other.cwd = tree.cwd
  files : other.files = tree.files
  more : ∀ place, tree.isDirectory place = true → other.isDirectory place = true
  free : ∀ place, (tree.files place).isSome = true → other.isDirectory place = tree.isDirectory place

theorem Grown.refl (tree : FileTree) : tree.Grown tree := ⟨rfl, rfl, fun _ => id, fun _ _ => rfl⟩

theorem Grown.trans {last : FileTree} (first : tree.Grown other) (second : other.Grown last) : tree.Grown last where
  cwd := second.cwd.trans first.cwd
  files := second.files.trans first.files
  more place here := second.more place (first.more place here)
  free place occupied := (second.free place (first.files ▸ occupied)).trans (first.free place occupied)

theorem Grown.place (grown : tree.Grown other) (path : Path) : other.place path = tree.place path := by
  rw [FileTree.place, FileTree.place, grown.cwd]

theorem Grown.content (grown : tree.Grown other) (found : tree.content path = some bytes) :
    other.content path = some bytes := by
  obtain ⟨opens, here⟩ := content_eq_some.mp found
  rw [FileTree.opens, Bool.and_eq_true, List.all_eq_true, Bool.not_eq_true'] at opens
  refine content_eq_some.mpr ⟨?_, by rw [grown.place, grown.files, here]⟩
  rw [FileTree.opens, Bool.and_eq_true, List.all_eq_true, Bool.not_eq_true']
  constructor
  · intro dir through
    rw [grown.place]
    exact grown.more _ (opens.1 dir through)
  · rw [grown.place, grown.free _ (by rw [here]; rfl)]
    exact opens.2

theorem makeDirectories_grown {refused : Path → Bool} {paths : List Path} (tree : FileTree) :
    tree.Grown (makeDirectories refused paths tree).1 := by
  induction paths generalizing tree with
  | nil => exact Grown.refl tree
  | cons path rest ih =>
    rw [makeDirectories]
    split
    case isTrue => exact ih tree
    case isFalse missing =>
      split
      case isTrue => exact Grown.refl tree
      case isFalse free =>
        have first : tree.Grown { tree with directories := Function.update tree.directories (tree.place path) true } := by
          refine ⟨rfl, rfl, fun place here => ?_, fun place occupied => ?_⟩
          · simp only [isDirectory, Bool.or_eq_true, Function.update_apply] at here ⊢
            split
            case isTrue => exact Or.inr rfl
            case isFalse => exact here
          · have elsewhere : place ≠ tree.place path := by
              rintro rfl
              simp only [occupied, Bool.true_or, not_true_eq_false] at free
            simp only [isDirectory, Function.update_of_ne elsewhere]
        exact first.trans (ih _)

end FileTree

end Cpp
