import PersonaOS.Foundation.Program

/-! # The file-system interface

Every file system implements `trait Inode`; `Inode` below is its table of methods over
the state of a file system and its handles. A session is a file system together with the
handles obtained from it so far. Its calls name a handle by its position among them, so
the same calls can be issued to any two implementations. -/

namespace PersonaOS.Fs

open Program

inductive InodeKind where
  | file
  | dir
  deriving DecidableEq, Repr

inductive FsError where
  | notFound
  | notDir
  | notFile
  | exists_
  | invalidPath
  | isDir
  | io
  | noSpace
  | badFd
  | unsupported
  deriving DecidableEq, Repr

/-- `trait Inode`. What `read_at` puts into its buffer is returned as a list, and the byte
count it returns is the length of that list. -/
structure Inode (σ H : Type) where
  kind : H → σ → InodeKind
  size : H → σ → Nat
  readAt : H → (off len : Nat) → Program σ FsError (List UInt8)
  writeAt : H → (off : Nat) → (buf : List UInt8) → Program σ FsError Nat
  lookup : H → (name : String) → Program σ FsError H
  readdir : H → Program σ FsError (List (String × InodeKind))
  create : H → (name : String) → InodeKind → Program σ FsError H
  unlink : H → (name : String) → Program σ FsError PUnit

/-! ## Sessions -/

inductive Method where
  | kind
  /-- `kind()` and `size()` -/
  | stat
  | readAt (off len : Nat)
  | writeAt (off : Nat) (buf : List UInt8)
  | lookup (name : String)
  | readdir
  | create (name : String) (kind : InodeKind)
  | unlink (name : String)

/-- A method of the handle that was obtained as number `handle`. -/
structure Call where
  handle : Nat
  method : Method

inductive Reply where
  | kind (kind : InodeKind)
  | stat (kind : InodeKind) (size : Nat)
  | bytes (bytes : List UInt8)
  | count (count : Nat)
  /-- A handle, which the session keeps as its latest one. -/
  | handle
  | listing (entries : List (String × InodeKind))
  | done

structure Session (σ H : Type) where
  fs : σ
  handles : List H

namespace Inode

variable {σ H : Type}

def onFs {α : Type} (program : Program σ FsError α) : Program (Session σ H) FsError α :=
  fun session =>
    match program session.fs with
    | .ok value fs => .ok value { session with fs }
    | .error error fs => .error error { session with fs }
    | .panic => .panic

def keepHandle (handle : H) : Program (Session σ H) FsError Reply := do
  modify fun session => { session with handles := session.handles ++ [handle] }
  return .handle

variable (inode : Inode σ H)

def invoke (handle : H) : Method → Program (Session σ H) FsError Reply
  | .kind => do
      let session ← get
      return .kind (inode.kind handle session.fs)
  | .stat => do
      let session ← get
      return .stat (inode.kind handle session.fs) (inode.size handle session.fs)
  | .readAt off len => do
      let bytes ← onFs (inode.readAt handle off len)
      return .bytes bytes
  | .writeAt off buf => do
      let count ← onFs (inode.writeAt handle off buf)
      return .count count
  | .lookup name => do
      let child ← onFs (inode.lookup handle name)
      keepHandle child
  | .readdir => do
      let entries ← onFs (inode.readdir handle)
      return .listing entries
  | .create name kind => do
      let child ← onFs (inode.create handle name kind)
      keepHandle child
  | .unlink name => do
      onFs (inode.unlink handle name)
      return .done

def perform (call : Call) : Program (Session σ H) FsError Reply := do
  let session ← get
  let handle ← okOr session.handles[call.handle]? .badFd
  inode.invoke handle call.method

end Inode

/-! ## Trees -/

inductive Tree where
  | empty
  | file (name : String) (bytes : List UInt8) (rest : Tree)
  | dir (name : String) (sub : Tree) (rest : Tree)
  deriving DecidableEq

namespace Tree

def depth : Tree → Nat
  | .empty => 1
  | .file _ _ rest => rest.depth
  | .dir _ sub rest => max (sub.depth + 1) rest.depth

def names : Tree → List String
  | .empty => []
  | .file name _ rest => name :: rest.names
  | .dir name _ rest => name :: rest.names

/-- Each directory has distinct names of 1 to 65535 bytes. -/
def ValidNames : Tree → Prop
  | .empty => True
  | .file name _ rest =>
    name ∉ rest.names ∧ (1 ≤ name.utf8ByteSize ∧ name.utf8ByteSize ≤ 65535) ∧ rest.ValidNames
  | .dir name sub rest =>
    name ∉ rest.names ∧ (1 ≤ name.utf8ByteSize ∧ name.utf8ByteSize ≤ 65535) ∧
      sub.ValidNames ∧ rest.ValidNames

instance decidableValidNames : (tree : Tree) → Decidable tree.ValidNames
  | .empty => .isTrue trivial
  | .file _ _ rest =>
    have := decidableValidNames rest
    inferInstanceAs (Decidable (_ ∧ _ ∧ _))
  | .dir _ sub rest =>
    have := decidableValidNames sub
    have := decidableValidNames rest
    inferInstanceAs (Decidable (_ ∧ _ ∧ _ ∧ _))

end Tree

namespace Inode

variable {σ H : Type} (inode : Inode σ H)

/-- Look every listed name up and collect what is there. The kind in the listing has to be
that of the inode, and a file has to have as many bytes as its size says. -/
def walkEntries (walk : H → Program σ FsError Tree) (dir : H) :
    List (String × InodeKind) → Program σ FsError Tree
  | [] => pure .empty
  | (name, kind) :: entries => do
      let child ← inode.lookup dir name
      let fs ← get
      if inode.kind child fs = kind then
        match kind with
        | .file =>
          let bytes ← inode.readAt child 0 (inode.size child fs)
          if bytes.length = inode.size child fs then
            let rest ← walkEntries walk dir entries
            return .file name bytes rest
          else
            throw .io
        | .dir =>
          let sub ← walk child
          let rest ← walkEntries walk dir entries
          return .dir name sub rest
      else
        throw .io

/-- Everything below a directory, as deep as `fuel` says. -/
def walk : (fuel : Nat) → H → Program σ FsError Tree
  | 0, _ => throw .unsupported
  | fuel + 1, dir => do
      let entries ← inode.readdir dir
      inode.walkEntries (walk fuel) dir entries

end Inode

end PersonaOS.Fs
