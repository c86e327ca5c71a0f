import Uesi.Construction.Vfs.Tmpfs
import Uesi.Library.Words

namespace Uesi.Vfs

open Library

def vfsMaxSymlinkDepth : Nat := 8

/-- The length of the array `components` of `vfs_lookup_internal`. -/
def maxComponents : Nat := 64

def dentryHashSize : Nat := 512

/-- This is `dentry_hash_func`, in which a `char` is signed. -/
def dentryHashFunc (path : Str) : Nat :=
  let hash := path.foldl (fun (hash : BitVec 32) byte =>
    (hash <<< 5) + hash + byte.toBitVec.signExtend 32) 5381
  hash.toNat % dentryHashSize

/-- The loop of `vfs_dentry_lookup`. -/
def findDentry (path : Str) : List Dentry → Option Dentry
  | [] => none
  | dentry :: rest => if dentry.name = path then some dentry else findDentry path rest

def vfsDentryLookup (path : Str) : Exec (Option Dentry) := do
  return findDentry path ((← get).dentryHash (dentryHashFunc path))

/-- This stores a chain of the dentry cache. -/
def writeChain (hash : Nat) (chain : List Dentry) : Exec Unit :=
  modify fun state => { state with dentryHash := Function.update state.dentryHash hash chain }

def vfsDentryAdd (path : Str) (vnode : VnodeId) : Exec Unit := do
  vfsVnodeRef vnode
  let hash := dentryHashFunc path
  writeChain hash (⟨path, vnode⟩ :: (← get).dentryHash hash)

/-- The loop of `vfs_dentry_remove`. -/
def unlinkDentry (path : Str) : List Dentry → Option (Dentry × List Dentry) := unlinkNamed Dentry.name path

def vfsDentryRemove (path : Str) : Exec Unit := do
  let hash := dentryHashFunc path
  match unlinkDentry path ((← get).dentryHash hash) with
  | none => return ()
  | some (dentry, rest) =>
      writeChain hash rest
      vfsVnodeUnref dentry.vnode

/-- The strings that `strtok` finds behind the first byte of a path, up to the size of the array. -/
def splitComponents (normalized : Str) : List Str :=
  (wordsOf slash (normalized.drop 1)).take maxComponents

/-- The loop that builds `parent_path` from the components before a link. -/
def appendComponents : Str → List Str → Except Errno Str
  | path, [] => .ok path
  | path, component :: rest =>
      if vfsMaxPath ≤ path.length + component.length + 2 then .error .enametoolong
      else if 1 < path.length then appendComponents (path ++ slash :: component) rest
      else appendComponents (path ++ component) rest

/-- The path that a link in the directory behind the components stands for. -/
def linkPath (before : List Str) (target : Str) : Except Errno Str :=
  if target.head? = some slash then .ok target
  else do
    let path ← appendComponents [slash] before
    if vfsMaxPath ≤ path.length + target.length + 2 then .error .enametoolong
    else if 1 < path.length then return path ++ slash :: target
    else return path ++ target

/-- The test `(v_mode & VFS_IFMT) == type`. -/
def Vnode.hasType (vnode : Vnode) (type : BitVec 32) : Bool := vnode.mode &&& vfsIfmt == type

/-- The loop of `vfs_lookup_internal` over the components, where `lookup` is the recursive call. -/
def walkComponents (lookup : Str → Exec (Except Errno VnodeId)) (followFinal : Bool) :
    List Str → List Str → Nat → VnodeId → Exec (Except Errno VnodeId)
  | _, [], _, current => return .ok current
  | before, component :: rest, depth, current => do
      if !(← readVnode current).hasType vfsIfdir then
        vfsVnodeUnref current
        return .error .enotdir
      let found ← tmpfsLookup current component
      vfsVnodeUnref current
      match found with
      | .error code => return .error code
      | .ok next =>
          if !(← readVnode next).hasType vfsIflnk then
            walkComponents lookup followFinal (before ++ [component]) rest depth next
          else if rest = [] ∧ followFinal = false then return .ok next
          else if vfsMaxSymlinkDepth ≤ depth then
            vfsVnodeUnref next
            return .error .eloop
          else
            let target ← tmpfsReadlink next vfsMaxPath
            vfsVnodeUnref next
            match target.bind (linkPath before) with
            | .error code => return .error code
            | .ok path =>
                match ← lookup path with
                | .error code => return .error code
                | .ok current =>
                    walkComponents lookup followFinal (before ++ [component]) rest (depth + 1) current

/-- This calls `vfs_normalize_path` with a buffer on the stack. -/
def normalizePath (path : Str) : Exec (Except Errno Str) := do
  match vfsNormalizePath (some path) (some fun _ => 0) with
  | .ok out => return .ok out.text
  | .error (.errno code) => return .error code
  | .error .outOfBounds => throw .outOfBounds

/-- The cache is asked only when a final link is followed. -/
def cachedDentry (normalized : Str) : Bool → Exec (Option Dentry)
  | true => vfsDentryLookup normalized
  | false => return none

/-- The part of `vfs_lookup_internal` behind a miss of the cache. -/
def walkPath (lookup : Str → Exec (Except Errno VnodeId)) (root : VnodeId) (normalized : Str)
    (followFinal : Bool) : Exec (Except Errno VnodeId) := do
  vfsVnodeRef root
  if normalized = [slash] ∨ splitComponents normalized = [] then return .ok root
  match ← walkComponents lookup followFinal [] (splitComponents normalized) 0 root with
  | .error code => return .error code
  | .ok current =>
      if followFinal then vfsDentryAdd normalized current
      return .ok current

/-- This is `vfs_lookup_internal`, whose recursion over symbolic links the fuel bounds. -/
def vfsLookupInternal : Nat → Str → Bool → Exec (Except Errno VnodeId)
  | 0, _, _ => throw .outOfFuel
  | fuel + 1, path, followFinal => do
      if !vfsIsAbsolutePath (some path) then return .error .einval
      match (← get).root with
      | none => return .error .enoent
      | some root =>
          match ← normalizePath path with
          | .error code => return .error code
          | .ok normalized =>
              match ← cachedDentry normalized followFinal with
              | some dentry =>
                  vfsVnodeRef dentry.vnode
                  return .ok dentry.vnode
              | none => walkPath (vfsLookupInternal fuel · true) root normalized followFinal

def vfsLookup (fuel : Nat) (path : Str) : Exec (Except Errno VnodeId) :=
  vfsLookupInternal fuel path true

end Uesi.Vfs
