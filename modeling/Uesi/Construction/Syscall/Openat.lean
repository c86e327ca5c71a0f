import Uesi.Construction.Syscall.UserCopy

namespace Uesi.Files

open Library Vfs
open Syscall (CallState validateUserString copyinstr)

def atFdcwd : Int := -100

/-- What `validate_user_string` and `copyinstr` find at an address, where `none` stands for a page fault. -/
def userPath (state : CallState) (address : Nat) : Option (Except Errno Str) :=
  match (validateUserString state address vfsMaxPath).result with
  | none => none
  | some (.error code) => some (.error code)
  | some (.ok length) =>
      if length = 0 then some (.ok [])
      else (copyinstr state address vfsMaxPath).result.map (·.map (·.map UInt8.ofBitVec))

/-- This is `sys_open` with the path at an address, called by the current process with this pid. -/
def sysOpenPath (fuel pid : Nat) (state : CallState) (path : Nat) (flags mode : BitVec 32) :
    Exec (Except Errno Nat) :=
  match state.process with
  | none => return .error .esrch
  | some _ =>
      match userPath state path with
      | none => throw .danglingPointer
      | some found => sysOpen fuel pid found flags mode

/-- The addresses of the buffers of `sys_openat` on the kernel stack. -/
structure OpenatFrame where
  kpath : Nat
  absPath : Nat

def sysOpenat (fuel pid : Nat) (state : CallState) (frame : OpenatFrame) (dirfd : Int) (pathname : Nat)
    (flags mode : BitVec 32) : Exec (Except Errno Nat) :=
  match state.process with
  | none => return .error .esrch
  | some _ =>
      match userPath state pathname with
      | none => throw .danglingPointer
      | some (.error code) => return .error code
      | some (.ok kpath) =>
          if kpath = [] then return .error .einval
          -- The buffers hold the path, and `sys_open` gets their addresses.
          else if kpath.head? = some slash then sysOpenPath fuel pid state frame.kpath flags mode
          else if dirfd = atFdcwd then
            if vfsMaxPath < kpath.length + 2 then return .error .enametoolong
            else sysOpenPath fuel pid state frame.absPath flags mode
          else do
            match ← fdGetfile pid dirfd with
            | none => return .error .ebadf
            | some id =>
                let file ← readFile id
                if (← onVfs (readVnode file.vnode)).mode &&& vfsIfmt ≠ vfsIfdir then return .error .enotdir
                return .error .enotsup

end Uesi.Files
