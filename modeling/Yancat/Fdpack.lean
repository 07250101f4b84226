import Yancat.Options

/-!
# Endpoints of a transfer

The three constructors of an endpoint, with what the system answers them, and the
setup of both sides. The messages of a constructor are not kept, nor is the
system call that opens a file or connects a socket later on.
-/

namespace Yancat.Fdpack

open Strings Common Parse Options

/-- How a descriptor is open. -/
inductive AccMode
  /-- For reading only. -/
  | rdonly
  /-- For writing only. -/
  | wronly
  /-- For both. -/
  | rdwr
  deriving DecidableEq

/-- The entry of a host. -/
structure Hostent where
  /-- Length of an address. -/
  hLength : ℕ
  /-- Kind of the addresses. -/
  hAddrtype : ℕ
  /-- The first address. -/
  addr : BitVec 32

/-- Addresses of version four. -/
def afInet : ℕ := 2

/-- The length of such an address. -/
def sAddrSize : ℕ := 4

/-- What the system answers while a side is set up. -/
structure Sys where
  /-- How a descriptor is open, unless it is invalid. -/
  fcntl : BitVec 32 → Option AccMode
  /-- The limit for a path, and whether `errno` is set. -/
  pathconf : List Char → ℤ×Bool
  /-- Memory for a path. -/
  malloc : Bool
  /-- The entry of a host. -/
  gethostbyname : List Char → Option Hostent

/-- A network address. -/
structure SockaddrIn where
  /-- The port. -/
  port : BitVec 16
  /-- The address, zero for any. -/
  addr : BitVec 32
  deriving DecidableEq

/-- The type of an endpoint, with its part of the union. -/
inductive FdtypeS
  /-- A descriptor. -/
  | fdfd
  /-- A file. -/
  | fdfile (path : List Char)
  /-- A socket, which may wait for whole messages. -/
  | fdsock (saddr : SockaddrIn) (np : NetpntS) (waitall : Bool)
  deriving DecidableEq

/-- `struct fdpack_s`. -/
structure FdpackS where
  /-- The type. -/
  type : FdtypeS
  /-- The descriptor, minus one when there is none yet. -/
  fd : BitVec 32
  /-- The side. -/
  dir : Dir
  /-- Synchronised at the end. -/
  sync : Bool
  deriving DecidableEq

/-- `get_pathmax`. -/
def getPathmax (S : Sys) (path : List Char) : ℕ :=
  let pathmax := S.pathconf path
  if pathmax.1<0 ∧ pathmax.2=true then 256
  else if pathmax.1<0 ∨ 4096<pathmax.1 then 4096
  else pathmax.1.toNat

/-- `fd_ctor`. -/
def fdCtor (S : Sys) (dir : Dir) (fdstr : Option (List Char)) (sync : Bool) : Option FdpackS :=
  fdstr.bind fun t =>
    let r := getUl t
    let fdnbr := BitVec.ofNat 32 r.1
    if r.2≠none then none
    else
      (S.fcntl fdnbr).bind fun acc =>
        if dir=.out ∧ acc=.rdonly then none
        else if dir=.inp ∧ acc=.wronly then none
        else some ⟨.fdfd,fdnbr,dir,sync && dir=.out⟩

/-- `fd_ctor_f`. -/
def fdCtorF (S : Sys) (dir : Dir) (path : Option (List Char)) (sync : Bool) : Option FdpackS :=
  path.bind fun p =>
    if getPathmax S p ≤ p.length then none
    else if S.malloc=false then none
    else some ⟨.fdfile p,-1,dir,sync && dir=.out⟩

/-- `fd_ctor_s`. -/
def fdCtorS (S : Sys) (dir : Dir) (np : NetpntS) (msgwait : Bool) : Option FdpackS :=
  if np.dom=0 then none
  else if np.host≠[] ∧ np.host≠['*'] then
    (S.gethostbyname np.host).bind fun hent =>
      if hent.hLength≠sAddrSize ∨ hent.hAddrtype≠afInet then none
      else some ⟨.fdsock ⟨np.port,hent.addr⟩ np (dir=.inp && msgwait),-1,dir,false⟩
  else if dir=.out then none
  else some ⟨.fdsock ⟨np.port,0⟩ np (dir=.inp && msgwait),-1,dir,false⟩

/-- The stages of `setup_fds` for a side: each of what may be asked for, then the
standard descriptor. -/
def ctorSide {δ : Type} (S : Sys) (opts : OptionsS δ) (dir : Dir) (msgwait stdsync : Bool) :
    Option FdpackS :=
  fdCtor S dir (opts.fd dir) opts.fsync <|>
  fdCtorF S dir (opts.file dir) opts.fsync <|>
  fdCtorS S dir (opts.sock dir) msgwait <|>
  fdCtor S dir (some (dash dir)) stdsync

/-- `setup_fds`: the input side, then the output side. -/
def setupFds {δ : Type} (S : Dir → Sys) (opts : OptionsS δ) : Option (FdpackS×FdpackS) :=
  (ctorSide (S .inp) opts .inp (!opts.rline) false).bind fun fdi =>
    (ctorSide (S .out) opts .out false opts.fsync).map fun fdo => (fdi,fdo)

end Yancat.Fdpack
