import Yancat.Endpoints
import Yancat.Kernel

/-!
# Endpoints and their descriptors

The endpoints once more, with the system calls they make and what these leave
behind: the memory of a path, files, sockets with their options, and descriptors
that the program was given. A call that fails keeps nothing new, and the
destructor leaves nothing behind.
-/

namespace Yancat.Descriptors

open Resources Kernel Fdpack Parse
open Options (Dir OptionsS dash)
open Endpoints (fdCtor_some fdCtorS_some)

/-- A descriptor that the system hands out. -/
def openFd : Call (Option ℕ) := grant (fun n => decide (n<2^31)) fun n => [.fd n]

/-- An endpoint, with the memory of its path. -/
structure Pack where
  /-- The endpoint. -/
  fdp : FdpackS
  /-- Where the path is. -/
  mem : Option ℕ

/-- The memory of the path. -/
def Pack.paths (e : Pack) : Multiset Res :=
  match e.mem,e.fdp.type with
  | some p,.fdfile path => {.heap p (path.length+1)}
  | _,_ => 0

/-- The descriptor, where there is one. -/
def Pack.desc (e : Pack) : Multiset Res :=
  if e.fdp.fd.toInt<0 then 0 else {.fd e.fdp.fd.toNat}

/-- All that an endpoint holds. -/
def Pack.owns (e : Pack) : Multiset Res := e.paths+e.desc

/-- The endpoint with another descriptor. -/
def Pack.withFd (e : Pack) (fd : BitVec 32) : Pack := {e with fdp := {e.fdp with fd := fd}}

/-- `fd_ctor_f`. -/
def fdCtorF (S : Sys) (dir : Dir) (path : Option (List Char)) (sync : Bool) :
    Call (Option Pack) :=
  match path with
  | none => pure none
  | some p =>
    if getPathmax S p ≤ p.length then pure none
    else do
      match ← malloc (p.length+1) with
      | none => pure none
      | some a => pure (some ⟨⟨.fdfile p,-1,dir,sync && dir=.out⟩,some a⟩)

/-- An endpoint without memory. -/
def bare (fdp : FdpackS) : Pack := ⟨fdp,none⟩

/-- The stages of `setup_fds` for a side, with the memory they take. -/
def ctorSide {δ : Type} (S : Sys) (opts : OptionsS δ) (dir : Dir) (msgwait stdsync : Bool) :
    Call (Option Pack) :=
  match fdCtor S dir (opts.fd dir) opts.fsync with
  | some fdp => pure (some (bare fdp))
  | none => do
    match ← fdCtorF S dir (opts.file dir) opts.fsync with
    | some e => pure (some e)
    | none => pure ((fdCtorS S dir (opts.sock dir) msgwait <|>
        fdCtor S dir (some (dash dir)) stdsync).map bare)

/-- `fd_open_`. -/
def fdOpen_ (e : Pack) : Call (Option Pack) :=
  if e.fdp.fd.toInt<0 then pure none else pure (some e)

/-- `fd_open_f`. -/
def fdOpenF (e : Pack) : Call (Option Pack) :=
  if e.fdp.fd≠-1 then pure none
  else do
    match ← openFd with
    | none => pure none
    | some n => pure (some (e.withFd (BitVec.ofNat 32 n)))

/-- The loop of `fd_setup_socket` over the options. -/
def setSockopts : List NoptsS → Call Bool
  | [] => pure true
  | _::rest => do
    let ok ← succeeds
    if ok=true then setSockopts rest else pure false

/-- Give up a socket. -/
def giveUp (fdo : ℕ) : Call (Option ℕ) := do
  close fdo
  pure none

/-- `fd_setup_socket`. -/
def fdSetupSocket (np : NetpntS) : Call (Option ℕ) := do
  match ← openFd with
  | none => pure none
  | some fdo =>
    let ok ← setSockopts np.opts
    if ok=true then pure (some fdo) else giveUp fdo

/-- The part of `fd_open_s` that sends. -/
def connectTo (fdo : ℕ) : Call (Option ℕ) := do
  let ok ← succeeds
  if ok=true then pure (some fdo) else giveUp fdo

/-- The part of `fd_open_s` that accepts a connection in place of the socket. -/
def acceptOn (fdo : ℕ) : Call (Option ℕ) := do
  let listening ← succeeds
  if listening=false then giveUp fdo
  else
    match ← openFd with
    | none => giveUp fdo
    | some rets => do
      close fdo
      pure (some rets)

/-- The part of `fd_open_s` that receives. -/
def bindTo (consts : SockConsts) (np : NetpntS) (fdo : ℕ) : Call (Option ℕ) := do
  let bound ← succeeds
  if bound=false then giveUp fdo
  else if np.dom=consts.ipprotoTcp then acceptOn fdo
  else pure (some fdo)

/-- Send or receive, as the side has it. -/
def reachPeer (consts : SockConsts) (dir : Dir) (np : NetpntS) (fdo : ℕ) : Call (Option ℕ) :=
  if dir=.out then connectTo fdo else bindTo consts np fdo

/-- `fd_open_s`. -/
def fdOpenS (consts : SockConsts) (e : Pack) (np : NetpntS) : Call (Option Pack) :=
  if e.fdp.fd≠-1 then pure none
  else do
    match ← fdSetupSocket np with
    | none => pure none
    | some fdo =>
      let ret ← reachPeer consts e.fdp.dir np fdo
      pure (ret.map fun n => e.withFd (BitVec.ofNat 32 n))

/-- `fd_open`. -/
def fdOpen (consts : SockConsts) (e : Pack) : Call (Option Pack) :=
  match e.fdp.type with
  | .fdfd => fdOpen_ e
  | .fdfile _ => fdOpenF e
  | .fdsock _ np _ => fdOpenS consts e np

/-- The calls before a `close`: files and given descriptors may be synchronised. -/
def flush (e : Pack) : Call Unit :=
  match e.fdp.type with
  | .fdsock _ _ _ => pure ()
  | _ =>
    if e.fdp.sync=true then do
      let _ ← succeeds
      pure ()
    else pure ()

/-- `fd_close`. A `close` that was interrupted is made again; the one that was not
releases the descriptor, whatever it reports. -/
def fdClose (e : Pack) : Call (ℤ×Pack) :=
  if e.fdp.fd.toInt<0 then pure (0,e.withFd (-1))
  else do
    flush e
    close e.fdp.fd.toNat
    let ok ← succeeds
    pure (if ok=true then 0 else -1,e.withFd (-1))

/-- The part of `fd_dtor_f` that frees the path. -/
def freePath (e : Pack) : Call Unit :=
  match e.mem,e.fdp.type with
  | some p,.fdfile path => free p (path.length+1)
  | _,_ => pure ()

/-- `fd_dtor`. -/
def fdDtor (e : Pack) : Call Unit := do
  freePath e
  let _ ← fdClose e
  pure ()

/-- `setup_fds`. -/
def setupFds {δ : Type} (S : Dir → Sys) (opts : OptionsS δ) : Call (Option (Pack×Pack)) := do
  match ← ctorSide (S .inp) opts .inp (!opts.rline) false with
  | none => pure none
  | some fdi =>
    match ← ctorSide (S .out) opts .out false opts.fsync with
    | none => do
      fdDtor fdi
      pure none
    | some fdo => pure (some (fdi,fdo))

/-- `cleanup_fds`. -/
def cleanupFds (fdi fdo : Pack) : Call Unit := do
  fdDtor fdi
  fdDtor fdo

variable {need : Multiset Res} {e : Pack}

/-- Two endpoints that differ in their descriptors at most. -/
def SameButFd (e e' : Pack) : Prop := ∃ fd,e'=e.withFd fd

/-- A given descriptor that has been closed, which cannot be opened again. -/
def Spent (e : Pack) : Prop := e.fdp.type=.fdfd ∧ e.fdp.fd=-1

/-- An open results in the endpoint with a descriptor, unless that was given and is
closed. -/
theorem fdOpen_yields (consts : SockConsts) (e : Pack) : Yields (fdOpen consts e) fun r =>
    r=none ∨ ∃ e',r=some e' ∧ SameButFd e e' ∧ ¬Spent e := by
  unfold fdOpen
  split
  · refine Yields.ite (fun _ => .pure (.inl rfl)) fun hn => ?_
    refine .pure (.inr ⟨e,rfl,⟨e.fdp.fd,rfl⟩,fun hs => hn ?_⟩)
    rw [hs.2]
    decide
  · next path ht =>
    refine Yields.ite (fun _ => .pure (.inl rfl)) fun _ => Yields.seq fun r => ?_
    cases r with
    | none => exact .pure (.inl rfl)
    | some n =>
      refine .pure (.inr ⟨_,rfl,⟨_,rfl⟩,fun hs => ?_⟩)
      cases ht.symm.trans hs.1
  · next saddr np waitall ht =>
    refine Yields.ite (fun _ => .pure (.inl rfl)) fun _ => Yields.seq fun r => ?_
    cases r with
    | none => exact .pure (.inl rfl)
    | some fdo =>
      refine Yields.seq fun r => ?_
      cases r with
      | none => exact .pure (.inl rfl)
      | some n =>
        refine .pure (.inr ⟨_,rfl,⟨_,rfl⟩,fun hs => ?_⟩)
        cases ht.symm.trans hs.1

/-- A close results in the endpoint without a descriptor. -/
theorem fdClose_yields (e : Pack) : Yields (fdClose e) fun r => r.2=e.withFd (-1) :=
  Yields.ite (fun _ => .pure rfl) fun _ => Yields.seq fun _ => Yields.seq fun _ =>
    Yields.seq fun _ => .pure rfl

/-- A side may be given a descriptor that was open before: the requested one, or
the standard one. -/
def Picks {δ : Type} (S : Sys) (opts : OptionsS δ) (dir : Dir) (fd : BitVec 32) : Prop :=
  ∃ t sync p,(t=opts.fd dir ∨ t=some (dash dir)) ∧ fdCtor S dir t sync=some p ∧ p.fd=fd

/-- What a program is started with: what it was asked for, and the descriptors that are
open. -/
structure Start (δ : Type) where
  /-- What the system answers about descriptors, paths and hosts. -/
  sys : Dir → Sys
  /-- The options. -/
  opts : OptionsS δ
  /-- The descriptors that are open. -/
  inh : Finset (BitVec 32)
  /-- Only these can be asked about. -/
  known : ∀ dir fd acc,(sys dir).fcntl fd=some acc → fd∈inh ∧ 0 ≤ fd.toInt

variable {δ : Type} {P : Start δ} {dir : Dir}

/-- The descriptors a program is started with, as things held. -/
def Start.inherited (P : Start δ) : Multiset Res := P.inh.val.map fun fd => .fd fd.toNat

/-- A side is asked for a file or for a socket. -/
def Named (opts : OptionsS δ) (dir : Dir) : Prop := opts.file dir≠none ∨ (opts.sock dir).dom≠0

/-- An endpoint as it is constructed for a side: on a descriptor that was open, or
without one, on a file or a socket that was asked for. -/
def Built (S : Sys) (opts : OptionsS δ) (dir : Dir) (e : Pack) : Prop :=
  e.fdp.type=.fdfd ∧ Picks S opts dir e.fdp.fd ∨ e.fdp.fd=-1 ∧ Named opts dir

/-- `fd_ctor_f` takes the memory of the path, or nothing. -/
theorem fdCtorF_uses (S : Sys) (dir : Dir) (path : Option (List Char)) (sync : Bool) :
    Uses need (fdCtorF S dir path sync) fun r keep =>
      r=none ∧ keep=need ∨ ∃ e,r=some e ∧ e.fdp.fd=-1 ∧ path≠none ∧ keep=e.paths+need := by
  cases path with
  | none => exact .pure (.inl ⟨rfl,rfl⟩)
  | some p =>
    refine Uses.ite (fun _ => .pure (.inl ⟨rfl,rfl⟩)) fun _ => ?_
    refine (malloc_uses _).bind fun r keep hk => ?_
    rcases hk with ⟨rfl,rfl⟩|⟨a,rfl,_,_,rfl⟩
    · exact .pure (.inl ⟨rfl,rfl⟩)
    · exact .pure (.inr ⟨_,rfl,rfl,Option.some_ne_none p,rfl⟩)

/-- A side takes the memory of its path, or nothing. -/
theorem ctorSide_uses (S : Sys) (opts : OptionsS δ) (dir : Dir) (msgwait stdsync : Bool) :
    Uses need (ctorSide S opts dir msgwait stdsync) fun r keep =>
      r=none ∧ keep=need ∨ ∃ e,r=some e ∧ Built S opts dir e ∧ keep=e.paths+need := by
  have hbare : ∀ fdp : FdpackS,need=(bare fdp).paths+need := fun _ => (zero_add need).symm
  unfold ctorSide
  split
  · next fdp hfd =>
    refine .pure (.inr ⟨_,rfl,.inl ⟨(fdCtor_some hfd).1,_,_,fdp,.inl rfl,hfd,rfl⟩,hbare fdp⟩)
  · refine (fdCtorF_uses _ _ _ _).bind fun r keep hk => ?_
    rcases hk with ⟨rfl,rfl⟩|⟨e,rfl,hfd,hpath,rfl⟩
    · cases hs : fdCtorS S dir (opts.sock dir) msgwait with
      | some fdp =>
        obtain ⟨hfd,hdom,_⟩ := fdCtorS_some hs
        exact .pure (.inr ⟨_,rfl,.inr ⟨hfd,.inr hdom⟩,hbare fdp⟩)
      | none =>
        cases hd : fdCtor S dir (some (dash dir)) stdsync with
        | none => exact .pure (.inl ⟨rfl,rfl⟩)
        | some fdp =>
          exact .pure (.inr ⟨_,rfl,.inl ⟨(fdCtor_some hd).1,_,_,fdp,.inr rfl,hd,rfl⟩,hbare fdp⟩)
    · exact .pure (.inr ⟨e,rfl,.inr ⟨hfd,.inl hpath⟩,rfl⟩)

/-- The descriptor of a constructed endpoint is one that was open. -/
theorem Built.desc (h : Built (P.sys dir) P.opts dir e) : e.desc=0 ∨
    e.desc={.fd e.fdp.fd.toNat} ∧ e.fdp.fd∈P.inh ∧ e.fdp.type=.fdfd := by
  rcases h with ⟨htype,hpick⟩|⟨hfd,_⟩
  · obtain ⟨t,sync,p,ht,hctor,hp⟩ := hpick
    obtain ⟨_,_,acc,hacc⟩ := fdCtor_some hctor
    rw [hp] at hacc
    obtain ⟨hin,hnn⟩ := P.known _ _ _ hacc
    refine .inr ⟨?_,hin,htype⟩
    rw [Pack.desc,if_neg (not_lt.mpr hnn)]
  · refine .inl ?_
    rw [Pack.desc,hfd]
    rfl

/-- The endpoints that are constructed for the sides. The output gets one only behind
the input. -/
def Start.built (P : Start δ) (w : World Clash) : List Pack :=
  let i := ctorSide (P.sys .inp) P.opts .inp (!P.opts.rline) false w
  match i.1 with
  | none => []
  | some fdi =>
    match (ctorSide (P.sys .out) P.opts .out false P.opts.fsync i.2).1 with
    | none => [fdi]
    | some fdo => [fdi,fdo]

/-- Both endpoints are constructed, or the call fails. -/
theorem setupFds_yields (P : Start δ) : Yields (setupFds P.sys P.opts) fun r =>
    r=none ∨ ∃ i o,r=some (i,o) ∧ Built (P.sys .inp) P.opts .inp i ∧
      Built (P.sys .out) P.opts .out o := by
  have hside : ∀ dir msgwait stdsync,Yields (ctorSide (P.sys dir) P.opts dir msgwait stdsync)
      fun r => r=none ∨ ∃ e,r=some e ∧ Built (P.sys dir) P.opts dir e :=
    fun dir msgwait stdsync => Uses.yields ((ctorSide_uses _ _ _ _ _).mono fun _ _ hk =>
      hk.imp And.left fun ⟨e,he,hb,_⟩ => ⟨e,he,hb⟩)
  refine (hside _ _ _).bind fun r hr => ?_
  rcases hr with rfl|⟨i,rfl,hi⟩
  · exact .pure (.inl rfl)
  · refine (hside _ _ _).bind fun r hr => ?_
    rcases hr with rfl|⟨o,rfl,ho⟩
    · exact Yields.seq fun _ => .pure (.inl rfl)
    · exact .pure (.inr ⟨i,o,rfl,hi,ho⟩)

end Yancat.Descriptors
