import Yancat.Options
import Yancat.Setup
import Yancat.Wrappers

/-!
# The environment of a transfer

`setup_env` with the buffer object and the locks, and the two ways out of it.
The platforms differ in the variants they use. What is set up is either
complete, with everything that the cleanup releases, or nothing.
-/

namespace Yancat.Environment

open Buffer WordArithmetic Resources Kernel Wrappers
open Setup (OptionsS)
open Options (ModeT)

/-- The systems that `config.h` knows. -/
inductive Os
  /-- Linux. -/
  | linux
  /-- FreeBSD. -/
  | freebsd
  /-- Other BSD systems. -/
  | bsd
  /-- MinGW. -/
  | mingw
  deriving DecidableEq

/-- The variant of shared memory. -/
def Os.shm : Os → ShmKind
  | .linux => .posix
  | .freebsd => .posix
  | .bsd => .sysv
  | .mingw => .malloc

/-- The variants of mutexes and semaphores, where there are any. -/
def Os.locks : Os → Option (MtxKind×SemKind)
  | .linux => some (.posix,.posixu)
  | .freebsd => some (.posix,.posixu)
  | .bsd => some (.sem,.sysv)
  | .mingw => none

/-- A machine. -/
structure Machine where
  /-- Its system. -/
  os : Os
  /-- The page size. -/
  page : ℕ
  /-- The granularity of SysV mappings. -/
  shmlba : ℕ
  /-- The mount table. -/
  mtab : List Mntent
  /-- What new memory contains. -/
  fresh : ℕ → ℕ → Crc.Byte

/-- What the wrappers see of a machine. -/
def Machine.host (M : Machine) : Host := ⟨decide (M.os=.linux),M.page,M.shmlba,M.mtab⟩

/-- What the buffer sees of an area. -/
def Machine.alloc (M : Machine) (s : Wrappers.ShmS) : Buffer.ShmS :=
  ⟨M.fresh (shmwPtr s),shmwCir s⟩

/-- Where things are in `struct shr_s`. -/
structure Layout where
  /-- Its size. -/
  size : ℕ
  /-- The mutex. -/
  vars : ℕ
  /-- The semaphore of the reader. -/
  nospace : ℕ
  /-- The semaphore of the writer. -/
  nodata : ℕ

/-- The buffer object with its two areas. -/
structure BufObj where
  /-- The ring. -/
  area : Wrappers.ShmS
  /-- The bounce chunks. -/
  scr : Wrappers.ShmS
  /-- The rest of the object. -/
  buf : BufS

/-- `buf_dt`. The object is in the memory `home`. -/
def bufDt (home : Res) (b : BufObj) : Call Unit := do
  touch home
  shmwDt b.area
  shmwDt b.scr

/-- `buf_dtor`. -/
def bufDtor (home : Res) (b : BufObj) : Call Unit := do
  touch home
  shmwDtor b.area
  shmwDtor b.scr
  touch home

/-- `buf_ctor`. -/
def bufCtor (M : Machine) (home : Res) (bsiz rblk wblk hpage : ℕ) : Call (Option BufObj) := do
  touch home
  match ← shmwCtor M.host M.os.shm "/yancat-buf-area".toList bsiz hpage true with
  | none => pure none
  | some (area,siz) =>
    touch home
    if isPow2 siz<0 ∨ siz ≤ 2*max rblk wblk%wordSize then do
      shmwDtor area
      pure none
    else
      let csiz := wordAdd (yAlign rblk M.page) (yAlign wblk M.page)
      match ← shmwCtor M.host M.os.shm "/yancat-bounce-area".toList csiz 0 false with
      | none => do
        shmwDtor area
        pure none
      | some (scr,csiz) =>
        touch home
        pure (some ⟨area,scr,bufPlace M.page rblk wblk siz csiz (M.alloc area) (M.alloc scr)⟩)

/-- The mutex and the two semaphores. -/
structure Locks where
  /-- Guards the shared variables. -/
  vars : MtxS
  /-- What the reader waits for. -/
  nospace : SemS
  /-- What the writer waits for. -/
  nodata : SemS

/-- The part of `setup_env` that makes the locks, with its way out. -/
def setupLocks (kinds : MtxKind×SemKind) (home : Res) (base : ℕ) (lay : Layout) (mp : Bool) :
    Call (Option Locks) := do
  match ← mtxwCtor kinds.1 kinds.2 home (base+lay.vars) mp with
  | none => pure none
  | some vars =>
    match ← semwCtor kinds.2 home (base+lay.nospace) mp 0 with
    | none => do
      mtxwDtor home vars
      pure none
    | some nospace =>
      match ← semwCtor kinds.2 home (base+lay.nodata) mp 0 with
      | none => do
        semwDtor home nospace
        mtxwDtor home vars
        pure none
      | some nodata => pure (some ⟨vars,nospace,nodata⟩)

/-- What is set up. -/
structure Env where
  /-- The shared chunk. -/
  chunk : Wrappers.ShmS
  /-- The buffer object in it. -/
  bufo : BufObj
  /-- The mode that was possible. -/
  mode : ModeT
  /-- The locks in it. -/
  locks : Option Locks

/-- The mode that is possible: processes need shared memory. -/
def possibleMode (mode : ModeT) (chunk : Wrappers.ShmS) (b : BufObj) : ModeT :=
  if mode=.mp ∧ noshr chunk=false ∧ noshr b.area=false then .mp
  else if mode=.mt then .mt else .sp

/-- `setup_sigs`, over so many signals. -/
def setupSigs : ℕ → Call Bool
  | 0 => pure true
  | n+1 => do
    let ok ← succeeds
    if ok=true then setupSigs n else pure false

/-- The number of ignored and of handled signals. -/
def sigCount : Os → ℕ×ℕ
  | .mingw => (0,0)
  | _ => (6,3)

/-- `setup_env` behind its signals and the chunk. -/
def setupRest (M : Machine) (lay : Layout) (opts : OptionsS) (mode : ModeT)
    (chunk : Wrappers.ShmS) : Call (Option Env) := do
  touch chunk.place
  match ← bufCtor M chunk.place opts.bsiz opts.rblk opts.wblk opts.hpage with
  | none => do
    shmwDtor chunk
    pure none
  | some b =>
    touch chunk.place
    match bufSetextra b.buf opts.rline opts.wline opts.rcrc opts.wcrc opts.rsp opts.wsp with
    | none => do
      bufDtor chunk.place b
      shmwDtor chunk
      pure none
    | some buf =>
      let mode := possibleMode mode chunk b
      match if mode=.sp then none else M.os.locks with
      | none => pure (some ⟨chunk,{b with buf := buf},mode,none⟩)
      | some kinds =>
        match ← setupLocks kinds chunk.place (shmwPtr chunk) lay (decide (mode=.mp)) with
        | none => do
          bufDtor chunk.place b
          shmwDtor chunk
          pure none
        | some locks => pure (some ⟨chunk,{b with buf := buf},mode,some locks⟩)

/-- `setup_env`. -/
def setupEnv (M : Machine) (lay : Layout) (opts : OptionsS) (mode : ModeT) :
    Call (Option Env) := do
  let ignored ← setupSigs (sigCount M.os).1
  if ignored=false then pure none
  else
    let handled ← setupSigs (sigCount M.os).2
    if handled=false then pure none
    else
      match ← shmwCtor M.host M.os.shm "/yancat-main".toList lay.size 0 false with
      | none => pure none
      | some (chunk,_) => setupRest M lay opts mode chunk

/-- The locks, where tasks have them. -/
def Env.inUse (env : Env) : Option Locks := if env.mode=.sp then none else env.locks

/-- The part of `cleanup_arbiter` that destroys the locks. -/
def dtorLocks (home : Res) : Option Locks → Call Unit
  | some l => do
    semwDtor home l.nodata
    semwDtor home l.nospace
    mtxwDtor home l.vars
  | none => pure ()

/-- `cleanup_arbiter`. -/
def cleanupArbiter (env : Env) : Call Unit := do
  dtorLocks env.chunk.place env.inUse
  bufDtor env.chunk.place env.bufo
  shmwDtor env.chunk

/-- The part of `cleanup_child` that detaches from the locks. -/
def dtLocks : Option Locks → Call Unit
  | some l => do
    semwDt l.nodata
    semwDt l.nospace
    mtxwDt l.vars
  | none => pure ()

/-- `cleanup_child`. -/
def cleanupChild (env : Env) : Call Unit := do
  dtLocks env.inUse
  bufDt env.chunk.place env.bufo
  shmwDt env.chunk

variable {M : Machine} {need : Multiset Res} {home : Res}

/-- What a buffer object holds. -/
def BufObj.owns (b : BufObj) : Multiset Res := b.area.owns+b.scr.owns

/-- What a constructed buffer object looks like. -/
structure BufObj.Ok (M : Machine) (b : BufObj) : Prop where
  /-- The ring is of the variant of the system. -/
  kind : b.area.kind=M.os.shm
  /-- The ring is mapped, perhaps twice. -/
  area : b.area.Ok M.host b.buf.size true
  /-- The bounce chunks are mapped. -/
  scr : b.scr.Ok M.host b.buf.scrSiz false
  /-- The ring is known to be mapped twice when it is. -/
  cir : b.buf.iscir=shmwCir b.area

/-- The sizes of a machine are those of the buffer, where the granularity of SysV
mappings is no larger than a page. -/
theorem unit_eq (h : M.os=.bsd → M.shmlba ≤ M.page) (huge : ℕ) :
    M.os.shm.unit M.host huge=if M.page<huge then huge else M.page := by
  cases hos : M.os with
  | bsd =>
    have hle := h hos
    change max (if M.page<huge then huge else M.page) M.shmlba=_
    split <;> omega
  | _ => rfl

/-- `buf_ctor` keeps nothing when it fails. Otherwise it has built the buffer that
the two allocations determine. -/
theorem bufCtor_uses (hh : home∈need) (bsiz rblk wblk hpage : ℕ) :
    Uses need (bufCtor M home bsiz rblk wblk hpage) fun r keep =>
      r=none ∧ keep=need ∨ ∃ b,r=some b ∧ b.Ok M ∧ keep=b.owns+need ∧
        ((M.os=.bsd → M.shmlba ≤ M.page) →
          Buffer.bufCtor M.page (some (M.alloc b.area)) (some (M.alloc b.scr)) bsiz rblk wblk
            hpage=some b.buf) := by
  refine (Uses.touch hh).seq fun _ => ?_
  refine (shmwCtor_uses _ _ _ _ _ _).bind fun r keep hk => ?_
  rcases hk with ⟨rfl,rfl⟩|⟨area,rfl,hkind,hok,rfl⟩
  · exact .pure (.inl ⟨rfl,rfl⟩)
  · dsimp only
    have hin : home∈area.owns+need := Multiset.mem_add.mpr (.inr hh)
    refine (Uses.touch hin).seq fun _ => ?_
    refine Uses.ite (fun _ => ?_) fun hn => ?_
    · exact (shmwDtor_uses area).bind fun _ keep hk => .pure (.inl ⟨rfl,hk⟩)
    · refine (shmwCtor_uses _ _ _ _ _ _).bind fun r keep hk => ?_
      rcases hk with ⟨rfl,rfl⟩|⟨scr,rfl,_,hok',rfl⟩
      · exact (shmwDtor_uses area).bind fun _ keep hk => .pure (.inl ⟨rfl,hk⟩)
      · dsimp only
        have hin' : home∈scr.owns+(area.owns+need) := Multiset.mem_add.mpr (.inr hin)
        refine (Uses.touch hin').seq fun _ => ?_
        refine .pure (.inr ⟨_,rfl,⟨hkind,hok,hok',rfl⟩,?_,fun hl => ?_⟩)
        · rw [BufObj.owns,add_left_comm,add_assoc]
        · rw [unit_eq hl,unit_eq hl]
          rw [unit_eq hl] at hn
          obtain ⟨hp,hs⟩ := not_or.mp hn
          simp only [Buffer.bufCtor,Buffer.shmwCtor,Option.map_some,if_neg hp,if_neg hs]

/-- `buf_dtor` releases both areas. -/
theorem bufDtor_uses (b : BufObj) (hh : home∈need) :
    Uses (b.owns+need) (bufDtor home b) fun _ keep => keep=need := by
  refine (Uses.touch (Multiset.mem_add.mpr (.inr hh))).seq fun _ => ?_
  rw [BufObj.owns,add_assoc]
  refine (shmwDtor_uses b.area).seq fun _ => ?_
  refine (shmwDtor_uses b.scr).seq fun _ => ?_
  exact Uses.touch hh

/-- What the locks hold. -/
def Locks.owns (l : Locks) : Multiset Res := l.nodata.owns+(l.nospace.owns+l.vars.owns)

/-- The locks of a mode: nothing to wait for yet, and between processes all of
them shared. -/
structure Locks.Ok (mp : Bool) (l : Locks) : Prop where
  /-- There is no space announced. -/
  nospace : l.nospace.val=0
  /-- There is no data announced. -/
  nodata : l.nodata.val=0
  /-- Processes share all of them. -/
  shared : mp=true → l.vars.shared=true ∧ l.nospace.shared=true ∧ l.nodata.shared=true

/-- Locks are made together or not at all. -/
theorem setupLocks_uses (kinds : MtxKind×SemKind) (hh : home∈need) (base : ℕ) (lay : Layout)
    (mp : Bool) :
    Uses need (setupLocks kinds home base lay mp) fun r keep =>
      r=none ∧ keep=need ∨ ∃ l,r=some l ∧ l.Ok mp ∧ keep=l.owns+need := by
  refine (mtxwCtor_uses _ _ hh _ _).bind fun r keep hk => ?_
  rcases hk with ⟨rfl,rfl⟩|⟨vars,rfl,hv,rfl⟩
  · exact .pure (.inl ⟨rfl,rfl⟩)
  · have hin : home∈vars.owns+need := Multiset.mem_add.mpr (.inr hh)
    refine (semwCtor_uses _ hin _ _ _).bind fun r keep hk => ?_
    rcases hk with ⟨rfl,rfl⟩|⟨nospace,rfl,hs,hsm,rfl⟩
    · exact (mtxwDtor_uses vars hh).bind fun _ keep hk => .pure (.inl ⟨rfl,hk⟩)
    · have hin' : home∈nospace.owns+(vars.owns+need) := Multiset.mem_add.mpr (.inr hin)
      refine (semwCtor_uses _ hin' _ _ _).bind fun r keep hk => ?_
      rcases hk with ⟨rfl,rfl⟩|⟨nodata,rfl,hd,hdm,rfl⟩
      · refine (semwDtor_uses nospace hin).seq fun _ => ?_
        exact (mtxwDtor_uses vars hh).bind fun _ keep hk => .pure (.inl ⟨rfl,hk⟩)
      · refine .pure (.inr ⟨_,rfl,⟨hs,hd,fun hm => ⟨hv hm,hsm hm,hdm hm⟩⟩,?_⟩)
        rw [Locks.owns,add_assoc,add_assoc]

/-- What the environment holds. -/
def Env.owns (env : Env) : Multiset Res :=
  (env.locks.elim 0 Locks.owns)+(env.bufo.owns+env.chunk.owns)

/-- The size of the chunk. -/
def chunkSiz (M : Machine) (lay : Layout) : ℕ := yAlign lay.size (M.os.shm.unit M.host 0)

/-- What an environment looks like. -/
structure Env.Ok (M : Machine) (lay : Layout) (opts : OptionsS) (mode : ModeT) (env : Env) :
    Prop where
  /-- The chunk is of the variant of the system. -/
  kind : env.chunk.kind=M.os.shm
  /-- The chunk is mapped once. -/
  chunk : env.chunk.Ok M.host (chunkSiz M lay) false
  /-- So is the buffer. -/
  bufo : env.bufo.Ok M
  /-- The mode is the one asked for, if it is possible. -/
  mode : env.mode=possibleMode mode env.chunk env.bufo
  /-- Tasks have locks where there are any. -/
  locks : env.mode≠.sp → M.os.locks≠none →
    ∃ l,env.locks=some l ∧ l.Ok (decide (env.mode=.mp))
  /-- A single process has none. -/
  unlocked : env.mode=.sp → env.locks=none
  /-- Both calls have accepted the buffer. -/
  accepted : (M.os=.bsd → M.shmlba ≤ M.page) →
    Setup.setupBuf opts ⟨M.page,some (M.alloc env.bufo.area),some (M.alloc env.bufo.scr)⟩=
      some env.bufo.buf

/-- The extra settings leave the areas of a buffer alone. -/
theorem bufSetextra_area {buf out : BufS} {rline wline rcrc wcrc : Bool} {rsp wsp : ℕ}
    (h : bufSetextra buf rline wline rcrc wcrc rsp wsp=some out) :
    out.size=buf.size ∧ out.scrSiz=buf.scrSiz ∧ out.iscir=buf.iscir := by
  obtain ⟨_,_,rfl⟩ := Setup.bufSetextra_some h
  exact ⟨rfl,rfl,rfl⟩

/-- A buffer object keeps its shape under the extra settings. -/
theorem BufObj.Ok.setextra {b : BufObj} {out : BufS} (h : b.Ok M) (hs : out.size=b.buf.size)
    (hc : out.scrSiz=b.buf.scrSiz) (hi : out.iscir=b.buf.iscir) : BufObj.Ok M {b with buf := out} :=
  ⟨h.kind,by rw [hs]; exact h.area,by rw [hc]; exact h.scr,hi.trans h.cir⟩

/-- The rest of `setup_env` keeps nothing when it fails, the chunk included. -/
theorem setupRest_uses (lay : Layout) (opts : OptionsS) (mode : ModeT)
    (chunk : Wrappers.ShmS) (hkind : chunk.kind=M.os.shm)
    (hc : chunk.Ok M.host (chunkSiz M lay) false) :
    Uses (chunk.owns+need) (setupRest M lay opts mode chunk) fun r keep =>
      r=none ∧ keep=need ∨ ∃ env,r=some env ∧ env.Ok M lay opts mode ∧ keep=env.owns+need := by
  have hh : chunk.place∈chunk.owns+need := Multiset.mem_add.mpr (.inl chunk.place_mem)
  refine (Uses.touch hh).seq fun _ => ?_
  refine (bufCtor_uses hh _ _ _ _).bind fun r keep hk => ?_
  rcases hk with ⟨rfl,rfl⟩|⟨b,rfl,hb,rfl,hctor⟩
  · exact (shmwDtor_uses chunk).bind fun _ keep hk => .pure (.inl ⟨rfl,hk⟩)
  · have hin : chunk.place∈b.owns+(chunk.owns+need) := Multiset.mem_add.mpr (.inr hh)
    refine (Uses.touch hin).seq fun _ => ?_
    have hout : Uses (b.owns+(chunk.owns+need))
        (do bufDtor chunk.place b; shmwDtor chunk; pure none : Call (Option Env)) fun r keep =>
        r=none ∧ keep=need ∨ ∃ env,r=some env ∧ env.Ok M lay opts mode ∧ keep=env.owns+need := by
      refine (bufDtor_uses b hh).seq fun _ => ?_
      exact (shmwDtor_uses chunk).bind fun _ keep hk => .pure (.inl ⟨rfl,hk⟩)
    cases he : bufSetextra b.buf opts.rline opts.wline opts.rcrc opts.wcrc opts.rsp opts.wsp with
    | none =>
      dsimp only
      exact hout
    | some buf =>
      obtain ⟨hs,hsc,hi⟩ := bufSetextra_area he
      have hb' := hb.setextra hs hsc hi
      have hacc : (M.os=.bsd → M.shmlba ≤ M.page) →
          Setup.setupBuf opts ⟨M.page,some (M.alloc b.area),some (M.alloc b.scr)⟩=some buf := by
        intro hl
        rw [Setup.setupBuf,hctor hl]
        exact he
      dsimp only
      cases hl : if possibleMode mode chunk b=.sp then none else M.os.locks with
      | none =>
        refine .pure (.inr ⟨_,rfl,⟨hkind,hc,hb',rfl,fun hm hn => ?_,fun _ => rfl,hacc⟩,?_⟩)
        · exact absurd ((if_neg hm).symm.trans hl) hn
        · rw [Env.owns,Option.elim_none,zero_add,add_assoc]
          rfl
      | some kinds =>
        refine (setupLocks_uses kinds hin _ _ _).bind fun r keep hk => ?_
        rcases hk with ⟨rfl,rfl⟩|⟨l,rfl,hlok,rfl⟩
        · exact hout
        · have hmode : possibleMode mode chunk b≠.sp := fun hm =>
            absurd ((if_pos hm).symm.trans hl) (Option.some_ne_none kinds).symm
          refine .pure (.inr ⟨_,rfl,⟨hkind,hc,hb',rfl,fun _ _ => ⟨l,rfl,hlok⟩,?_,hacc⟩,?_⟩)
          · exact fun hm => absurd hm hmode
          · rw [Env.owns,Option.elim_some,add_assoc,add_assoc]
            rfl

/-- Signal handlers hold nothing. -/
theorem setupSigs_uses (n : ℕ) : Uses need (setupSigs n) fun _ keep => keep=need := by
  induction n with
  | zero => exact .pure rfl
  | succ n ih =>
    refine Uses.succeeds.seq fun ok => ?_
    exact Uses.ite (fun _ => ih) fun _ => .pure rfl

/-- The environment is set up as a whole or not at all. -/
theorem setupEnv_uses (lay : Layout) (opts : OptionsS) (mode : ModeT) :
    Uses need (setupEnv M lay opts mode) fun r keep =>
      r=none ∧ keep=need ∨ ∃ env,r=some env ∧ env.Ok M lay opts mode ∧ keep=env.owns+need := by
  refine (setupSigs_uses _).seq fun ignored => ?_
  refine Uses.ite (fun _ => .pure (.inl ⟨rfl,rfl⟩)) fun _ => ?_
  refine (setupSigs_uses _).seq fun handled => ?_
  refine Uses.ite (fun _ => .pure (.inl ⟨rfl,rfl⟩)) fun _ => ?_
  refine (shmwCtor_uses _ _ _ _ _ _).bind fun r keep hk => ?_
  rcases hk with ⟨rfl,rfl⟩|⟨chunk,rfl,hkind,hc,rfl⟩
  · exact .pure (.inl ⟨rfl,rfl⟩)
  · exact setupRest_uses lay opts mode chunk hkind hc

/-- The destructors release what locks there are. -/
theorem dtorLocks_uses (locks : Option Locks) (hh : home∈need) :
    Uses ((locks.elim 0 Locks.owns)+need) (dtorLocks home locks) fun _ keep => keep=need := by
  cases locks with
  | none => exact .pure (zero_add need)
  | some l =>
    have hin : home∈l.vars.owns+need := Multiset.mem_add.mpr (.inr hh)
    have hin' : home∈l.nospace.owns+(l.vars.owns+need) := Multiset.mem_add.mpr (.inr hin)
    rw [Option.elim_some,Locks.owns,add_assoc,add_assoc]
    refine (semwDtor_uses l.nodata hin').seq fun _ => ?_
    refine (semwDtor_uses l.nospace hin).seq fun _ => ?_
    exact mtxwDtor_uses l.vars hh

/-- The locks in use are all the locks. -/
theorem Env.Ok.inUse {lay : Layout} {opts : OptionsS} {mode : ModeT} {env : Env}
    (h : env.Ok M lay opts mode) : env.inUse=env.locks := by
  unfold Env.inUse
  split
  · next hm => exact (h.unlocked hm).symm
  · rfl

/-- The arbiter releases all that was set up. -/
theorem cleanupArbiter_uses {env : Env} (hu : env.inUse=env.locks) :
    Uses (env.owns+need) (cleanupArbiter env) fun _ keep => keep=need := by
  unfold cleanupArbiter
  rw [hu,Env.owns,add_assoc,add_assoc]
  have hh : env.chunk.place∈env.chunk.owns+need := Multiset.mem_add.mpr (.inl env.chunk.place_mem)
  refine (dtorLocks_uses env.locks (Multiset.mem_add.mpr (.inr hh))).seq fun _ => ?_
  refine (bufDtor_uses env.bufo hh).seq fun _ => ?_
  exact shmwDtor_uses env.chunk

/-- What a process holds of the environment for itself. -/
def Env.mapped (env : Env) : Multiset Res :=
  env.bufo.area.mapped+(env.bufo.scr.mapped+env.chunk.mapped)

/-- What is left of the environment when the process detaches. -/
def Env.kept (env : Env) : Multiset Res :=
  (env.locks.elim 0 Locks.owns)+(env.bufo.area.kept+(env.bufo.scr.kept+env.chunk.kept))

/-- The environment is what processes map and what the arbiter destroys. -/
theorem Env.owns_eq (env : Env) : env.owns=env.mapped+env.kept := by
  unfold Env.owns Env.mapped Env.kept BufObj.owns ShmS.owns
  ac_rfl

/-- Detaching from the locks does nothing. -/
theorem dtLocks_uses (locks : Option Locks) :
    Uses need (dtLocks locks) fun _ keep => keep=need := by
  cases locks with
  | none => exact .pure rfl
  | some l =>
    refine (semwDt_uses l.nodata).seq fun _ => ?_
    refine (semwDt_uses l.nospace).seq fun _ => ?_
    exact mtxwDt_uses l.vars

/-- A child releases its mappings and nothing else. -/
theorem cleanupChild_uses (env : Env) :
    Uses (env.owns+need) (cleanupChild env) fun _ keep => keep=env.kept+need := by
  refine (dtLocks_uses _).seq fun _ => ?_
  have hh : env.chunk.place∈env.owns+need :=
    Multiset.mem_add.mpr (.inl (Multiset.mem_add.mpr (.inr
      (Multiset.mem_add.mpr (.inr env.chunk.place_mem)))))
  have hbuf : Uses (env.owns+need) (bufDt env.chunk.place env.bufo) fun _ keep =>
      keep=env.chunk.mapped+(env.kept+need) := by
    refine (Uses.touch hh).seq fun _ => ?_
    rw [env.owns_eq,Env.mapped,add_assoc,add_assoc,add_assoc]
    refine (shmwDt_uses env.bufo.area).seq fun _ => ?_
    exact shmwDt_uses env.bufo.scr
  exact hbuf.seq fun _ => shmwDt_uses env.chunk

/-- A process that shares its environment has it in memory that can be shared,
with locks that can be shared. -/
theorem Env.Ok.mp {lay : Layout} {opts : OptionsS} {mode : ModeT} {env : Env}
    (h : env.Ok M lay opts mode) (hm : env.mode=.mp) :
    mode=.mp ∧ M.os≠.mingw ∧ (∃ lo len obj,env.chunk.place=.region lo len obj) ∧
      (∃ lo len obj,env.bufo.area.place=.region lo len obj) ∧
      ∃ l,env.locks=some l ∧
        l.vars.shared=true ∧ l.nospace.shared=true ∧ l.nodata.shared=true := by
  have hp := h.mode.symm.trans hm
  unfold possibleMode at hp
  split at hp
  · next hc =>
    obtain ⟨hmode,hchunk,harea⟩ := hc
    have hregion : ∀ s : Wrappers.ShmS,noshr s=false → s.kind≠.malloc ∧
        ∃ lo len obj,s.place=.region lo len obj := by
      intro s hs
      cases s with
      | posix m name nm ishuge => exact ⟨by rintro ⟨⟩,_,_,_,rfl⟩
      | sysv m id => exact ⟨by rintro ⟨⟩,_,_,_,rfl⟩
      | malloc ptr addr len => cases hs
    have hos : M.os≠.mingw := fun he => (hregion _ hchunk).1 (by rw [h.kind,he]; rfl)
    have hlocks : M.os.locks≠none := by
      cases ho : M.os with
      | mingw => exact absurd ho hos
      | linux => exact Option.some_ne_none _
      | freebsd => exact Option.some_ne_none _
      | bsd => exact Option.some_ne_none _
    obtain ⟨l,hl,hok⟩ := h.locks (by rw [hm]; rintro ⟨⟩) hlocks
    exact ⟨hmode,hos,(hregion _ hchunk).2,(hregion _ harea).2,l,hl,hok.shared (decide_eq_true hm)⟩
  · split at hp <;> cases hp

/-- What a call of `setup_env` leaves: the world as it was, or an environment and
the world beside it, from which either way out leads back. -/
def Balanced (M : Machine) (lay : Layout) (opts : OptionsS) (mode : ModeT)
    (w w' : World Clash) : Option Env → Prop
  | none => w'.held=w.held
  | some env => w'.held=env.owns+w.held ∧ env.Ok M lay opts mode ∧
    ∀ (v : World Clash) (rest : Multiset Res),v.held=env.owns+rest →
      ((cleanupArbiter env v).2.held=rest ∧ (cleanupArbiter env v).2.faults=v.faults) ∧
      (cleanupChild env v).2.held=env.kept+rest ∧ (cleanupChild env v).2.faults=v.faults

/-- What a call of `setup_env` leaves in the world. -/
theorem setupEnv_leaves (M : Machine) (lay : Layout) (opts : OptionsS) (mode : ModeT)
    (w : World Clash) :
    (setupEnv M lay opts mode w).2.faults=w.faults ∧
      ((setupEnv M lay opts mode w).1=none ∧ (setupEnv M lay opts mode w).2.held=w.held ∨
        ∃ env,(setupEnv M lay opts mode w).1=some env ∧ env.Ok M lay opts mode ∧
          (setupEnv M lay opts mode w).2.held=env.owns+w.held) := by
  obtain ⟨keep,hk,hheld,hf⟩ := setupEnv_uses lay opts mode w.held w (zero_add w.held).symm
  refine ⟨hf,hk.imp ?_ ?_⟩
  · rintro ⟨hr,rfl⟩
    exact ⟨hr,hheld.trans (zero_add _)⟩
  · rintro ⟨env,hr,hok,rfl⟩
    exact ⟨env,hr,hok,by rw [hheld,add_zero]⟩

/-- On every system, whatever it answers, `setup_env` acquires a complete
environment or nothing; the arbiter releases all of it and a child what it has
mapped. Nothing is used or released that is not held. -/
theorem env_balanced (M : Machine) (lay : Layout) (opts : OptionsS) (mode : ModeT)
    (w : World Clash) :
    (setupEnv M lay opts mode w).2.faults=w.faults ∧
      Balanced M lay opts mode w (setupEnv M lay opts mode w).2 (setupEnv M lay opts mode w).1 := by
  obtain ⟨hf,⟨hr,hheld⟩|⟨env,hr,hok,hheld⟩⟩ := setupEnv_leaves M lay opts mode w
  · exact ⟨hf,by rw [hr]; exact hheld⟩
  · refine ⟨hf,?_⟩
    rw [hr]
    refine ⟨hheld,hok,fun v rest hv => ?_⟩
    rw [←add_zero env.owns] at hv
    obtain ⟨_,rfl,hheld,hf⟩ := cleanupArbiter_uses hok.inUse rest v hv
    obtain ⟨_,rfl,hheld',hf'⟩ := cleanupChild_uses env rest v hv
    exact ⟨⟨hheld.trans (zero_add _),hf⟩,by rw [hheld',add_zero],hf'⟩

/-- What a round starts from: a machine, and options that the parser admits on
it. -/
structure Setting where
  /-- The machine. -/
  machine : Machine
  /-- Where things are in the chunk. -/
  lay : Layout
  /-- The options of the transfer. -/
  opts : OptionsS
  /-- The mode asked for. -/
  mode : ModeT
  /-- The options are in the ranges of the parser. -/
  parsed : Setup.OptParse opts
  /-- Pages are a power of two. -/
  page_pow : ∃ p,machine.page=2^p
  /-- The buffer has at least a page. -/
  page_le : machine.page ≤ opts.bsiz
  /-- SysV mappings are as fine as pages, where they are used. -/
  shmlba : machine.os=.bsd → machine.shmlba ≤ machine.page

/-- An environment of a setting. -/
def Env.At (S : Setting) (env : Env) : Prop := env.Ok S.machine S.lay S.opts S.mode

/-- The two areas of a buffer object, as its constructors are told of them. -/
def areas (M : Machine) (b : BufObj) : Setup.Host :=
  ⟨M.page,some (M.alloc b.area),some (M.alloc b.scr)⟩

/-- The configuration that an environment makes of a setting. -/
def Setting.config (S : Setting) (env : Env) (h : env.At S) : Setup.Config where
  opts := S.opts
  host := areas S.machine env.bufo
  buf := env.bufo.buf
  parsed := S.parsed
  page_pow := S.page_pow
  page_le := S.page_le
  accepted := h.accepted S.shmlba

end Yancat.Environment
