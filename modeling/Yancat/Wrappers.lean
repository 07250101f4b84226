import Yancat.Kernel

/-!
# The wrappers around shared memory, semaphores and mutexes

The three variants of shared memory, of which two try to map the area twice in a
row, and the semaphores and mutexes. For every constructor there is what it
keeps when it succeeds; it keeps nothing when it fails. The destructor releases
exactly that, and a detach releases the part that a process holds for itself.
-/

namespace Yancat.Wrappers

open Buffer WordArithmetic Resources Kernel

/-- Where an area is mapped. -/
structure Mapping where
  /-- The first mapping. -/
  ptr : ℕ
  /-- The second mapping. -/
  ptrc : Option ℕ
  /-- The size of either. -/
  siz : ℕ

/-- The mappings, as things held. -/
def Mapping.held (m : Mapping) (obj : Obj) : Multiset Res :=
  (m.ptrc.elim 0 fun c => {.region c m.siz obj})+{.region m.ptr m.siz obj}

/-- Undo the mappings, the second one first. -/
def Mapping.detach (m : Mapping) (obj : Obj) : Call Unit := do
  match m.ptrc with
  | some c => unmap obj m.siz c
  | none => pure ()
  unmap obj m.siz m.ptr

/-- One try at a second mapping, which is kept when it touches the first. -/
def adjoin (handle : Res) (obj : Obj) (siz addr hint : ℕ) : Call (Option ℕ) := do
  match ← mapAt handle obj siz hint with
  | none => pure none
  | some c =>
    if addr+siz=c ∨ c+siz=addr then pure (some c)
    else do
      unmap obj siz c
      pure none

/-- The lower one of two mappings comes first. -/
def inOrder (siz addr c : ℕ) : Mapping :=
  if c<addr then ⟨c,some addr,siz⟩ else ⟨addr,some c,siz⟩

/-- Try above, then below. -/
def mapTwice (handle : Res) (obj : Obj) (siz addr : ℕ) : Call Mapping := do
  match ← adjoin handle obj siz addr (wordAdd addr siz) with
  | some c => pure (inOrder siz addr c)
  | none =>
    match ← adjoin handle obj siz addr (wordSub addr siz) with
    | some c => pure (inOrder siz addr c)
    | none => pure ⟨addr,none,siz⟩

/-- Behind the first mapping: twice when that is asked for. -/
def mapArea (circ : Bool) (handle : Res) (obj : Obj) (siz addr : ℕ) : Call Mapping :=
  if circ=true then mapTwice handle obj siz addr else pure ⟨addr,none,siz⟩

/-- The variants of shared memory. -/
inductive ShmKind
  /-- `shmw_posix.c`. -/
  | posix
  /-- `shmw_sysv.c`. -/
  | sysv
  /-- `shmw_malloc.c`. -/
  | malloc

/-- `struct shm_s` of the three variants. -/
inductive ShmS
  /-- A POSIX object or a file in huge pages, with its name in memory. -/
  | posix (m : Mapping) (name : ℕ) (nm : List Char) (ishuge : Bool)
  /-- A SysV segment. -/
  | sysv (m : Mapping) (id : ℕ)
  /-- An allocation, and the first address of a page in it. -/
  | malloc (ptr addr len : ℕ)

/-- `shmw_ptr`. -/
def shmwPtr : ShmS → ℕ
  | .posix m _ _ _ => m.ptr
  | .sysv m _ => m.ptr
  | .malloc ptr _ _ => ptr

/-- `shmw_cir`, whether it is not negative. -/
def shmwCir : ShmS → Bool
  | .posix m _ _ _ => m.ptrc.isSome
  | .sysv m _ => m.ptrc.isSome
  | .malloc _ _ _ => false

/-- The result of the constructor: memory from `malloc` is not shared. -/
def noshr : ShmS → Bool
  | .malloc _ _ _ => true
  | _ => false

/-- What a process holds for itself. -/
def ShmS.mapped : ShmS → Multiset Res
  | .posix m _ nm _ => m.held (.file nm)
  | .sysv m id => m.held (.segment id)
  | .malloc _ _ _ => 0

/-- What only the destructor releases. -/
def ShmS.kept : ShmS → Multiset Res
  | .posix _ name nm _ => {.name nm}+{.heap name (nm.length+1)}
  | .sysv _ id => {.segment id}
  | .malloc _ addr len => {.heap addr len}

/-- All that a constructed object holds. -/
def ShmS.owns (s : ShmS) : Multiset Res := s.mapped+s.kept

/-- The memory at its pointer. -/
def ShmS.place : ShmS → Res
  | .posix m _ nm _ => .region m.ptr m.siz (.file nm)
  | .sysv m id => .region m.ptr m.siz (.segment id)
  | .malloc _ addr len => .heap addr len

/-- `shmw_dt`. -/
def shmwDt : ShmS → Call Unit
  | .posix m _ nm _ => m.detach (.file nm)
  | .sysv m id => m.detach (.segment id)
  | .malloc _ _ _ => pure ()

/-- `shmw_dtor`. -/
def shmwDtor (s : ShmS) : Call Unit := do
  shmwDt s
  match s with
  | .posix _ name nm _ => do
    unlink nm
    free name (nm.length+1)
  | .sysv _ id => release (.segment id)
  | .malloc _ addr len => free addr len

/-- What the wrappers see of the system. -/
structure Host where
  /-- Running on Linux. -/
  linux : Bool
  /-- The page size. -/
  page : ℕ
  /-- The granularity of SysV mappings. -/
  shmlba : ℕ
  /-- The mount table. -/
  mtab : List Mntent

/-- The name of a file in huge pages or of a shared memory object. -/
def posixName (P : Host) (name : List Char) (huge : ℕ) : Call (Option (ℕ×List Char)) :=
  if P.page<huge then getHmnt P.mtab name else getSmnt name

/-- The end of a failed `shmw_ctor` of `shmw_posix.c` behind its `open`. -/
def posixOut (name fd : ℕ) (nm : List Char) : Call (Option (ShmS×ℕ)) := do
  unlink nm
  close fd
  free name (nm.length+1)
  pure none

/-- `shmw_ctor` of `shmw_posix.c`, with the size it leaves. -/
def posixCtor (P : Host) (name : List Char) (siz huge : ℕ) (circ : Bool) :
    Call (Option (ShmS×ℕ)) :=
  if P.linux=false ∧ huge≠0 then pure none
  else do
    match ← posixName P name huge with
    | none => pure none
    | some (p,nm) =>
      let siz := yAlign siz (if P.page<huge then huge else P.page)
      match ← openExcl nm with
      | none => do
        free p (nm.length+1)
        pure none
      | some fd =>
        let truncated ← succeeds
        if truncated=false then posixOut p fd nm
        else
          match ← mapAt (.fd fd) (.file nm) siz 0 with
          | none => posixOut p fd nm
          | some addr =>
            let m ← mapArea circ (.fd fd) (.file nm) siz addr
            close fd
            pure (some (.posix m p nm (decide (P.page<huge)),siz))

/-- `shmw_ctor` of `shmw_sysv.c`, with the size it leaves. -/
def sysvCtor (P : Host) (siz huge : ℕ) (circ : Bool) : Call (Option (ShmS×ℕ)) :=
  if P.linux=false ∧ huge≠0 then pure none
  else do
    let siz := yAlign siz (max (if P.page<huge then huge else P.page) P.shmlba)
    match ← shmget with
    | none => pure none
    | some id =>
      match ← mapAt (.segment id) (.segment id) siz 0 with
      | none => do
        release (.segment id)
        pure none
      | some addr =>
        let m ← mapArea circ (.segment id) (.segment id) siz addr
        pure (some (.sysv m id,siz))

/-- `shmw_ctor` of `shmw_malloc.c`, with the size it leaves. -/
def mallocCtor (P : Host) (siz huge : ℕ) : Call (Option (ShmS×ℕ)) :=
  if huge≠0 then pure none
  else do
    let siz := yAlign siz P.page
    let len := wordAdd siz P.page
    match ← Kernel.malloc len with
    | none => pure none
    | some addr => pure (some (.malloc (yAlign addr P.page) addr len,siz))

/-- `shmw_ctor` of a variant. -/
def shmwCtor (P : Host) (kind : ShmKind) (name : List Char) (siz huge : ℕ) (circ : Bool) :
    Call (Option (ShmS×ℕ)) :=
  match kind with
  | .posix => posixCtor P name siz huge circ
  | .sysv => sysvCtor P siz huge circ
  | .malloc => mallocCtor P siz huge

variable {need : Multiset Res} {obj : Obj} {siz addr : ℕ}

/-- A detach undoes both mappings. -/
theorem Mapping.detach_uses (m : Mapping) (obj : Obj) :
    Uses (m.held obj) (m.detach obj) fun _ keep => keep=0 := by
  obtain ⟨ptr,ptrc,siz⟩ := m
  cases ptrc with
  | none =>
    have hheld : Mapping.held ⟨ptr,none,siz⟩ obj={Res.region ptr siz obj} := zero_add _
    rw [hheld]
    exact Uses.release (Res.region ptr siz obj)
  | some c =>
    refine (Uses.drop (Res.region c siz obj) {.region ptr siz obj}).seq fun _ => ?_
    exact Uses.release _

/-- A mapping of a size lies inside the address range, and a second one follows
it. -/
structure Mapping.Ok (m : Mapping) (siz : ℕ) : Prop where
  /-- The size of either. -/
  siz_eq : m.siz=siz
  /-- The first is not at zero. -/
  pos : 0 < m.ptr
  /-- The first ends inside. -/
  lt : m.ptr+siz<wordSize
  /-- The second follows the first and ends inside. -/
  next : ∀ c,m.ptrc=some c → c=m.ptr+siz ∧ c+siz<wordSize

/-- A try keeps a mapping that touches the first one, or nothing. -/
theorem adjoin_uses {handle : Res} (hh : handle∈need) (hint : ℕ) :
    Uses need (adjoin handle obj siz addr hint) fun r keep =>
      r=none ∧ keep=need ∨ ∃ c,r=some c ∧ (0<c ∧ c+siz<wordSize) ∧
        (addr+siz=c ∨ c+siz=addr) ∧ keep={.region c siz obj}+need := by
  refine (mapAt_uses hh obj siz hint).bind fun r keep hk => ?_
  rcases hk with ⟨rfl,rfl⟩|⟨c,rfl,hpos,hlt,rfl⟩
  · exact .pure (.inl ⟨rfl,rfl⟩)
  · refine Uses.ite (fun ht => .pure (.inr ⟨c,rfl,⟨hpos,hlt⟩,ht,rfl⟩)) fun _ => ?_
    exact (Uses.drop _ _).bind fun _ _ hk => .pure (.inl ⟨rfl,hk⟩)

/-- Two mappings that touch are in order. -/
theorem inOrder_ok {c : ℕ} (ha : 0<addr ∧ addr+siz<wordSize) (hc : 0<c ∧ c+siz<wordSize)
    (ht : addr+siz=c ∨ c+siz=addr) (obj : Obj) :
    (inOrder siz addr c).Ok siz ∧
      (inOrder siz addr c).held obj={.region c siz obj}+{.region addr siz obj} := by
  unfold inOrder
  by_cases hlt : c<addr
  · rw [if_pos hlt]
    refine ⟨⟨rfl,hc.1,hc.2,fun d hd => ?_⟩,add_comm _ _⟩
    cases hd
    have hnext : addr=c+siz := by omega
    exact ⟨hnext,ha.2⟩
  · rw [if_neg hlt]
    refine ⟨⟨rfl,ha.1,ha.2,fun d hd => ?_⟩,rfl⟩
    cases hd
    have hnext : c=addr+siz := by omega
    exact ⟨hnext,hc.2⟩

/-- Whatever the system answers, what is kept is one mapping, or two in a row. -/
theorem mapTwice_uses {handle : Res} (hh : handle∈need) (ha : 0<addr ∧ addr+siz<wordSize) :
    Uses ({.region addr siz obj}+need) (mapTwice handle obj siz addr) fun m keep =>
      m.Ok siz ∧ keep=m.held obj+need := by
  have hin : handle∈{Res.region addr siz obj}+need := Multiset.mem_add.mpr (.inr hh)
  refine (adjoin_uses hin (wordAdd addr siz)).bind fun r keep hk => ?_
  rcases hk with ⟨rfl,rfl⟩|⟨c,rfl,hc,ht,rfl⟩
  · refine (adjoin_uses hin (wordSub addr siz)).bind fun r keep hk => ?_
    rcases hk with ⟨rfl,rfl⟩|⟨c,rfl,hc,ht,rfl⟩
    · exact .pure ⟨⟨rfl,ha.1,ha.2,nofun⟩,by rw [Mapping.held,Option.elim_none,zero_add]⟩
    · obtain ⟨hok,hheld⟩ := inOrder_ok ha hc ht obj
      exact .pure ⟨hok,by rw [hheld,add_assoc]⟩
  · obtain ⟨hok,hheld⟩ := inOrder_ok ha hc ht obj
    exact .pure ⟨hok,by rw [hheld,add_assoc]⟩

/-- What a constructed area looks like: where it is mapped, and twice only when
that was asked for. -/
def ShmS.Ok (P : Host) (siz : ℕ) (circ : Bool) : ShmS → Prop
  | .posix m _ _ _ => m.Ok siz ∧ (circ=false → m.ptrc=none)
  | .sysv m _ => m.Ok siz ∧ (circ=false → m.ptrc=none)
  | .malloc ptr addr len =>
    ptr=yAlign addr P.page ∧ len=wordAdd siz P.page ∧ 0<addr ∧ addr+len<wordSize

/-- The variant of an area. -/
def ShmS.kind : ShmS → ShmKind
  | .posix _ _ _ _ => .posix
  | .sysv _ _ => .sysv
  | .malloc _ _ _ => .malloc

/-- What a size is rounded up to. Memory from `malloc` is never huge. -/
def ShmKind.unit (P : Host) (huge : ℕ) : ShmKind → ℕ
  | .sysv => max (if P.page<huge then huge else P.page) P.shmlba
  | _ => if P.page<huge then huge else P.page

/-- A constructor keeps what the object holds, or nothing. -/
def Made (P : Host) (kind : ShmKind) (siz huge : ℕ) (circ : Bool) (need : Multiset Res)
    (r : Option (ShmS×ℕ)) (keep : Multiset Res) : Prop :=
  r=none ∧ keep=need ∨ ∃ s,r=some (s,yAlign siz (kind.unit P huge)) ∧ s.kind=kind ∧
    s.Ok P (yAlign siz (kind.unit P huge)) circ ∧ keep=s.owns+need

/-- Mapping once, or twice when that is asked for. -/
theorem mapArea_uses {handle : Res} (circ : Bool) (hh : handle∈need)
    (ha : 0<addr ∧ addr+siz<wordSize) :
    Uses ({.region addr siz obj}+need) (mapArea circ handle obj siz addr) fun m keep =>
      (m.Ok siz ∧ (circ=false → m.ptrc=none)) ∧ keep=m.held obj+need := by
  refine Uses.ite (fun hc => ?_) fun _ => .pure ⟨⟨⟨rfl,ha.1,ha.2,nofun⟩,fun _ => rfl⟩,?_⟩
  · refine (mapTwice_uses hh ha).mono fun m keep ⟨hok,hk⟩ => ⟨⟨hok,fun hn => ?_⟩,hk⟩
    exact absurd (hc.symm.trans hn) Bool.false_ne_true.symm
  · rw [Mapping.held,Option.elim_none,zero_add]

/-- A failed constructor undoes what it has done behind its `open`. -/
theorem posixOut_uses (name fd : ℕ) (nm : List Char) :
    Uses ({.fd fd}+({.name nm}+({.heap name (nm.length+1)}+need))) (posixOut name fd nm)
      fun r keep => r=none ∧ keep=need := by
  rw [add_left_comm]
  refine (Uses.drop _ _).seq fun _ => ?_
  refine (Uses.drop _ _).seq fun _ => ?_
  exact (Uses.drop _ _).bind fun _ keep hk => .pure ⟨rfl,hk⟩

/-- A name is in memory, or there is none. -/
theorem posixName_uses (P : Host) (name : List Char) (huge : ℕ) :
    Uses need (posixName P name huge) fun r keep =>
      r=none ∧ keep=need ∨ ∃ p nm,r=some (p,nm) ∧ keep={.heap p (nm.length+1)}+need := by
  refine Uses.ite (fun _ => (getHmnt_uses P.mtab name).mono fun r keep => Or.imp_right ?_)
    fun _ => (getSmnt_uses name).mono fun r keep => Or.imp_right ?_
  · exact fun ⟨p,nm,hr,_,hk⟩ => ⟨p,nm,hr,hk⟩
  · exact fun ⟨p,nm,hr,_,hk⟩ => ⟨p,nm,hr,hk⟩

/-- The constructor of `shmw_posix.c` keeps nothing when it fails. -/
theorem posixCtor_uses (P : Host) (name : List Char) (siz huge : ℕ) (circ : Bool) :
    Uses need (posixCtor P name siz huge circ) (Made P .posix siz huge circ need) := by
  refine Uses.ite (fun _ => .pure (.inl ⟨rfl,rfl⟩)) fun _ => ?_
  refine (posixName_uses P name huge).bind fun r keep hk => ?_
  rcases hk with ⟨rfl,rfl⟩|⟨p,nm,rfl,rfl⟩
  · exact .pure (.inl ⟨rfl,rfl⟩)
  · dsimp only
    refine (openExcl_uses nm).bind fun r keep hk => ?_
    rcases hk with ⟨rfl,rfl⟩|⟨fd,rfl,rfl⟩
    · exact (Uses.drop _ _).bind fun _ keep hk => .pure (.inl ⟨rfl,hk⟩)
    · refine Uses.succeeds.seq fun ok => ?_
      have hout : Uses ({.fd fd}+({.name nm}+({.heap p (nm.length+1)}+need))) (posixOut p fd nm)
          (Made P .posix siz huge circ need) := (posixOut_uses p fd nm).mono fun _ _ => .inl
      refine Uses.ite (fun _ => hout) fun _ => ?_
      have hfd : .fd fd∈{Res.fd fd}+({.name nm}+({.heap p (nm.length+1)}+need)) :=
        Multiset.mem_add.mpr (.inl (Multiset.mem_singleton_self _))
      refine (mapAt_uses hfd _ _ _).bind fun r keep hk => ?_
      rcases hk with ⟨rfl,rfl⟩|⟨addr,rfl,hpos,hlt,rfl⟩
      · exact hout
      · refine (mapArea_uses circ hfd ⟨hpos,hlt⟩).bind fun m keep ⟨hok,hk⟩ => ?_
        rw [add_left_comm] at hk
        subst hk
        refine (Uses.drop _ _).bind fun _ keep hk => .pure (.inr ⟨_,rfl,rfl,hok,?_⟩)
        rw [hk]
        simp only [ShmS.owns,ShmS.mapped,ShmS.kept,add_assoc]

/-- The constructor of `shmw_sysv.c` keeps nothing when it fails. -/
theorem sysvCtor_uses (P : Host) (siz huge : ℕ) (circ : Bool) :
    Uses need (sysvCtor P siz huge circ) (Made P .sysv siz huge circ need) := by
  refine Uses.ite (fun _ => .pure (.inl ⟨rfl,rfl⟩)) fun _ => ?_
  dsimp only
  refine (Uses.grant _ _).bind fun r keep hk => ?_
  rcases hk with ⟨rfl,rfl⟩|⟨id,rfl,_,rfl⟩
  · exact .pure (.inl ⟨rfl,rfl⟩)
  · have hid : .segment id∈(↑[Res.segment id] : Multiset Res)+need :=
      Multiset.mem_add.mpr (.inl (Multiset.mem_singleton_self _))
    refine (mapAt_uses hid _ _ _).bind fun r keep hk => ?_
    rcases hk with ⟨rfl,rfl⟩|⟨addr,rfl,hpos,hlt,rfl⟩
    · exact (Uses.drop _ _).bind fun _ keep hk => .pure (.inl ⟨rfl,hk⟩)
    · refine (mapArea_uses circ hid ⟨hpos,hlt⟩).bind fun m keep ⟨hok,hk⟩ => ?_
      refine .pure (.inr ⟨_,rfl,rfl,hok,?_⟩)
      rw [hk,ShmS.owns,add_assoc]
      rfl

/-- The constructor of `shmw_malloc.c` keeps nothing when it fails. -/
theorem mallocCtor_uses (P : Host) (siz huge : ℕ) (circ : Bool) :
    Uses need (mallocCtor P siz huge) (Made P .malloc siz huge circ need) := by
  refine Uses.ite (fun _ => .pure (.inl ⟨rfl,rfl⟩)) fun hh => ?_
  dsimp only
  refine (malloc_uses _).bind fun r keep hk => ?_
  rcases hk with ⟨rfl,rfl⟩|⟨addr,rfl,hpos,hlt,rfl⟩
  · exact .pure (.inl ⟨rfl,rfl⟩)
  · have hunit : ShmKind.malloc.unit P huge=P.page := by
      rw [not_ne_iff.mp hh,ShmKind.unit.eq_def]
      exact if_neg (Nat.not_lt_zero P.page)
    unfold Made
    rw [hunit]
    refine .pure (.inr ⟨_,rfl,rfl,⟨rfl,rfl,hpos,hlt⟩,?_⟩)
    rw [ShmS.owns,ShmS.mapped,zero_add]
    rfl

/-- A constructor keeps nothing when it fails. -/
theorem shmwCtor_uses (P : Host) (kind : ShmKind) (name : List Char) (siz huge : ℕ)
    (circ : Bool) :
    Uses need (shmwCtor P kind name siz huge circ) (Made P kind siz huge circ need) := by
  cases kind with
  | posix => exact posixCtor_uses P name siz huge circ
  | sysv => exact sysvCtor_uses P siz huge circ
  | malloc => exact mallocCtor_uses P siz huge circ

/-- A detach releases what the process holds for itself. -/
theorem shmwDt_uses (s : ShmS) : Uses (s.mapped+need) (shmwDt s) fun _ keep => keep=need := by
  cases s with
  | posix m name nm ishuge =>
    exact (m.detach_uses _).part rfl fun _ keep hk => by rw [hk,zero_add]
  | sysv m id => exact (m.detach_uses _).part rfl fun _ keep hk => by rw [hk,zero_add]
  | malloc ptr addr len => exact .pure (zero_add need)

/-- The destructor releases all that the object holds. -/
theorem shmwDtor_uses (s : ShmS) : Uses (s.owns+need) (shmwDtor s) fun _ keep => keep=need := by
  rw [ShmS.owns,add_assoc]
  refine (shmwDt_uses s).seq fun _ => ?_
  cases s with
  | posix m name nm ishuge =>
    rw [ShmS.kept,add_assoc]
    refine (Uses.drop _ _).seq fun _ => ?_
    exact Uses.drop _ _
  | sysv m id => exact Uses.drop _ _
  | malloc ptr addr len => exact Uses.drop _ _

/-- `sem_init`, `pthread_mutex_init` and the like: something comes to life where
the program says. -/
def initAt (r : Res) : Call Bool := do
  let ok ← succeeds
  if ok=true then acquire [r] else pure false

/-- The variants of semaphores. -/
inductive SemKind
  /-- `semw_posixu.c`. -/
  | posixu
  /-- `semw_sysv.c`. -/
  | sysv
  deriving DecidableEq

/-- `struct sem_s` of the two variants, with its first count. -/
inductive SemS
  /-- A semaphore in memory. -/
  | posixu (addr : ℕ) (mp : Bool) (val : ℕ)
  /-- A SysV semaphore. -/
  | sysv (id val : ℕ)

/-- What a semaphore holds. -/
def SemS.owns : SemS → Multiset Res
  | .posixu addr mp _ => {.sem addr mp}
  | .sysv id _ => {.semset id}

/-- The first count. -/
def SemS.val : SemS → ℕ
  | .posixu _ _ val => val
  | .sysv _ val => val

/-- Processes can share it. -/
def SemS.shared : SemS → Bool
  | .posixu _ mp _ => mp
  | .sysv _ _ => true

/-- `semw_ctor`. The object is at an address of the memory `home`. -/
def semwCtor (kind : SemKind) (home : Res) (addr : ℕ) (mp : Bool) (val : ℕ) :
    Call (Option SemS) := do
  touch home
  match kind with
  | .posixu =>
    let ok ← initAt (.sem addr mp)
    pure (if ok=true then some (.posixu addr mp val) else none)
  | .sysv =>
    match ← semget with
    | none => pure none
    | some id =>
      let ok ← succeeds
      if ok=true then pure (some (.sysv id val))
      else do
        release (.semset id)
        pure none

/-- `semw_dt`. -/
def semwDt (_ : SemS) : Call Unit := pure ()

/-- `semw_dtor`. -/
def semwDtor (home : Res) (s : SemS) : Call Unit := do
  semwDt s
  touch home
  match s with
  | .posixu addr mp _ => release (.sem addr mp)
  | .sysv id _ => release (.semset id)

/-- The variants of mutexes. -/
inductive MtxKind
  /-- `mtxw_posix.c`. -/
  | posix
  /-- A semaphore, as `mtxw.h` has it. -/
  | sem

/-- `struct mtx_s` of the two variants. -/
inductive MtxS
  /-- A mutex in memory. -/
  | posix (addr : ℕ) (mp : Bool)
  /-- A semaphore. -/
  | sem (s : SemS)

/-- What a mutex holds. -/
def MtxS.owns : MtxS → Multiset Res
  | .posix addr mp => {.mutex addr mp}
  | .sem s => s.owns

/-- Processes can share it. -/
def MtxS.shared : MtxS → Bool
  | .posix _ mp => mp
  | .sem s => s.shared

/-- `pthread_mutex_init`, unless the attributes could not be set. -/
def initShared (shared : Bool) (r : Res) : Call Bool :=
  if shared=true then initAt r else pure false

/-- `mtxw_ctor`. -/
def mtxwCtor (kind : MtxKind) (sems : SemKind) (home : Res) (addr : ℕ) (mp : Bool) :
    Call (Option MtxS) := do
  match kind with
  | .posix =>
    touch home
    let hasAttr ← initAt .attr
    if hasAttr=false then pure none
    else
      let shared ← succeeds
      let ok ← initShared shared (.mutex addr mp)
      release .attr
      pure (if ok=true then some (.posix addr mp) else none)
  | .sem =>
    let s ← semwCtor sems home addr mp 1
    pure (s.map .sem)

/-- `mtxw_dt`. -/
def mtxwDt : MtxS → Call Unit
  | .posix _ _ => pure ()
  | .sem s => semwDt s

/-- `mtxw_dtor`. -/
def mtxwDtor (home : Res) : MtxS → Call Unit
  | .posix addr mp => do
    touch home
    release (.mutex addr mp)
  | .sem s => semwDtor home s

/-- What comes to life is held. -/
theorem initAt_uses (r : Res) : Uses need (initAt r) fun ok keep =>
    keep=if ok=true then {r}+need else need := by
  refine Uses.succeeds.seq fun ok => ?_
  exact Uses.ite (fun _ => Uses.acquire [r]) fun _ => .pure (if_neg Bool.false_ne_true).symm

/-- What comes to life is held, where the attributes could be set. -/
theorem initShared_uses (shared : Bool) (r : Res) : Uses need (initShared shared r) fun ok keep =>
    keep=if ok=true then {r}+need else need :=
  Uses.ite (fun _ => initAt_uses r) fun _ => .pure (if_neg Bool.false_ne_true).symm

variable {home : Res}

/-- The constructor of a semaphore keeps nothing when it fails. -/
theorem semwCtor_uses (kind : SemKind) (hh : home∈need) (addr : ℕ) (mp : Bool) (val : ℕ) :
    Uses need (semwCtor kind home addr mp val) fun r keep =>
      r=none ∧ keep=need ∨
        ∃ s : SemS,r=some s ∧ s.val=val ∧ (mp=true → s.shared=true) ∧ keep=s.owns+need := by
  refine (Uses.touch hh).seq fun _ => ?_
  cases kind with
  | posixu =>
    refine (initAt_uses _).seq fun ok => ?_
    cases ok with
    | true => exact .pure (.inr ⟨.posixu addr mp val,rfl,rfl,id,rfl⟩)
    | false => exact .pure (.inl ⟨rfl,rfl⟩)
  | sysv =>
    refine (Uses.grant _ _).bind fun r keep hk => ?_
    rcases hk with ⟨rfl,rfl⟩|⟨id,rfl,_,rfl⟩
    · exact .pure (.inl ⟨rfl,rfl⟩)
    · refine Uses.succeeds.seq fun ok => ?_
      refine Uses.ite (fun _ => .pure (.inr ⟨.sysv id val,rfl,rfl,fun _ => rfl,rfl⟩)) fun _ => ?_
      exact (Uses.drop _ _).bind fun _ keep hk => .pure (.inl ⟨rfl,hk⟩)

/-- The detach of a semaphore does nothing. -/
theorem semwDt_uses (s : SemS) : Uses need (semwDt s) fun _ keep => keep=need := .pure rfl

/-- The destructor of a semaphore releases it. -/
theorem semwDtor_uses (s : SemS) (hh : home∈need) :
    Uses (s.owns+need) (semwDtor home s) fun _ keep => keep=need := by
  refine (semwDt_uses s).seq fun _ => ?_
  refine (Uses.touch (Multiset.mem_add.mpr (.inr hh))).seq fun _ => ?_
  cases s with
  | posixu addr mp val => exact Uses.drop _ _
  | sysv id val => exact Uses.drop _ _

/-- The constructor of a mutex keeps nothing when it fails, and its attributes in
no case. -/
theorem mtxwCtor_uses (kind : MtxKind) (sems : SemKind) (hh : home∈need) (addr : ℕ)
    (mp : Bool) :
    Uses need (mtxwCtor kind sems home addr mp) fun r keep =>
      r=none ∧ keep=need ∨
        ∃ m : MtxS,r=some m ∧ (mp=true → m.shared=true) ∧ keep=m.owns+need := by
  cases kind with
  | posix =>
    refine (Uses.touch hh).seq fun _ => ?_
    refine (initAt_uses _).seq fun ok => ?_
    refine Uses.ite (fun ho => .pure (.inl ⟨rfl,?_⟩)) fun ho => ?_
    · rw [ho,if_neg Bool.false_ne_true]
    · rw [if_pos (Bool.eq_true_of_not_eq_false ho)]
      refine Uses.succeeds.seq fun shared => ?_
      refine (initShared_uses shared _).seq fun ok => ?_
      cases ok with
      | true =>
        rw [if_pos rfl,add_left_comm]
        exact (Uses.drop _ _).bind fun _ keep hk => .pure (.inr ⟨.posix addr mp,rfl,id,hk⟩)
      | false => exact (Uses.drop _ _).bind fun _ keep hk => .pure (.inl ⟨rfl,hk⟩)
  | sem =>
    refine (semwCtor_uses sems hh addr mp 1).bind fun r keep hk => ?_
    rcases hk with ⟨rfl,rfl⟩|⟨s,rfl,_,hs,rfl⟩
    · exact .pure (.inl ⟨rfl,rfl⟩)
    · exact .pure (.inr ⟨.sem s,rfl,hs,rfl⟩)

/-- The detach of a mutex does nothing. -/
theorem mtxwDt_uses (m : MtxS) : Uses need (mtxwDt m) fun _ keep => keep=need := by
  cases m with
  | posix addr mp => exact .pure rfl
  | sem s => exact semwDt_uses s

/-- The destructor of a mutex releases it. -/
theorem mtxwDtor_uses (m : MtxS) (hh : home∈need) :
    Uses (m.owns+need) (mtxwDtor home m) fun _ keep => keep=need := by
  cases m with
  | posix addr mp =>
    refine (Uses.touch (Multiset.mem_add.mpr (.inr hh))).seq fun _ => ?_
    exact Uses.drop _ _
  | sem s => exact semwDtor_uses s hh

/-- The memory of an area is held. -/
theorem ShmS.place_mem (s : ShmS) : s.place∈s.owns := by
  cases s with
  | posix m name nm ishuge =>
    exact Multiset.mem_add.mpr (.inl (Multiset.mem_add.mpr (.inr (Multiset.mem_singleton_self _))))
  | sysv m id =>
    exact Multiset.mem_add.mpr (.inl (Multiset.mem_add.mpr (.inr (Multiset.mem_singleton_self _))))
  | malloc ptr addr len => exact Multiset.mem_add.mpr (.inr (Multiset.mem_singleton_self _))

end Yancat.Wrappers
