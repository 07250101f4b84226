import Yancat.Buffer
import Yancat.Resources

/-!
# Memory, names and handles

What the wrappers around shared memory, semaphores and mutexes hold, and the
system calls they make. Nothing is assumed of the answers of the system but that
it never hands out what is in use: an address range that overlaps another one, a
name that exists, a descriptor that is open.
-/

namespace Yancat.Kernel

open Buffer WordArithmetic Resources

/-- What a mapping shows. -/
inductive Obj
  /-- A file, or a POSIX shared memory object. -/
  | file (nm : List Char)
  /-- A SysV segment. -/
  | segment (id : ℕ)
  deriving DecidableEq

/-- What a process or the system holds on behalf of the program. -/
inductive Res
  /-- An allocation of `malloc`. -/
  | heap (lo len : ℕ)
  /-- A mapping. -/
  | region (lo len : ℕ) (obj : Obj)
  /-- An open descriptor. -/
  | fd (n : ℕ)
  /-- The name of a file or of a shared memory object. -/
  | name (nm : List Char)
  /-- A SysV segment. -/
  | segment (id : ℕ)
  /-- A SysV semaphore. -/
  | semset (id : ℕ)
  /-- A semaphore in memory, shared between processes or not. -/
  | sem (addr : ℕ) (pshared : Bool)
  /-- A mutex in memory, shared between processes or not. -/
  | mutex (addr : ℕ) (pshared : Bool)
  /-- The attributes of a mutex. -/
  | attr
  /-- The stream of the mount table. -/
  | mtab
  deriving DecidableEq

/-- The addresses that something occupies: the first one and their number. -/
def Res.span : Res → ℕ×ℕ
  | .heap lo len => (lo,len)
  | .region lo len _ => (lo,len)
  | _ => (0,0)

/-- Things that cannot be held at once: one thing twice, or overlapping memory. -/
def Clash (a b : Res) : Prop :=
  a=b ∨ a.span.1<b.span.1+b.span.2 ∧ b.span.1<a.span.1+a.span.2

instance : DecidableRel Clash := fun _ _ => instDecidableOr

/-- Clashes are mutual. -/
theorem Clash.symm {a b : Res} (h : Clash a b) : Clash b a := h.imp Eq.symm And.symm

/-- Programs that make system calls. -/
abbrev Call : Type → Type := Prog Clash

/-- An address range that the system hands out: not at zero, and not past the end
of the address range. -/
def inWord (len lo : ℕ) : Bool := decide (0<lo ∧ lo+len<wordSize)

/-- `malloc`. -/
def malloc (len : ℕ) : Call (Option ℕ) := grant (inWord len) fun lo => [.heap lo len]

/-- `free`, of a block whose size the allocator knows. -/
def free (lo len : ℕ) : Call Unit := release (.heap lo len)

/-- `open` and `shm_open` of a name that must not exist yet. -/
def openExcl (nm : List Char) : Call (Option ℕ) := grant (fun _ => true) fun fd => [.fd fd,.name nm]

/-- `close`. -/
def close (fd : ℕ) : Call Unit := release (.fd fd)

/-- `unlink` and `shm_unlink`. -/
def unlink (nm : List Char) : Call Unit := release (.name nm)

/-- `mmap` over an open descriptor, `shmat` over a segment. The address asked for
does not bind the system. -/
def mapAt (handle : Res) (obj : Obj) (siz _hint : ℕ) : Call (Option ℕ) := do
  touch handle
  grant (inWord siz) fun lo => [.region lo siz obj]

/-- `munmap`, `shmdt`. -/
def unmap (obj : Obj) (siz lo : ℕ) : Call Unit := release (.region lo siz obj)

/-- `shmget`. -/
def shmget : Call (Option ℕ) := grant (fun _ => true) fun id => [.segment id]

/-- `semget`. -/
def semget : Call (Option ℕ) := grant (fun _ => true) fun id => [.semset id]

/-- `rand`. -/
def rand : Call ℕ := do
  let a ← ask
  pure a.toNat

/-- The digits of random names. -/
def digits : List Char :=
  "ABCDEFGHIJKLMNOPQRSTUVWXYZabcdefghijklmnopqrstuvwxyz1234567890".toList

/-- `get_strrnd`, which writes from the end. -/
def getStrrnd : ℕ → Call (List Char)
  | 0 => pure []
  | len+1 => do
    let r ← rand
    let s ← getStrrnd len
    pure (s++[digits.getD (r%digits.length) 'A'])

/-- A random name after a base, in memory of its own, unless that exceeds a
limit. -/
def randomName (pathmax : ℕ) (base : List Char) : Call (Option (ℕ×List Char)) :=
  if pathmax ≤ base.length+9 then pure none
  else do
    match ← malloc (base.length+9+1) with
    | none => pure none
    | some p => do
      let s ← getStrrnd 8
      pure (some (p,base++ '-'::s))

/-- `get_smnt`, whose limit is that of portable names. -/
def getSmnt : List Char → Call (Option (ℕ×List Char)) := randomName 255

/-- An entry of the mount table. -/
structure Mntent where
  /-- The type of the file system. -/
  type : List Char
  /-- Where it is mounted. -/
  dir : List Char
  /-- What `get_pathmax` says of it. -/
  pathmax : ℕ

/-- The loop of `get_hmnt` over the mount table. -/
def hmntLoop (f : List Char) : List Mntent → Call (Option (ℕ×List Char))
  | [] => pure none
  | m::rest =>
    if m.type≠"hugetlbfs".toList then hmntLoop f rest else randomName m.pathmax (m.dir++f)

/-- `get_hmnt`. -/
def getHmnt (mtab : List Mntent) (f : List Char) : Call (Option (ℕ×List Char)) := do
  let opened ← acquire [.mtab]
  if opened=false then pure none
  else
    let name ← hmntLoop f mtab
    release .mtab
    pure name

variable {need : Multiset Res}

/-- Memory is handed out inside the address range. -/
theorem malloc_uses (len : ℕ) : Uses need (malloc len) fun r keep =>
    r=none ∧ keep=need ∨
      ∃ lo,r=some lo ∧ 0<lo ∧ lo+len<wordSize ∧ keep={.heap lo len}+need := by
  refine (Uses.grant _ _).mono fun r keep => Or.imp_right ?_
  rintro ⟨lo,rfl,hs,rfl⟩
  obtain ⟨hpos,hlt⟩ := of_decide_eq_true hs
  exact ⟨lo,rfl,hpos,hlt,rfl⟩

/-- A mapping is handed out inside the address range, over a handle that is
held. -/
theorem mapAt_uses {handle : Res} (hh : handle∈need) (obj : Obj) (siz hint : ℕ) :
    Uses need (mapAt handle obj siz hint) fun r keep =>
      r=none ∧ keep=need ∨
        ∃ lo,r=some lo ∧ 0<lo ∧ lo+siz<wordSize ∧ keep={.region lo siz obj}+need := by
  refine (Uses.touch hh).seq fun _ => ?_
  refine (Uses.grant _ _).mono fun r keep => Or.imp_right ?_
  rintro ⟨lo,rfl,hs,rfl⟩
  obtain ⟨hpos,hlt⟩ := of_decide_eq_true hs
  exact ⟨lo,rfl,hpos,hlt,rfl⟩

/-- A name is created together with its descriptor. -/
theorem openExcl_uses (nm : List Char) : Uses need (openExcl nm) fun r keep =>
    r=none ∧ keep=need ∨ ∃ fd,r=some fd ∧ keep={.fd fd}+({.name nm}+need) := by
  refine (Uses.grant _ _).mono fun r keep => Or.imp_right ?_
  rintro ⟨fd,rfl,_,rfl⟩
  exact ⟨fd,rfl,add_assoc {Res.fd fd} {Res.name nm} need⟩

/-- A random number changes nothing. -/
theorem rand_uses : Uses need rand fun _ keep => keep=need := Uses.ask.bind fun _ _ hk => .pure hk

/-- Random digits are digits. -/
theorem getStrrnd_uses (len : ℕ) : Uses need (getStrrnd len) fun s keep =>
    keep=need ∧ s.length=len ∧ ∀ c∈s,c∈digits := by
  induction len with
  | zero => exact .pure ⟨rfl,rfl,nofun⟩
  | succ len ih =>
    refine rand_uses.seq fun r => ?_
    refine ih.bind fun s keep ⟨hk,hl,hs⟩ => .pure ⟨hk,by rw [List.length_append,hl]; rfl,?_⟩
    intro c hc
    rcases List.mem_append.mp hc with hc|hc
    · exact hs c hc
    · rw [List.mem_singleton.mp hc]
      have hlt : r%digits.length<digits.length := Nat.mod_lt _ (by decide)
      rw [List.getD_eq_getElem _ _ hlt]
      exact List.getElem_mem hlt

/-- A random name after a base: the base, a dash and eight digits, in memory for
its length and a terminator. -/
def NameAfter (base nm : List Char) : Prop :=
  ∃ s,nm=base++ '-'::s ∧ s.length=8 ∧ ∀ c∈s,c∈digits

/-- What the making of a name leaves behind. -/
def Named (pathmax : ℕ) (base : List Char) (need : Multiset Res) (r : Option (ℕ×List Char))
    (keep : Multiset Res) : Prop :=
  r=none ∧ keep=need ∨ ∃ p nm,r=some (p,nm) ∧ NameAfter base nm ∧ nm.length<pathmax ∧
    keep={.heap p (nm.length+1)}+need

/-- A random name fits its memory and the limit. -/
theorem randomName_uses (pathmax : ℕ) (base : List Char) :
    Uses need (randomName pathmax base) (Named pathmax base need) := by
  refine Uses.ite (fun _ => .pure (.inl ⟨rfl,rfl⟩)) fun hlt => ?_
  refine (malloc_uses _).bind fun r keep hk => ?_
  rcases hk with ⟨rfl,rfl⟩|⟨p,rfl,_,_,rfl⟩
  · exact .pure (.inl ⟨rfl,rfl⟩)
  · refine (getStrrnd_uses 8).bind fun s keep ⟨hk,hl,hs⟩ => .pure ?_
    have hlen : (base++ '-'::s).length=base.length+9 := by
      rw [List.length_append,List.length_cons,hl]
    refine .inr ⟨p,_,rfl,⟨s,rfl,hl,hs⟩,?_,?_⟩
    · rw [hlen]
      exact not_le.mp hlt
    · rw [hlen]
      exact hk

/-- A name is made below the first mount point of the right type, if at all. -/
theorem hmntLoop_uses (f : List Char) (mtab : List Mntent) :
    Uses need (hmntLoop f mtab) fun r keep =>
      r=none ∧ keep=need ∨ ∃ m∈mtab,Named m.pathmax (m.dir++f) need r keep := by
  induction mtab with
  | nil => exact .pure (.inl ⟨rfl,rfl⟩)
  | cons m rest ih =>
    refine Uses.ite (fun _ => ih.mono fun r keep => Or.imp_right ?_) fun _ => ?_
    · rintro ⟨e,he,hn⟩
      exact ⟨e,List.mem_cons_of_mem m he,hn⟩
    · exact (randomName_uses m.pathmax (m.dir++f)).mono fun r keep hn =>
        .inr ⟨m,List.mem_cons_self,hn⟩

/-- The name of a shared memory object, which is short. -/
theorem getSmnt_uses (f : List Char) : Uses need (getSmnt f) fun r keep =>
    r=none ∧ keep=need ∨
      ∃ p nm,r=some (p,nm) ∧ NameAfter f nm ∧ keep={.heap p (nm.length+1)}+need :=
  (randomName_uses 255 f).mono fun _ _ => Or.imp_right fun ⟨p,nm,hr,hn,_,hk⟩ => ⟨p,nm,hr,hn,hk⟩

/-- The name of a file in huge pages, and the mount table is closed again. -/
theorem getHmnt_uses (mtab : List Mntent) (f : List Char) : Uses need (getHmnt mtab f) fun r keep =>
    r=none ∧ keep=need ∨
      ∃ p nm,r=some (p,nm) ∧ (∃ m∈mtab,NameAfter (m.dir++f) nm) ∧
        keep={.heap p (nm.length+1)}+need := by
  refine (Uses.acquire _).seq fun ok => ?_
  refine Uses.ite (fun ho => .pure (.inl ⟨rfl,if_neg (by rw [ho]; exact Bool.false_ne_true)⟩))
    fun ho => ?_
  rw [if_pos (Bool.eq_true_of_not_eq_false ho)]
  refine (hmntLoop_uses f mtab).bind fun r keep hk => ?_
  rcases hk with ⟨rfl,rfl⟩|⟨m,hm,⟨rfl,rfl⟩|⟨p,nm,rfl,hn,_,rfl⟩⟩
  · exact (Uses.drop _ need).bind fun _ _ hk => .pure (.inl ⟨rfl,hk⟩)
  · exact (Uses.drop _ need).bind fun _ _ hk => .pure (.inl ⟨rfl,hk⟩)
  · have hswap : {Res.heap p (nm.length+1)}+((↑[Res.mtab] : Multiset Res)+need)=
        {Res.mtab}+({Res.heap p (nm.length+1)}+need) := add_left_comm _ _ _
    rw [hswap]
    exact (Uses.drop _ _).bind fun _ _ hk => .pure (.inr ⟨p,nm,rfl,⟨m,hm,hn⟩,hk⟩)

end Yancat.Kernel
