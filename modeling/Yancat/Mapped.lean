import Yancat.AddressSpace
import Yancat.BouncePath
import Yancat.Environment

/-!
# The buffer in mapped memory

The transfers of the buffer once more, with every access made at an address that
what is held translates to a cell of an object or of a block. Both areas of an
environment are mapped where the buffer reaches, the ring under two addresses a
byte when it is mapped twice in a row. The transfers over addresses then follow
those over the ring and the bounce allocation.
-/

namespace Yancat.Mapped

open Crc RingWindow WordArithmetic Buffer Resources Kernel Wrappers Environment AddressSpace
open Setup (OptionsS)
open Options (ModeT)

/-- What bytes are kept in. -/
inductive Backing
  /-- A file, a shared memory object or a segment. -/
  | obj (o : Obj)
  /-- A block of `malloc`. -/
  | block (lo : ℕ)
  deriving DecidableEq

/-- The place of a byte. -/
structure Cell where
  /-- What it is kept in. -/
  backing : Backing
  /-- The offset inside. -/
  off : ℕ
  deriving DecidableEq

/-- The cell at an address under a thing that is held. -/
def shows : Res → ℕ → Option Cell
  | .region lo len o,a => if lo ≤ a ∧ a<lo+len then some ⟨.obj o,a-lo⟩ else none
  | .heap lo len,a => if lo ≤ a ∧ a<lo+len then some ⟨.block lo,a-lo⟩ else none
  | _,_ => none

/-- A translation is the one of what is held. -/
def Translates (held : Multiset Res) (tr : ℕ → Option Cell) : Prop :=
  ∀ a c,tr a=some c ↔ ∃ r∈held,shows r a=some c

/-- What shows a cell at an address occupies the address. -/
theorem shows_span {r : Res} {a : ℕ} {c : Cell} (h : shows r a=some c) :
    r.span.1 ≤ a ∧ a<r.span.1+r.span.2 := by
  cases r with
  | region lo len o => exact (Option.ite_none_right_eq_some.mp h).1
  | heap lo len => exact (Option.ite_none_right_eq_some.mp h).1
  | _ => cases h

/-- No address has two cells, so there is a translation. -/
theorem exists_translates (w : World Clash) : ∃ tr,Translates w.held tr := by
  classical
  have huniq : ∀ a c c',(∃ r∈w.held,shows r a=some c) → (∃ r∈w.held,shows r a=some c') → c=c' := by
    rintro a c c' ⟨r,hr,hc⟩ ⟨r',hr',hc'⟩
    by_cases he : r=r'
    · subst he
      exact Option.some.inj (hc.symm.trans hc')
    · have hs := shows_span hc
      have hs' := shows_span hc'
      exact absurd (.inr ⟨by omega,by omega⟩) (w.not_clash (fun _ _ => Clash.symm) hr hr' he)
  refine ⟨fun a => if h : ∃ c,∃ r∈w.held,shows r a=some c then some h.choose else none,?_⟩
  intro a c
  dsimp only
  split
  · next h =>
    have hsome : some h.choose=some c ↔ h.choose=c := Option.some_inj
    rw [hsome]
    exact ⟨fun he => he ▸ h.choose_spec,huniq a _ c h.choose_spec⟩
  · next h => exact ⟨nofun,fun hc => absurd ⟨c,hc⟩ h⟩

/-- The cells of an area. -/
def cellOf : Wrappers.ShmS → ℕ → Cell
  | .posix _ _ nm _,i => ⟨.obj (.file nm),i⟩
  | .sysv _ id,i => ⟨.obj (.segment id),i⟩
  | .malloc ptr addr _,i => ⟨.block addr,ptr-addr+i⟩

/-- No cell is enumerated twice. -/
theorem cellOf_injective (s : Wrappers.ShmS) : Function.Injective (cellOf s) := by
  intro i j h
  cases s with
  | posix m name nm ishuge => exact congrArg Cell.off h
  | sysv m id => exact congrArg Cell.off h
  | malloc ptr addr len => exact Nat.add_left_cancel (congrArg Cell.off h)

variable {held : Multiset Res} {tr : ℕ → Option Cell} {siz : ℕ}

/-- How far the addresses of an area reach. -/
def reach (cir : Bool) (siz : ℕ) : ℕ := if cir=true then 2*siz else siz

/-- The index of the cell at an offset of an area. -/
def turn (cir : Bool) (siz i : ℕ) : ℕ := if cir=true then i%siz else i

/-- A mapping shows its object, under the second mapping once more. -/
theorem mapping_backed {m : Mapping} (hok : m.Ok siz) {o : Obj} (hle : m.held o ≤ held)
    (ht : Translates held tr) {i : ℕ} (hi : i<reach m.ptrc.isSome siz) :
    tr (m.ptr+i)=some ⟨.obj o,turn m.ptrc.isSome siz i⟩ := by
  obtain ⟨ptr,ptrc,siz'⟩ := m
  obtain rfl : siz'=siz := hok.siz_eq
  rw [ht]
  have hfirst : .region ptr siz' o∈held :=
    Multiset.mem_of_le hle (Multiset.mem_add.mpr (.inr (Multiset.mem_singleton_self _)))
  cases hc : ptrc with
  | none =>
    rw [hc] at hi
    have hlt : i<siz' := hi
    refine ⟨_,hfirst,?_⟩
    dsimp only
    rw [shows,if_pos ⟨by omega,by omega⟩,Nat.add_sub_cancel_left]
    rfl
  | some c =>
    rw [hc] at hi hle
    have hlt : i<2*siz' := hi
    obtain ⟨hnext,_⟩ := hok.next c hc
    have hnext' : c=ptr+siz' := hnext
    by_cases hin : i<siz'
    · have hturn : turn true siz' i=i := Nat.mod_eq_of_lt hin
      refine ⟨_,hfirst,?_⟩
      dsimp only
      rw [shows,if_pos ⟨by omega,by omega⟩,Nat.add_sub_cancel_left,Option.isSome_some,hturn]
    · have hturn : turn true siz' i=i-siz' := by
        change i%siz'=i-siz'
        rw [Nat.mod_eq_sub_mod (by omega),Nat.mod_eq_of_lt (by omega)]
      have hsecond : .region c siz' o∈held :=
        Multiset.mem_of_le hle (Multiset.mem_add.mpr (.inl (Multiset.mem_singleton_self _)))
      refine ⟨_,hsecond,?_⟩
      dsimp only
      rw [shows,if_pos ⟨by omega,by omega⟩,Option.isSome_some,hturn,
        show ptr+i-c=i-siz' by omega]

/-- An area shows its cells as far as it reaches, where its size leaves room for
two pages. -/
theorem area_backed {P : Wrappers.Host} {circ : Bool} (s : Wrappers.ShmS) (hok : s.Ok P siz circ)
    (hpage : 0<P.page) (hroom : siz+P.page<wordSize) (hle : s.mapped+s.kept ≤ held)
    (ht : Translates held tr) {i : ℕ} (hi : i<reach (shmwCir s) siz) :
    tr (shmwPtr s+i)=some (cellOf s (turn (shmwCir s) siz i)) := by
  have hmapped : s.mapped ≤ held := (Multiset.le_add_right _ _).trans hle
  cases s with
  | posix m name nm ishuge => exact mapping_backed hok.1 hmapped ht hi
  | sysv m id => exact mapping_backed hok.1 hmapped ht hi
  | malloc ptr addr len =>
    obtain ⟨hptr,hlen,hpos,hlt⟩ := hok
    have hblock : Res.heap addr len∈held :=
      Multiset.mem_of_le ((Multiset.le_add_left _ _).trans hle) (Multiset.mem_singleton_self _)
    rw [wordAdd_of_lt hroom] at hlen
    have hle' := Setup.le_yAlign hpage (by omega : addr+P.page<wordSize)
    have hlt' := Setup.yAlign_lt hpage (by omega : addr+P.page<wordSize)
    rw [←hptr] at hle' hlt'
    have hin : i<siz := hi
    rw [ht]
    refine ⟨Res.heap addr len,hblock,?_⟩
    change shows (.heap addr len) (ptr+i)=some ⟨.block addr,ptr-addr+i⟩
    rw [shows,if_pos ⟨by omega,by omega⟩,show ptr+i-addr=ptr-addr+i by omega]

/-- No cell belongs to two areas. -/
theorem areas_apart {P P' : Wrappers.Host} {siz' : ℕ} {circ circ' : Bool} {s t : Wrappers.ShmS}
    (w : World Clash) (hs : s.Ok P siz circ) (hroom : 0<P.page ∧ siz+P.page<wordSize)
    (ht : t.Ok P' siz' circ') (hroom' : 0<P'.page ∧ siz'+P'.page<wordSize)
    (hle : s.kept+t.kept ≤ w.held) (i j : ℕ) : cellOf s i≠cellOf t j := by
  have hpair : ∀ a b : Res,{a}+{b} ≤ w.held → ¬Clash a b :=
    fun a b h => w.apart_pair (fun _ _ => Clash.symm) h
  intro he
  have hb := congrArg Cell.backing he
  cases s with
  | posix m name nm ishuge =>
    cases t with
    | posix m' name' nm' ishuge' =>
      have hnm : nm=nm' := Obj.file.inj (Backing.obj.inj hb)
      refine hpair (.name nm) (.name nm') (le_trans ?_ hle) (.inl (by rw [hnm]))
      exact add_le_add (Multiset.le_add_right _ _) (Multiset.le_add_right _ _)
    | sysv m' id => cases hb
    | malloc ptr addr len => cases hb
  | sysv m id =>
    cases t with
    | posix m' name' nm' ishuge' => cases hb
    | sysv m' id' =>
      have hid : id=id' := Obj.segment.inj (Backing.obj.inj hb)
      exact hpair (.segment id) (.segment id') hle (.inl (by rw [hid]))
    | malloc ptr addr len => cases hb
  | malloc ptr addr len =>
    cases t with
    | posix m' name' nm' ishuge' => cases hb
    | sysv m' id' => cases hb
    | malloc ptr' addr' len' =>
      have haddr : addr=addr' := Backing.block.inj hb
      obtain ⟨_,hlen,_,_⟩ := hs
      obtain ⟨_,hlen',_,_⟩ := ht
      rw [wordAdd_of_lt hroom.2] at hlen
      rw [wordAdd_of_lt hroom'.2] at hlen'
      refine hpair (.heap addr len) (.heap addr' len') hle (.inr ?_)
      change addr<addr'+len' ∧ addr'<addr+len
      omega

/-- The two areas of a buffer object are mapped where the buffer reaches. -/
structure Backed (tr : ℕ → Option Cell) (b : BufObj) : Prop where
  /-- The addresses of the ring. -/
  ring : ∀ i<reach b.buf.iscir b.buf.size,
    tr (shmwPtr b.area+i)=some (cellOf b.area (turn b.buf.iscir b.buf.size i))
  /-- The addresses of the bounce allocation. -/
  scr : ∀ i<b.buf.scrSiz,tr (shmwPtr b.scr+i)=some (cellOf b.scr i)
  /-- No cell belongs to both. -/
  apart : ∀ i j,cellOf b.area i≠cellOf b.scr j
  /-- The read bounce chunk is in its allocation. -/
  rchunk : b.buf.rchunk+b.buf.rblk ≤ b.buf.scrSiz
  /-- So is the write bounce chunk. -/
  wchunk : b.buf.wchunk+b.buf.wblk ≤ b.buf.scrSiz

/-- Two buffers with the same areas. -/
structure SameAreas (buf buf' : BufS) : Prop where
  /-- The size of the ring. -/
  size : buf.size=buf'.size
  /-- Whether it is mapped twice. -/
  iscir : buf.iscir=buf'.iscir
  /-- The place of the read bounce chunk. -/
  rchunk : buf.rchunk=buf'.rchunk
  /-- The place of the write bounce chunk. -/
  wchunk : buf.wchunk=buf'.wchunk
  /-- The size of the read bounce chunk. -/
  rblk : buf.rblk=buf'.rblk
  /-- The size of the write bounce chunk. -/
  wblk : buf.wblk=buf'.wblk

/-- Memory, and the numbers of a buffer object whose areas are in it. The bytes
that the object itself has are not used. -/
structure Raw (b : BufObj) where
  /-- Memory. -/
  mem : Cell → Byte
  /-- The numbers. -/
  buf : BufS
  /-- The areas have not changed. -/
  same : SameAreas buf b.buf

variable {b : BufObj}

/-- The area that a pointer points into. -/
def side (b : BufObj) : Area → Wrappers.ShmS
  | .ring => b.area
  | .scr => b.scr

/-- The address of a pointer. -/
def addr (b : BufObj) (p : Ptr) : ℕ := shmwPtr (side b p.area)+p.off

/-- A load from the address of a pointer. -/
def loadMem (tr : ℕ → Option Cell) (s : Raw b) (p : Ptr) (n : ℕ) : Option (List Byte) :=
  loadVia tr s.mem (addr b p) n

/-- A store to the address of a pointer. -/
def storeMem (tr : ℕ → Option Cell) (s : Raw b) (p : Ptr) (bs : List Byte) : Option (Raw b) :=
  (storeVia tr (addr b p) bs s.mem).map fun mem => {s with mem := mem}

/-- A copy between the addresses of two pointers. -/
def memcpyMem (tr : ℕ → Option Cell) (s : Raw b) (dst src : Ptr) (n : ℕ) : Option (Raw b) :=
  (loadMem tr s src n).bind fun bs => storeMem tr s dst bs

/-- `ibuf_fetch_wbounce` over addresses. -/
def ibufFetchWbounceMem (tr : ℕ → Option Cell) (s : Raw b) (chunk : ℕ) : Option (Ptr×Raw b) :=
  let siz1 := min (wordSub s.buf.size s.buf.did) chunk
  let siz2 := chunk-siz1
  ((memcpyMem tr s (scrPtr s.buf.wchunk) (ringPtr s.buf.did) siz1).bind fun s1 =>
    if siz2≠0 then memcpyMem tr s1 (scrPtr (s.buf.wchunk+siz1)) (ringPtr 0) siz2 else some s1).map
      fun s2 => (scrPtr s.buf.wchunk,⟨s2.mem,{s2.buf with fastw := false},{s2.same with}⟩)

/-- `buf_fetch_w` over addresses. -/
def bufFetchWMem (tr : ℕ → Option Cell) (s : Raw b) (chunk : ℕ) : Option (Ptr×Raw b) :=
  if s.buf.iscir=true ∨ wordAdd s.buf.did chunk ≤ s.buf.size then
    some (ringPtr s.buf.did,⟨s.mem,{s.buf with fastw := true},{s.same with}⟩)
  else ibufFetchWbounceMem tr s chunk

/-- `buf_forcefetch_w` over addresses. -/
def bufForcefetchWMem (tr : ℕ → Option Cell) (s : Raw b) (chunk : ℕ) : Option (Ptr×Raw b) :=
  ibufFetchWbounceMem tr s chunk

/-- `buf_fetch_r`, which does not access memory. -/
def bufFetchRMem (s : Raw b) (chunk : ℕ) : Ptr×Raw b :=
  if s.buf.iscir=true ∨ wordAdd s.buf.got chunk ≤ s.buf.size then
    (ringPtr s.buf.got,⟨s.mem,{s.buf with fastr := true},{s.same with}⟩)
  else (scrPtr s.buf.rchunk,⟨s.mem,{s.buf with fastr := false},{s.same with}⟩)

/-- `ibuf_commit_rbounce` over addresses. -/
def ibufCommitRbounceMem (tr : ℕ → Option Cell) (s : Raw b) (chunk : ℕ) : Option (Raw b) :=
  let siz1 := min (wordSub s.buf.size s.buf.got) chunk
  let siz2 := chunk-siz1
  ((memcpyMem tr s (ringPtr s.buf.got) (scrPtr s.buf.rchunk) siz1).bind fun s1 =>
    if siz2≠0 then memcpyMem tr s1 (ringPtr 0) (scrPtr (s.buf.rchunk+siz1)) siz2 else some s1).bind
      fun s2 =>
        if s2.buf.dorcrc=true then
          (loadMem tr s2 (scrPtr s2.buf.rchunk) chunk).map fun bs =>
            ⟨s2.mem,{s2.buf with rcrc := crcCalc s2.buf.rcrc bs},{s2.same with}⟩
        else some s2

/-- `buf_commit_r` over addresses. -/
def bufCommitRMem (tr : ℕ → Option Cell) (s : Raw b) (chunk : ℕ) : Option (Raw b) :=
  let allin := s.buf.allin+BitVec.ofNat 64 chunk
  if s.buf.fastr=true then
    if s.buf.dorcrc=true then
      (loadMem tr s (ringPtr s.buf.got) chunk).map fun bs =>
        ⟨s.mem,{s.buf with allin := allin,rcrc := crcCalc s.buf.rcrc bs},{s.same with}⟩
    else some ⟨s.mem,{s.buf with allin := allin},{s.same with}⟩
  else ibufCommitRbounceMem tr ⟨s.mem,{s.buf with allin := allin},{s.same with}⟩ chunk

/-- `buf_commit_w` over addresses. -/
def bufCommitWMem (tr : ℕ → Option Cell) (s : Raw b) (chunk : ℕ) : Option (Raw b) :=
  let allout := s.buf.allout+BitVec.ofNat 64 chunk
  if s.buf.dowcrc=true then
    if s.buf.fastw=true then
      (loadMem tr s (ringPtr s.buf.did) chunk).map fun bs =>
        ⟨s.mem,{s.buf with allout := allout,wcrc := crcCalc s.buf.wcrc bs},{s.same with}⟩
    else
      (loadMem tr s (scrPtr s.buf.wchunk) chunk).map fun bs =>
        ⟨s.mem,{s.buf with allout := allout,wcrc := crcCalc s.buf.wcrc bs},{s.same with}⟩
  else some ⟨s.mem,{s.buf with allout := allout},{s.same with}⟩

/-- A read of `bs` under a grant of `chunk`, over addresses. -/
def bringInMem (tr : ℕ → Option Cell) (s : Raw b) (chunk : ℕ) (bs : List Byte) :
    Option (Raw b) :=
  let f := bufFetchRMem s chunk
  (storeMem tr f.2 f.1 bs).bind fun s1 =>
    (bufCommitRMem tr s1 bs.length).map fun s2 =>
      ⟨s2.mem,bufCommitRf s2.buf bs.length,{s2.same with}⟩

/-- A write of `n` bytes under a grant of `chunk`, over addresses. -/
def takeOutMem (tr : ℕ → Option Cell) (forced : Bool) (s : Raw b) (chunk n : ℕ) :
    Option (List Byte×Raw b) :=
  (if forced=true then bufForcefetchWMem tr s chunk else bufFetchWMem tr s chunk).bind fun f =>
    (loadMem tr f.2 f.1 n).bind fun bs =>
      (bufCommitWMem tr f.2 n).map fun s1 => (bs,⟨s1.mem,bufCommitWf s1.buf n,{s1.same with}⟩)

/-- The buffer as the memory shows it. -/
def look (s : Raw b) : BufS :=
  {s.buf with ptr := seen (cellOf b.area) s.mem,scr := seen (cellOf b.scr) s.mem}

/-- Outside of the areas of a buffer object. -/
def Outside (b : BufObj) (c : Cell) : Prop :=
  (∀ i,c≠cellOf b.area i) ∧ ∀ i,c≠cellOf b.scr i

/-- Memory shows a buffer, and has elsewhere what it had before. -/
def Shown (b : BufObj) (mem : Cell → Byte) (s : Raw b) (buf : BufS) : Prop :=
  look s=buf ∧ ∀ c,Outside b c → s.mem c=mem c

/-- The same with a pointer beside it. -/
def ShownAt (b : BufObj) (mem : Cell → Byte) (r : Ptr×Raw b) (q : Ptr×BufS) : Prop :=
  r.1=q.1 ∧ Shown b mem r.2 q.2

/-- The index of the cell that an access visits. -/
def index (buf : BufS) (p : Ptr) (i : ℕ) : ℕ :=
  match p.area with
  | .ring => ringAddr buf p.off i
  | .scr => scrAddr p.off i

/-- The addresses of an access that stays inside have the cells that it visits. -/
theorem Backed.covers (hb : Backed tr b) {buf : BufS} (hs : SameAreas buf b.buf) {p : Ptr}
    {n i : ℕ} (hin : Inside buf p n) (hi : i<n) :
    tr (addr b p+i)=some (cellOf (side b p.area) (index buf p i)) := by
  obtain ⟨area,off⟩ := p
  cases area with
  | ring =>
    have hbound : off+n ≤ reach buf.iscir buf.size := hin
    rw [hs.iscir,hs.size] at hbound
    have hring := hb.ring (off+i) (by omega)
    have hturn : turn b.buf.iscir b.buf.size (off+i)=ringAddr buf off i := by
      rw [←hs.iscir,←hs.size]
      rfl
    rw [hturn,←Nat.add_assoc] at hring
    exact hring
  | scr =>
    have hr := hb.rchunk
    have hw := hb.wchunk
    have hlt : off+i<b.buf.scrSiz := by
      rcases hin with ⟨_,hle⟩|⟨_,hle⟩
      · have hle' : off+n ≤ buf.rchunk+buf.rblk := hle
        rw [hs.rchunk,hs.rblk] at hle'
        omega
      · have hle' : off+n ≤ buf.wchunk+buf.wblk := hle
        rw [hs.wchunk,hs.wblk] at hle'
        omega
    have hscr := hb.scr (off+i) hlt
    rw [←Nat.add_assoc] at hscr
    exact hscr

variable {mem : Cell → Byte} {s : Raw b} {buf : BufS} {chunk n : ℕ}

/-- The areas of what is shown. -/
theorem Shown.same (h : Shown b mem s buf) : SameAreas buf b.buf := by
  rw [←h.1]
  exact {s.same with}

/-- Loads follow. -/
theorem load_follows (hb : Backed tr b) (h : Shown b mem s buf) (p : Ptr) (n : ℕ) :
    Follows Eq (loadMem tr s p n) (loadIn buf p n) := by
  intro x hx
  obtain ⟨hin,he⟩ := Option.ite_none_right_eq_some.mp hx
  obtain rfl := Option.some.inj he
  refine ⟨_,loadVia_eq fun i hi => hb.covers h.same hin hi,?_⟩
  rw [←h.1]
  obtain ⟨area,off⟩ := p
  cases area <;> rfl

/-- Stores follow, and change nothing elsewhere. -/
theorem store_follows (hb : Backed tr b) (h : Shown b mem s buf) (p : Ptr) (bs : List Byte) :
    Follows (Shown b mem) (storeMem tr s p bs) (storeIn buf p bs) := by
  intro x hx
  obtain ⟨hin,he⟩ := Option.ite_none_right_eq_some.mp hx
  obtain rfl := Option.some.inj he
  obtain ⟨m,hstore,hseen,hother⟩ := storeVia_eq (cellOf_injective (side b p.area)) (m:=s.mem)
    fun i hi => hb.covers h.same hin hi
  refine ⟨{s with mem := m},by rw [storeMem,hstore]; rfl,?_,fun c hc => ?_⟩
  · rw [←h.1] at hseen ⊢
    obtain ⟨area,off⟩ := p
    cases area with
    | ring =>
      have hscr : seen (cellOf b.scr) m=seen (cellOf b.scr) s.mem :=
        funext fun i => hother _ fun j he => hb.apart j i he.symm
      have hring : seen (cellOf b.area) m=_ := hseen
      change ({s.buf with ptr := seen (cellOf b.area) m,scr := seen (cellOf b.scr) m} : BufS)=_
      rw [hscr,hring]
      rfl
    | scr =>
      have hring : seen (cellOf b.area) m=seen (cellOf b.area) s.mem :=
        funext fun i => hother _ fun j he => hb.apart i j he
      have hscr : seen (cellOf b.scr) m=_ := hseen
      change ({s.buf with ptr := seen (cellOf b.area) m,scr := seen (cellOf b.scr) m} : BufS)=_
      rw [hring,hscr]
      rfl
  · rw [←h.2 c hc]
    refine hother c ?_
    cases p.area with
    | ring => exact hc.1
    | scr => exact hc.2

/-- Copies follow. -/
theorem memcpy_follows (hb : Backed tr b) (h : Shown b mem s buf) (dst src : Ptr) (n : ℕ) :
    Follows (Shown b mem) (memcpyMem tr s dst src n) (memcpyIn buf dst src n) := by
  refine (load_follows hb h src n).bind fun y x he => ?_
  rw [he]
  exact store_follows hb h dst x

/-- A bounced fetch follows. -/
theorem fetchWbounce_follows (hb : Backed tr b) (h : Shown b mem s buf) (chunk : ℕ) :
    Follows (ShownAt b mem) (ibufFetchWbounceMem tr s chunk) (ibufFetchWbounceIn buf chunk) := by
  obtain ⟨rfl,hout⟩ := h
  refine Follows.map (R:=Shown b mem) ?_ fun y x hx => ⟨rfl,by rw [←hx.1]; rfl,hx.2⟩
  refine (memcpy_follows hb ⟨rfl,hout⟩ _ _ _).bind fun y x hx => ?_
  exact .ite .rfl (memcpy_follows hb hx _ _ _) (.some hx)

/-- A write fetch follows, forced or not. -/
theorem fetchW_follows (hb : Backed tr b) (h : Shown b mem s buf) (forced : Bool) (chunk : ℕ) :
    Follows (ShownAt b mem)
      (if forced=true then bufForcefetchWMem tr s chunk else bufFetchWMem tr s chunk)
      (if forced=true then bufForcefetchWIn buf chunk else bufFetchWIn buf chunk) := by
  obtain ⟨rfl,hout⟩ := h
  refine .ite .rfl (fetchWbounce_follows hb ⟨rfl,hout⟩ chunk) ?_
  exact .ite .rfl (.some ⟨rfl,rfl,hout⟩) (fetchWbounce_follows hb ⟨rfl,hout⟩ chunk)

/-- A read fetch follows. -/
theorem fetchR_follows (h : Shown b mem s buf) (chunk : ℕ) :
    ShownAt b mem (bufFetchRMem s chunk) (bufFetchR buf chunk) := by
  obtain ⟨rfl,hout⟩ := h
  unfold bufFetchRMem bufFetchR
  by_cases hc : s.buf.iscir=true ∨ wordAdd s.buf.got chunk ≤ s.buf.size
  · rw [if_pos hc]
    have hc' : (look s).iscir=true ∨ wordAdd (look s).got chunk ≤ (look s).size := hc
    rw [if_pos hc']
    exact ⟨rfl,rfl,hout⟩
  · rw [if_neg hc]
    have hc' : ¬((look s).iscir=true ∨ wordAdd (look s).got chunk ≤ (look s).size) := hc
    rw [if_neg hc']
    exact ⟨rfl,rfl,hout⟩

/-- A bounced commit follows. -/
theorem commitRbounce_follows (hb : Backed tr b) (h : Shown b mem s buf) (chunk : ℕ) :
    Follows (Shown b mem) (ibufCommitRbounceMem tr s chunk) (ibufCommitRbounceIn buf chunk) := by
  obtain ⟨rfl,hout⟩ := h
  refine Follows.bind (R:=Shown b mem) ?_ fun y x hx => ?_
  · refine (memcpy_follows hb ⟨rfl,hout⟩ _ _ _).bind fun y x hx => ?_
    exact .ite .rfl (memcpy_follows hb hx _ _ _) (.some hx)
  · obtain ⟨rfl,hout'⟩ := hx
    refine .ite .rfl ?_ (.some ⟨rfl,hout'⟩)
    refine (load_follows hb ⟨rfl,hout'⟩ _ _).map fun bs bs' he => ⟨?_,hout'⟩
    rw [he]
    rfl

/-- A committed read follows. -/
theorem commitR_follows (hb : Backed tr b) (h : Shown b mem s buf) (chunk : ℕ) :
    Follows (Shown b mem) (bufCommitRMem tr s chunk) (bufCommitRIn buf chunk) := by
  obtain ⟨rfl,hout⟩ := h
  refine .ite .rfl (.ite .rfl ?_ (.some ⟨rfl,hout⟩)) (commitRbounce_follows hb ⟨rfl,?_⟩ chunk)
  · refine (load_follows hb ⟨rfl,hout⟩ _ _).map fun bs bs' he => ⟨?_,hout⟩
    rw [he]
    rfl
  · exact hout

/-- A committed write follows. -/
theorem commitW_follows (hb : Backed tr b) (h : Shown b mem s buf) (chunk : ℕ) :
    Follows (Shown b mem) (bufCommitWMem tr s chunk) (bufCommitWIn buf chunk) := by
  obtain ⟨rfl,hout⟩ := h
  refine .ite .rfl (.ite .rfl ?_ ?_) (.some ⟨rfl,hout⟩)
  · refine (load_follows hb ⟨rfl,hout⟩ _ _).map fun bs bs' he => ⟨?_,hout⟩
    rw [he]
    rfl
  · refine (load_follows hb ⟨rfl,hout⟩ _ _).map fun bs bs' he => ⟨?_,hout⟩
    rw [he]
    rfl

/-- A read over addresses follows the one over the areas. -/
theorem bringIn_follows (hb : Backed tr b) (h : Shown b mem s buf) (chunk : ℕ)
    (bs : List Byte) : Follows (Shown b mem) (bringInMem tr s chunk bs) (bringIn buf chunk bs) := by
  obtain ⟨hptr,hshown⟩ := fetchR_follows h chunk
  unfold bringInMem bringIn
  dsimp only
  rw [←hptr]
  refine (store_follows hb hshown _ bs).bind fun y x hx => ?_
  refine (commitR_follows hb hx _).map fun y x hx => ⟨?_,hx.2⟩
  rw [←hx.1]
  rfl

/-- So does a write. -/
theorem takeOut_follows (hb : Backed tr b) (h : Shown b mem s buf) (forced : Bool)
    (chunk n : ℕ) :
    Follows (fun r q => r.1=q.1 ∧ Shown b mem r.2 q.2) (takeOutMem tr forced s chunk n)
      (takeOut forced buf chunk n) := by
  refine (fetchW_follows hb h forced chunk).bind fun f q ⟨hptr,hshown⟩ => ?_
  rw [hptr]
  refine (load_follows hb hshown _ n).bind fun bs bs' he => ?_
  refine (commitW_follows hb hshown n).map fun y x hx => ⟨he,?_,hx.2⟩
  rw [←hx.1]
  rfl

/-- Rounding up to a power of two is a quotient and a product. -/
theorem yAlign_eq {a x : ℕ} (ha : ∃ p,a=2^p) (h : x+a<wordSize) : yAlign x a=(x+a-1)/a*a := by
  obtain ⟨p,rfl⟩ := ha
  have hpos := Nat.two_pow_pos p
  have hm := and_add_andNot (by omega : x+2^p-1<wordSize) (by omega : 2^p-1<wordSize)
  rw [Nat.and_two_pow_sub_one_eq_mod] at hm
  have hd := Nat.div_add_mod (x+2^p-1) (2^p)
  rw [yAlign,Nat.mod_eq_of_lt (by omega),Nat.mul_comm]
  omega

/-- Rounding up to a unit that is not smaller gives the unit. -/
theorem yAlign_small {a x : ℕ} (ha : ∃ p,a=2^p) (hx : 0<x) (hle : x ≤ a) (h : 2*a<wordSize) :
    yAlign x a=a := by
  rw [yAlign_eq ha (by omega),Nat.div_eq_of_lt_le (k:=1) (by omega) (by omega),Nat.one_mul]

/-- Both areas of a configuration leave room for a page. -/
theorem config_room (cfg : Setup.Config) : 0<cfg.host.page ∧
    cfg.buf.size+cfg.host.page<wordSize ∧ cfg.buf.scrSiz+cfg.host.page<wordSize := by
  obtain ⟨hpos,hpage⟩ := Setup.page_le_half cfg.page_pow cfg.page_le cfg.parsed.bsiz_le
  obtain ⟨buf,hctor,hset⟩ := cfg.calls
  obtain ⟨_,_,shm,bounce,rfl⟩ := Setup.bufCtor_built hctor
  obtain ⟨_,hscr,_⟩ := bufSetextra_area hset
  have hsize := cfg.ok.size_le
  have hr := cfg.parsed.rblk_le
  have hw := cfg.parsed.wblk_le
  have hr0 := cfg.parsed.rblk_pos
  have hw0 := cfg.parsed.wblk_pos
  simp only [Setup.defMaxblk] at hr hw
  have hv := wordSize_eq
  refine ⟨hpos,by omega,?_⟩
  rw [hscr]
  change yAlign (wordAdd (yAlign cfg.opts.rblk cfg.host.page) (yAlign cfg.opts.wblk cfg.host.page))
    cfg.host.page+cfg.host.page<wordSize
  have hpow := cfg.page_pow
  generalize cfg.host.page=page at hpos hpage hpow ⊢
  by_cases hbig : 4194304 ≤ page
  · -- blocks are smaller than such a page, which each of them takes
    rw [yAlign_small hpow hr0 (by omega) (by omega),yAlign_small hpow hw0 (by omega) (by omega),
      wordAdd_of_lt (by omega),yAlign_eq hpow (by omega),
      Nat.div_eq_of_lt_le (k:=2) (by omega) (by omega)]
    omega
  · have h1 := Setup.yAlign_lt hpos (by omega : cfg.opts.rblk+page<wordSize)
    have h2 := Setup.yAlign_lt hpos (by omega : cfg.opts.wblk+page<wordSize)
    rw [wordAdd_of_lt (by omega)]
    have h3 := Setup.yAlign_lt hpos
      (by omega : yAlign cfg.opts.rblk page+yAlign cfg.opts.wblk page+page<wordSize)
    omega

/-- An area that was not asked to be mapped twice is not. -/
theorem flat_of_ok {P : Wrappers.Host} {s : Wrappers.ShmS} (h : s.Ok P siz false) :
    shmwCir s=false := by
  cases s with
  | posix m name nm ishuge =>
    rw [shmwCir,h.2 rfl]
    rfl
  | sysv m id =>
    rw [shmwCir,h.2 rfl]
    rfl
  | malloc ptr addr len => rfl

/-- The areas of an environment are mapped where the buffer reaches. -/
theorem env_backed {S : Setting} {env : Env} (h : env.At S) {w : World Clash}
    (hle : env.owns ≤ w.held) (ht : Translates w.held tr) : Backed tr env.bufo := by
  obtain ⟨hpos,hring,hscr⟩ := config_room (S.config env h)
  have hok := (S.config env h).ok
  have hbufo : env.bufo.area.owns+env.bufo.scr.owns ≤ w.held :=
    (le_trans (Multiset.le_add_right _ _) (Multiset.le_add_left _ _)).trans hle
  have hkept : env.bufo.area.kept+env.bufo.scr.kept ≤ w.held :=
    (add_le_add (Multiset.le_add_left _ _) (Multiset.le_add_left _ _)).trans hbufo
  have hc := h.bufo.cir
  constructor
  · intro i hi
    rw [hc] at hi ⊢
    exact area_backed env.bufo.area h.bufo.area hpos hring
      ((Multiset.le_add_right _ _).trans hbufo) ht hi
  · intro i hi
    have hflat := flat_of_ok h.bufo.scr
    have hscr' := area_backed env.bufo.scr h.bufo.scr hpos hscr
      ((Multiset.le_add_left _ _).trans hbufo) ht (i:=i)
    rw [hflat] at hscr'
    exact hscr' hi
  · exact areas_apart w h.bufo.area ⟨hpos,hring⟩ h.bufo.scr ⟨hpos,hscr⟩ hkept
  · exact (hok.rchunkOk.trans (Nat.le_add_right _ _)).trans hok.wchunkOk
  · exact hok.wchunkOk

/-- A transfer: a read or a write under a grant. -/
inductive Transfer
  /-- Bytes are read in. -/
  | read (chunk : ℕ) (bs : List Byte)
  /-- Bytes are written out, through the bounce chunk where that is forced. -/
  | write (forced : Bool) (chunk n : ℕ)

/-- The transfer is within its grant, and the grant within a block. -/
def Transfer.Granted (buf : BufS) : Transfer → Prop
  | .read chunk bs => chunk ≤ buf.rblk ∧ bs.length ≤ chunk
  | .write _ chunk n => chunk ≤ buf.wblk ∧ n ≤ chunk

/-- Transfers over the ring and the bounce allocation, with what is written. -/
def transfers : BufS → List Transfer → Option (List Byte×BufS)
  | buf,[] => some ([],buf)
  | buf,.read chunk bs::ts => (bringIn buf chunk bs).bind fun buf => transfers buf ts
  | buf,.write forced chunk n::ts => (takeOut forced buf chunk n).bind fun r =>
    (transfers r.2 ts).map fun q => (r.1++q.1,q.2)

/-- Transfers over addresses, with what is written. -/
def transfersMem (tr : ℕ → Option Cell) : Raw b → List Transfer → Option (List Byte×Raw b)
  | s,[] => some ([],s)
  | s,.read chunk bs::ts => (bringInMem tr s chunk bs).bind fun s => transfersMem tr s ts
  | s,.write forced chunk n::ts => (takeOutMem tr forced s chunk n).bind fun r =>
    (transfersMem tr r.2 ts).map fun q => (r.1++q.1,q.2)

/-- Transfers over addresses follow those over the areas. -/
theorem transfers_follow (hb : Backed tr b) (h : Shown b mem s buf) (ts : List Transfer) :
    Follows (fun r q => r.1=q.1 ∧ Shown b mem r.2 q.2) (transfersMem tr s ts)
      (transfers buf ts) := by
  induction ts generalizing s buf with
  | nil => exact .some ⟨rfl,h⟩
  | cons t ts ih =>
    cases t with
    | read chunk bs => exact (bringIn_follows hb h chunk bs).bind fun _ _ hx => ih hx
    | write forced chunk n =>
      refine (takeOut_follows hb h forced chunk n).bind fun r q ⟨he,hx⟩ => ?_
      refine (ih hx).map fun r' q' ⟨he',hx'⟩ => ⟨?_,hx'⟩
      rw [he,he']

/-- Publishing keeps the geometry of both paths. -/
theorem bounce_commitRf (h : BounceOk buf) (n : ℕ) : BounceOk (bufCommitRf buf n) := by
  have hfit := h.rfit
  refine {h with got_lt := ?_}
  rw [RingOk.commitRf_got h.toRingOk]
  exact Nat.mod_lt _ (by omega)

/-- So does releasing. -/
theorem bounce_commitWf (h : BounceOk buf) (n : ℕ) : BounceOk (bufCommitWf buf n) := by
  have hfit := h.rfit
  refine {h with did_lt := ?_}
  rw [RingOk.commitWf_did h.toRingOk]
  exact Nat.mod_lt _ (by omega)

/-- A read keeps the geometry and the blocks. -/
theorem brings_ok (h : BounceOk buf) {bs : List Byte} (hc : chunk ≤ buf.rblk)
    (hn : bs.length ≤ chunk) :
    ∃ out,bringIn buf chunk bs=some out ∧ BounceOk out ∧ out.rblk=buf.rblk ∧
      out.wblk=buf.wblk := by
  have hfit := h.rfit
  obtain ⟨fastr,scr,he⟩ := h.brought (by omega : chunk ≤ buf.size) hn
  refine ⟨_,h.bringIn_some hc hn,?_⟩
  rw [he]
  refine ⟨bounce_commitRf ?_ _,rfl,rfl⟩
  exact {h with}

/-- So does a write. -/
theorem takes_ok (h : BounceOk buf) (hc : chunk ≤ buf.wblk) (hn : n ≤ chunk) (forced : Bool) :
    ∃ r,takeOut forced buf chunk n=some r ∧ BounceOk r.2 ∧ r.2.rblk=buf.rblk ∧
      r.2.wblk=buf.wblk := by
  have hfit := h.wfit
  obtain ⟨_,_,_,fastw,scr,he⟩ := h.taken (n:=n) (by omega : chunk ≤ buf.size) hn forced
  refine ⟨_,h.takeOut_some hc hn forced,?_⟩
  dsimp only at he ⊢
  rw [bufCommitW_eq,he]
  refine ⟨bounce_commitWf ?_ _,rfl,rfl⟩
  exact {h with}

/-- Granted transfers over the areas come to an end. -/
theorem transfers_some (h : BounceOk buf) {ts : List Transfer} (hg : ∀ t∈ts,t.Granted buf) :
    ∃ q,transfers buf ts=some q := by
  induction ts generalizing buf with
  | nil => exact ⟨_,rfl⟩
  | cons t ts ih =>
    have hrest : ∀ out : BufS,out.rblk=buf.rblk → out.wblk=buf.wblk → ∀ t∈ts,t.Granted out := by
      intro out hr hw t ht
      have hgt := hg t (List.mem_cons_of_mem _ ht)
      cases t with
      | read chunk bs => exact ⟨hr ▸ hgt.1,hgt.2⟩
      | write forced chunk n => exact ⟨hw ▸ hgt.1,hgt.2⟩
    have hgt := hg t List.mem_cons_self
    cases t with
    | read chunk bs =>
      obtain ⟨out,ho,hok,hr,hw⟩ := brings_ok h hgt.1 hgt.2
      obtain ⟨q,hq⟩ := ih hok (hrest out hr hw)
      exact ⟨q,by rw [transfers,ho,Option.bind_some,hq]⟩
    | write forced chunk n =>
      obtain ⟨r,ho,hok,hr,hw⟩ := takes_ok h hgt.1 hgt.2 forced
      obtain ⟨q,hq⟩ := ih hok (hrest r.2 hr hw)
      exact ⟨_,by rw [transfers,ho,Option.bind_some,hq,Option.map_some]⟩

/-- Memory and the buffer object that `setup_env` has left. -/
def started (b : BufObj) (mem : Cell → Byte) : Raw b := ⟨mem,b.buf,⟨rfl,rfl,rfl,rfl,rfl,rfl⟩⟩

/-- What holds of an environment in a world: its addresses translate, and any
granted transfers over them succeed, write what those over a ring write, leave
what those leave, and change nothing elsewhere. -/
def Refined (held : Multiset Res) (b : BufObj) : Prop :=
  ∃ tr,Translates held tr ∧ ∀ (mem : Cell → Byte) (ts : List Transfer),
    (∀ t∈ts,t.Granted b.buf) → ∃ bs s,transfersMem tr (started b mem) ts=some (bs,s) ∧
      transfers (look (started b mem)) ts=some (bs,look s) ∧ ∀ c,Outside b c → s.mem c=mem c

/-- The environment that `setup_env` leaves refines the ring, in every world that
still holds it: whatever the system, whether the ring could be mapped twice or
not, no transfer accesses memory that is not mapped. -/
theorem memory_refined (S : Setting) (w : World Clash) {env : Env}
    (h : (setupEnv S.machine S.lay S.opts S.mode w).1=some env) {v : World Clash}
    (hle : env.owns ≤ v.held) : Refined v.held env.bufo := by
  obtain ⟨_,⟨hn,_⟩|⟨env',hr,hat,_⟩⟩ := setupEnv_leaves S.machine S.lay S.opts S.mode w
  · exact absurd (h.symm.trans hn) (Option.some_ne_none env)
  · obtain rfl := Option.some.inj (h.symm.trans hr)
    obtain ⟨tr,ht⟩ := exists_translates v
    have hbacked := env_backed (S:=S) hat hle ht
    refine ⟨tr,ht,fun mem ts hg => ?_⟩
    have hok : BounceOk (look (started env.bufo mem)) := {(S.config env hat).ok.bounce with}
    obtain ⟨⟨bs,out⟩,hq⟩ := transfers_some hok hg
    obtain ⟨⟨bs',s⟩,hmem,he,hlook,hout⟩ := transfers_follow hbacked ⟨rfl,fun _ _ => rfl⟩ ts _ hq
    dsimp only at he hlook hout
    rw [he] at hmem
    exact ⟨bs,s,hmem,by rw [hq,hlook],hout⟩

/-- A Linux machine. -/
def linuxMachine : Machine := ⟨.linux,4096,4096,[],fun _ _ => 0⟩

/-- A small transfer in one process on it. -/
def smallSetting : Setting where
  machine := linuxMachine
  lay := ⟨600,100,200,300⟩
  opts := Setup.smallOpts 2 false false
  mode := .sp
  parsed := (Setup.small false false).parsed
  page_pow := ⟨12,rfl⟩
  page_le := Nat.le_refl 4096
  shmlba h := absurd h (by decide)

/-- The answers that make a name and map an object. -/
def mapped (heap fd lo : ℤ) : List ℤ := [heap,1,2,3,4,5,6,7,8,fd,0,lo]

/-- A world that maps the ring a second time where that is asked for. -/
def willing : World Clash where
  held := 0
  apart := ⟨[],rfl,.nil⟩
  faults := 0
  answers n := (List.replicate 9 0++mapped 1000 3 40960++mapped 2000 3 81920++[86016]++
    mapped 3000 3 122880).getD n (-1)

/-- There the environment is set up, with the ring mapped twice. -/
theorem memory_refined_twice : ∃ env,(setupEnv smallSetting.machine smallSetting.lay
    smallSetting.opts smallSetting.mode willing).1=some env ∧ shmwCir env.bufo.area=true ∧
    Refined (setupEnv smallSetting.machine smallSetting.lay smallSetting.opts smallSetting.mode
      willing).2.held env.bufo := by
  have hcir : (setupEnv smallSetting.machine smallSetting.lay smallSetting.opts smallSetting.mode
      willing).1.map (fun env => shmwCir env.bufo.area)=some true := by decide +kernel
  obtain ⟨env,hr,hc⟩ := Option.map_eq_some_iff.mp hcir
  obtain ⟨_,⟨hn,_⟩|⟨env',hr',_,hheld⟩⟩ := setupEnv_leaves smallSetting.machine smallSetting.lay
    smallSetting.opts smallSetting.mode willing
  · exact absurd (hr.symm.trans hn) (Option.some_ne_none env)
  · obtain rfl := Option.some.inj (hr.symm.trans hr')
    have hle := Multiset.le_add_right env.owns willing.held
    rw [←hheld] at hle
    exact ⟨env,hr,hc,memory_refined smallSetting willing hr hle⟩

end Yancat.Mapped
