import Yancat.Crc
import Yancat.RingWindow
import Yancat.WordArithmetic

/-!
# The transfer buffer

The ring with its two bounce chunks, the two decision functions with their
stall flags, the fetch and commit pairs of either side, and the two
constructors that accept or refuse a geometry. Memory is addressed through
pointers into one of the two allocations; with the circular mapping an address
past the end of the ring names the cell one turn earlier.
-/

namespace Yancat.Buffer

open Crc RingWindow WordArithmetic

/-- The buffer object. Report flags and allocator handles are left out. -/
structure BufS where
  /-- Bytes behind `ptr`, the ring allocation. -/
  ptr : ℕ → Byte
  /-- Bytes of the bounce allocation. -/
  scr : ℕ → Byte
  /-- Size of the bounce allocation. -/
  scrSiz : ℕ
  /-- Offset of the read bounce chunk in the bounce allocation. -/
  rchunk : ℕ
  /-- Offset of the write bounce chunk in the bounce allocation. -/
  wchunk : ℕ
  /-- Ring size in bytes. -/
  size : ℕ
  /-- Index mask. -/
  mask : ℕ
  /-- Index of the next byte to be read in. -/
  got : ℕ
  /-- Index of the next byte to be written out. -/
  did : ℕ
  /-- Largest read grant. -/
  rblk : ℕ
  /-- Largest write grant. -/
  wblk : ℕ
  /-- Free space that must be exceeded for a short read grant. -/
  rmin : ℕ
  /-- Fill that suffices for a short write grant. -/
  wmin : ℕ
  /-- Read resume point, zero when unset. -/
  rsp : ℕ
  /-- Free space at the read resume point. -/
  rspInv : ℕ
  /-- Write resume point, zero when unset. -/
  wsp : ℕ
  /-- The last read fetch was in the ring. -/
  fastr : Bool
  /-- The last write fetch was in the ring. -/
  fastw : Bool
  /-- Reader checksum requested. -/
  dorcrc : Bool
  /-- Writer checksum requested. -/
  dowcrc : Bool
  /-- The ring is mapped twice in a row. -/
  iscir : Bool
  /-- Writes wait for the resume point. -/
  wstall : Bool
  /-- Reads wait for the resume point. -/
  rstall : Bool
  /-- Bytes read so far. -/
  allin : BitVec 64
  /-- Bytes written so far. -/
  allout : BitVec 64
  /-- Reader checksum register. -/
  rcrc : CrcInt
  /-- Writer checksum register. -/
  wcrc : CrcInt

/-- The two allocations that a byte pointer may point into. -/
inductive Area
  /-- The ring. -/
  | ring
  /-- The bounce allocation. -/
  | scr
  deriving DecidableEq

/-- A byte pointer. -/
structure Ptr where
  /-- The allocation pointed into. -/
  area : Area
  /-- The offset inside it. -/
  off : ℕ
  deriving DecidableEq

/-- The pointer `buf->ptr + off`. -/
abbrev ringPtr (off : ℕ) : Ptr := ⟨.ring,off⟩

/-- The pointer at an offset of the bounce allocation. -/
abbrev scrPtr (off : ℕ) : Ptr := ⟨.scr,off⟩

/-- The ring cell of an address: the second copy of a circular mapping
aliases the first. -/
def ringAddr (buf : BufS) (off i : ℕ) : ℕ :=
  if buf.iscir=true then (off+i)%buf.size else off+i

/-- The cell of the bounce allocation at an address. -/
def scrAddr (off i : ℕ) : ℕ := off+i

/-- Bytes read through a pointer. -/
def loadAt (buf : BufS) (p : Ptr) (n : ℕ) : List Byte :=
  match p.area with
  | .ring => load (ringAddr buf p.off) n buf.ptr
  | .scr => load (scrAddr p.off) n buf.scr

/-- Bytes stored through a pointer. -/
def storeAt (buf : BufS) (p : Ptr) (bs : List Byte) : BufS :=
  match p.area with
  | .ring => {buf with ptr := store (ringAddr buf p.off) bs buf.ptr}
  | .scr => {buf with scr := store (scrAddr p.off) bs buf.scr}

/-- Copy between two areas. -/
def memcpy (buf : BufS) (dst src : Ptr) (n : ℕ) : BufS := storeAt buf dst (loadAt buf src n)

/-- Decide how much may be read in, and update the read stall flag. -/
def bufCanR (buf : BufS) : ℕ×BufS :=
  let dist := wordSub buf.did buf.got &&& buf.mask
  let emp := if dist=0 then buf.size else dist
  if buf.rstall=true then
    if emp<buf.rspInv then (0,buf)
    else (buf.rblk,{buf with rstall := false})
  else if buf.rblk<emp then (buf.rblk,buf)
  else if buf.rmin<emp then (emp,buf)
  else if buf.rsp≠0 then (0,{buf with rstall := true})
  else (0,buf)

/-- Decide how much may be written out, and update the write stall flag. -/
def bufCanW (buf : BufS) : ℕ×BufS :=
  let hav := wordSub buf.got buf.did &&& buf.mask
  if buf.wstall=true then
    if hav<buf.wsp then (0,buf)
    else (buf.wblk,{buf with wstall := false})
  else if buf.wblk≤hav then (buf.wblk,buf)
  else if buf.wmin≤hav then (hav,buf)
  else if buf.wsp≠0 then (0,{buf with wstall := true})
  else (0,buf)

/-- Where the next read of up to `chunk` bytes goes. -/
def bufFetchR (buf : BufS) (chunk : ℕ) : Ptr×BufS :=
  if buf.iscir=true ∨ wordAdd buf.got chunk≤buf.size then
    (ringPtr buf.got,{buf with fastr := true})
  else (scrPtr buf.rchunk,{buf with fastr := false})

/-- Gather `chunk` bytes from the ring into the write bounce chunk. The
fetch may be forced, so the chunk need not reach the edge. -/
def ibufFetchWbounce (buf : BufS) (chunk : ℕ) : Ptr×BufS :=
  let siz1 := min (wordSub buf.size buf.did) chunk
  let siz2 := chunk-siz1
  let buf1 := memcpy buf (scrPtr buf.wchunk) (ringPtr buf.did) siz1
  let buf2 := if siz2≠0 then memcpy buf1 (scrPtr (buf.wchunk+siz1)) (ringPtr 0) siz2 else buf1
  (scrPtr buf.wchunk,{buf2 with fastw := false})

/-- Where the next write of `chunk` bytes comes from. -/
def bufFetchW (buf : BufS) (chunk : ℕ) : Ptr×BufS :=
  if buf.iscir=true ∨ wordAdd buf.did chunk≤buf.size then
    (ringPtr buf.did,{buf with fastw := true})
  else ibufFetchWbounce buf chunk

/-- Fetch through the bounce chunk regardless of the position. -/
def bufForcefetchW (buf : BufS) (chunk : ℕ) : Ptr×BufS := ibufFetchWbounce buf chunk

/-- Scatter `chunk` bytes of the read bounce chunk into the ring. The read
may have returned less than was fetched for, so the edge need not be reached. -/
def ibufCommitRbounce (buf : BufS) (chunk : ℕ) : BufS :=
  let siz1 := min (wordSub buf.size buf.got) chunk
  let siz2 := chunk-siz1
  let buf1 := memcpy buf (ringPtr buf.got) (scrPtr buf.rchunk) siz1
  let buf2 := if siz2≠0 then memcpy buf1 (ringPtr 0) (scrPtr (buf.rchunk+siz1)) siz2 else buf1
  if buf2.dorcrc=true then
    {buf2 with rcrc := crcCalc buf2.rcrc (loadAt buf2 (scrPtr buf2.rchunk) chunk)}
  else buf2

/-- Account for `chunk` bytes read in; the index moves separately. -/
def bufCommitR (buf : BufS) (chunk : ℕ) : BufS :=
  let allin := buf.allin+BitVec.ofNat 64 chunk
  if buf.fastr=true then
    if buf.dorcrc=true then
      {buf with allin := allin,rcrc := crcCalc buf.rcrc (loadAt buf (ringPtr buf.got) chunk)}
    else {buf with allin := allin}
  else ibufCommitRbounce {buf with allin := allin} chunk

/-- Account for `chunk` bytes written out; the index moves separately. -/
def bufCommitW (buf : BufS) (chunk : ℕ) : BufS :=
  let allout := buf.allout+BitVec.ofNat 64 chunk
  if buf.dowcrc=true then
    if buf.fastw=true then
      {buf with allout := allout,wcrc := crcCalc buf.wcrc (loadAt buf (ringPtr buf.did) chunk)}
    else
      {buf with allout := allout,wcrc := crcCalc buf.wcrc (loadAt buf (scrPtr buf.wchunk) chunk)}
  else {buf with allout := allout}

/-- Publish `chunk` bytes to the writer. -/
def bufCommitRf (buf : BufS) (chunk : ℕ) : BufS :=
  {buf with got := wordAdd buf.got chunk &&& buf.mask}

/-- Release `chunk` bytes to the reader. -/
def bufCommitWf (buf : BufS) (chunk : ℕ) : BufS :=
  {buf with did := wordAdd buf.did chunk &&& buf.mask}

/-- Switch the writer to draining: any data suffices and no resume point
holds it back. -/
def bufSetlinew (buf : BufS) : BufS := {buf with wmin := 1,wsp := 0,wstall := false}

/-- Round up to a multiple of a power of two, as the bit trick does. -/
def yAlign (x a : ℕ) : ℕ := (x+a-1)%wordSize &&& wordNot (a-1)

/-- The bit loop of `is_pow2` from bit `pos` on: number of set bits and the
last set position. The shifted probe becomes zero after the last bit, which
ends the loop. -/
def isPow2Loop (x : ℕ) : ℕ → ℕ → ℕ → ℕ → ℕ×ℕ
  | 0,_,cnt,posr => (cnt,posr)
  | n+1,pos,cnt,posr =>
    if 0<x&&&2^pos then isPow2Loop x n (pos+1) (cnt+1) pos
    else isPow2Loop x n (pos+1) cnt posr

/-- The bit index of a power of two; negative for anything else. -/
def isPow2 (x : ℕ) : ℤ :=
  let out := isPow2Loop x 64 0 0 0
  if out.1=1 then (out.2 : ℤ) else (out.2 : ℤ)-2^31

/-- What one shared memory allocation hands back. -/
structure ShmS where
  /-- Initial contents. -/
  bytes : ℕ → Byte
  /-- The area was mapped twice in a row. -/
  cir : Bool

/-- An allocation rounds the size to the page in use; `none` when a system
call fails. -/
def shmwCtor (page : ℕ) (res : Option ShmS) (siz huge : ℕ) : Option (ℕ×ShmS) :=
  res.map fun shm => (yAlign siz (if page<huge then huge else page),shm)

/-- The cleared buffer object with both areas, sizes and blocks filled in. -/
def bufPlace (page rblk wblk siz csiz : ℕ) (shm bounce : ShmS) : BufS where
  ptr := shm.bytes
  scr := bounce.bytes
  scrSiz := csiz
  rchunk := 0
  wchunk := yAlign rblk page
  size := siz
  mask := 2^(isPow2 siz).toNat-1
  got := 0
  did := 0
  rblk := rblk
  wblk := wblk
  rmin := 0
  wmin := 0
  rsp := 0
  rspInv := 0
  wsp := 0
  fastr := false
  fastw := false
  dorcrc := false
  dowcrc := false
  iscir := shm.cir
  wstall := false
  rstall := false
  allin := 0
  allout := 0
  rcrc := 0
  wcrc := 0

/-- Build the buffer object, or refuse the sizes. -/
def bufCtor (page : ℕ) (area scr : Option ShmS) (bsiz rblk wblk hpage : ℕ) : Option BufS :=
  match shmwCtor page area bsiz hpage with
  | none => none
  | some (siz,shm) =>
    if isPow2 siz<0 then none
    else if siz≤2*max rblk wblk%wordSize then none
    else
      match shmwCtor page scr (wordAdd (yAlign rblk page) (yAlign wblk page)) 0 with
      | none => none
      | some (csiz,bounce) => some (bufPlace page rblk wblk siz csiz shm bounce)

/-- Set modes, checksums and resume points, or refuse the resume points.
`rsp` and `wsp` are the resume points already rounded to bytes. -/
def bufSetextra (buf : BufS) (rline wline rcrc wcrc : Bool) (rsp wsp : ℕ) : Option BufS :=
  let buf1 := {buf with
    rmin := if rline=true then 1 else buf.rblk
    wmin := if wline=true then 1 else buf.wblk
    rcrc := if rcrc=true then crcBeg else buf.rcrc
    dorcrc := rcrc || buf.dorcrc
    wcrc := if wcrc=true then crcBeg else buf.wcrc
    dowcrc := wcrc || buf.dowcrc}
  if rsp≠0 ∧ (rsp≤buf1.wblk ∨ wordSub buf1.size buf1.rblk≤rsp) then none
  else
    let buf2 := if rsp≠0 then {buf1 with rspInv := wordSub buf1.size rsp,rsp := rsp} else buf1
    if wsp≠0 ∧ (wordSub buf2.size buf2.rblk≤wsp ∨ wsp≤buf2.wblk) then none
    else if wsp≠0 then some {buf2 with wsp := wsp,wstall := true}
    else some buf2

end Yancat.Buffer
