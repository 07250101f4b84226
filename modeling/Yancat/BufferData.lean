import Yancat.BufferLaws

/-!
# What the data operations do to memory

One equation for each fetch and commit. Whatever path a transfer takes, the
plain ring, the doubled mapping or a bounce chunk, the ring ends up as one
cyclic store and the writer is handed one cyclic window.
-/

namespace Yancat.Buffer

open Crc RingWindow WordArithmetic

variable {buf : BufS}

/-- A span that needs no second copy of the ring, or has one. -/
def Spans (buf : BufS) (off n : ℕ) : Prop := buf.iscir=true ∨ off+n≤buf.size

/-- Addresses of a covered span are ring cells. -/
theorem ringAddr_eq {off n i : ℕ} (h : Spans buf off n) (hi : i<n) :
    ringAddr buf off i=ringCell buf.size off i := by
  unfold ringAddr
  split
  · rfl
  · next hc =>
    rcases h with h|h
    · exact absurd h hc
    · exact (ringCell_flat hi h).symm

/-- Loading a covered span of the ring is a window. -/
theorem loadAt_ring {off n : ℕ} (h : Spans buf off n) :
    loadAt buf (ringPtr off) n=window buf.size off n buf.ptr :=
  load_congr fun _ hi => by rw [ringAddr_eq h hi]

/-- Storing a covered span of the ring is a cyclic store. -/
theorem storeAt_ring {off : ℕ} {bs : List Byte} (h : Spans buf off bs.length) :
    storeAt buf (ringPtr off) bs={buf with ptr := store (ringCell buf.size off) bs buf.ptr} := by
  change ({buf with ptr := store (ringAddr buf off) bs buf.ptr} : BufS)=_
  rw [store_congr buf.ptr fun i hi => ringAddr_eq h hi]

/-- Loads through a pointer have the requested length. -/
@[simp] theorem loadAt_length (buf : BufS) (p : Ptr) (n : ℕ) : (loadAt buf p n).length=n := by
  unfold loadAt
  split <;> exact load_length _ _ _

/-- A shorter load through a pointer is a prefix. -/
theorem loadAt_take (buf : BufS) (p : Ptr) {k n : ℕ} (hk : k≤n) :
    (loadAt buf p n).take k=loadAt buf p k := by
  unfold loadAt
  split <;> exact load_take _ _ hk

/-- The part of a transfer before the end of the ring. -/
theorem RingOk.before_edge (h : RingOk buf) {off : ℕ} (ho : off<buf.size) :
    wordSub buf.size off=buf.size-off := by
  have hs := h.size_le
  exact wordSub_of_le ho.le (by have := wordSize_eq; omega)

/-- Addresses past an offset of the bounce allocation. -/
theorem scrAddr_add (off a : ℕ) : scrAddr (off+a)=fun i => scrAddr off (a+i) := by
  funext i
  exact Nat.add_assoc off a i

/-- A load through a pointer into the bounce allocation splits. -/
theorem loadAt_scr_add (buf : BufS) (off a b : ℕ) :
    loadAt buf (scrPtr off) a++loadAt buf (scrPtr (off+a)) b=loadAt buf (scrPtr off) (a+b) := by
  change load _ _ _++load _ _ _=load _ _ _
  rw [load_add,←scrAddr_add]

/-- The two copies out of the read bounce chunk are one cyclic store. -/
theorem RingOk.scatter (h : RingOk buf) {n : ℕ} (hn : n≤buf.size) :
    let siz1 := min (wordSub buf.size buf.got) n
    let siz2 := n-siz1
    let buf1 := memcpy buf (ringPtr buf.got) (scrPtr buf.rchunk) siz1
    (if siz2≠0 then memcpy buf1 (ringPtr 0) (scrPtr (buf.rchunk+siz1)) siz2 else buf1)=
      {buf with
        ptr := store (ringCell buf.size buf.got) (loadAt buf (scrPtr buf.rchunk) n) buf.ptr} := by
  have hg := h.got_lt
  rw [h.before_edge hg]
  intro siz1 siz2 buf1
  have hb1 : buf1=storeAt buf (ringPtr buf.got) (loadAt buf (scrPtr buf.rchunk) siz1) := rfl
  rw [storeAt_ring (.inr (by rw [loadAt_length]; omega))] at hb1
  by_cases hz : siz2=0
  · have hs : siz1=n := by omega
    rw [if_neg (not_not_intro hz),hb1,hs]
  · have hspan : Spans buf1 0 (loadAt buf1 (scrPtr (buf.rchunk+siz1)) siz2).length := by
      rw [loadAt_length,hb1]
      exact .inr (by change 0+siz2≤buf.size; omega)
    have hsum : siz1+siz2=n := by omega
    have hw := store_wrapped buf.ptr fun _ : loadAt buf (scrPtr (buf.rchunk+siz1)) siz2≠[] =>
      (by rw [loadAt_length]; omega :
        buf.got+(loadAt buf (scrPtr buf.rchunk) siz1).length=buf.size)
    rw [loadAt_scr_add,hsum] at hw
    rw [if_pos hz,memcpy,storeAt_ring hspan,hb1,←hw]
    rfl

/-- Committing a bounced read is one cyclic store of the bounced bytes. -/
theorem RingOk.ibufCommitRbounce_eq (h : RingOk buf) {n : ℕ} (hn : n≤buf.size) :
    ibufCommitRbounce buf n=
      {buf with
        ptr := store (ringCell buf.size buf.got) (loadAt buf (scrPtr buf.rchunk) n) buf.ptr
        rcrc := if buf.dorcrc=true then crcCalc buf.rcrc (loadAt buf (scrPtr buf.rchunk) n)
          else buf.rcrc} := by
  unfold ibufCommitRbounce
  dsimp only
  rw [h.scatter hn]
  split <;> rfl

/-- The two copies into the write bounce chunk gather one cyclic window. -/
theorem RingOk.gather (h : RingOk buf) {n : ℕ} (hn : n≤buf.size) :
    let siz1 := min (wordSub buf.size buf.did) n
    let siz2 := n-siz1
    let buf1 := memcpy buf (scrPtr buf.wchunk) (ringPtr buf.did) siz1
    (if siz2≠0 then memcpy buf1 (scrPtr (buf.wchunk+siz1)) (ringPtr 0) siz2 else buf1)=
      {buf with
        scr := store (scrAddr buf.wchunk) (window buf.size buf.did n buf.ptr) buf.scr} := by
  have hd := h.did_lt
  rw [h.before_edge hd]
  intro siz1 siz2 buf1
  have hb1 : buf1=storeAt buf (scrPtr buf.wchunk) (loadAt buf (ringPtr buf.did) siz1) := rfl
  rw [loadAt_ring (.inr (by omega))] at hb1
  by_cases hz : siz2=0
  · have hs : siz1=n := by omega
    rw [if_neg (not_not_intro hz),hb1,hs]
    rfl
  · have hsum : siz1+siz2=n := by omega
    have hload : loadAt buf1 (ringPtr 0) siz2=window buf.size 0 siz2 buf.ptr := by
      rw [hb1]
      exact loadAt_ring (.inr (by change 0+siz2≤buf.size; omega))
    have hw := window_wrapped buf.ptr fun _ : 0<siz2 => (by omega : buf.did+siz1=buf.size)
    rw [hsum] at hw
    have hs := store_append (scrAddr buf.wchunk) (window buf.size buf.did siz1 buf.ptr)
      (window buf.size 0 siz2 buf.ptr) buf.scr
    rw [hw,window_length] at hs
    rw [if_pos hz,memcpy,hload,hb1,hs]
    rw [←scrAddr_add]
    rfl

/-- Fetching through the bounce chunk gathers one cyclic window. -/
theorem RingOk.ibufFetchWbounce_eq (h : RingOk buf) {n : ℕ} (hn : n≤buf.size) :
    ibufFetchWbounce buf n=(scrPtr buf.wchunk,
      {buf with
        scr := store (scrAddr buf.wchunk) (window buf.size buf.did n buf.ptr) buf.scr
        fastw := false}) := by
  unfold ibufFetchWbounce
  dsimp only
  rw [h.gather hn]

/-- The pointer that the last read fetch returned. -/
def readPtr (buf : BufS) : Ptr :=
  if buf.fastr=true then ringPtr buf.got else scrPtr buf.rchunk

/-- The pointer that the last write fetch returned. -/
def writePtr (buf : BufS) : Ptr :=
  if buf.fastw=true then ringPtr buf.did else scrPtr buf.wchunk

/-- A read fetch records which path it chose, and chooses the ring only for a
covered span. -/
theorem RingOk.bufFetchR_eq (h : RingOk buf) {n : ℕ} (hn : n≤buf.size) :
    ∃ f,bufFetchR buf n=(readPtr {buf with fastr := f},{buf with fastr := f}) ∧
      (f=true → Spans buf buf.got n) := by
  have hs := h.size_le
  have hg := h.got_lt
  have hadd : wordAdd buf.got n=buf.got+n := wordAdd_of_lt (by have := wordSize_eq; omega)
  unfold bufFetchR
  rw [hadd]
  by_cases hc : buf.iscir=true ∨ buf.got+n≤buf.size
  · exact ⟨true,if_pos hc,fun _ => hc⟩
  · exact ⟨false,if_neg hc,fun hf => by cases hf⟩

/-- A write fetch either points into the ring at a covered span or gathers
the window in the bounce chunk. -/
theorem RingOk.bufFetchW_eq (h : RingOk buf) {n : ℕ} (hn : n≤buf.size) :
    (Spans buf buf.did n ∧ bufFetchW buf n=(ringPtr buf.did,{buf with fastw := true})) ∨
    bufFetchW buf n=ibufFetchWbounce buf n := by
  have hs := h.size_le
  have hd := h.did_lt
  have hadd : wordAdd buf.did n=buf.did+n := wordAdd_of_lt (by have := wordSize_eq; omega)
  unfold bufFetchW
  rw [hadd]
  by_cases hc : buf.iscir=true ∨ buf.did+n≤buf.size
  · exact .inl ⟨hc,if_pos hc⟩
  · exact .inr (if_neg hc)

/-- A committed read covers the bytes behind the fetched pointer: they are in
the ring afterwards and are what the register advances over. -/
theorem RingOk.bufCommitR_eq (h : RingOk buf) {n : ℕ} (hn : n≤buf.size) :
    bufCommitR buf n=
      {buf with
        allin := buf.allin+BitVec.ofNat 64 n
        ptr := if buf.fastr=true then buf.ptr
          else store (ringCell buf.size buf.got) (loadAt buf (scrPtr buf.rchunk) n) buf.ptr
        rcrc := if buf.dorcrc=true then crcCalc buf.rcrc (loadAt buf (readPtr buf) n)
          else buf.rcrc} := by
  let buf1 := {buf with allin := buf.allin+BitVec.ofNat 64 n}
  have h1 : RingOk buf1 := {h with}
  unfold bufCommitR
  dsimp only
  by_cases hf : buf.fastr=true
  · rw [if_pos hf,if_pos hf,readPtr,if_pos hf]
    split <;> rfl
  · have hb := h1.ibufCommitRbounce_eq hn
    rw [if_neg hf,if_neg hf,readPtr,if_neg hf]
    exact hb

/-- A committed write advances the register over the bytes behind the
fetched pointer. -/
theorem bufCommitW_eq (buf : BufS) (n : ℕ) :
    bufCommitW buf n=
      {buf with
        allout := buf.allout+BitVec.ofNat 64 n
        wcrc := if buf.dowcrc=true then crcCalc buf.wcrc (loadAt buf (writePtr buf) n)
          else buf.wcrc} := by
  unfold bufCommitW
  dsimp only
  by_cases hd : buf.dowcrc=true
  · rw [if_pos hd,if_pos hd]
    by_cases hf : buf.fastw=true
    · rw [if_pos hf,writePtr,if_pos hf]
    · rw [if_neg hf,writePtr,if_neg hf]
  · rw [if_neg hd,if_neg hd]

/-- A change to memory, fetch flags, counters and registers only. -/
def Moved (buf buf' : BufS) : Prop :=
  ∃ ptr scr fastr fastw allin allout rcrc wcrc,
    buf'={buf with
      ptr := ptr
      scr := scr
      fastr := fastr
      fastw := fastw
      allin := allin
      allout := allout
      rcrc := rcrc
      wcrc := wcrc}

/-- No change is such a change. -/
theorem Moved.refl (buf : BufS) : Moved buf buf := ⟨_,_,_,_,_,_,_,_,rfl⟩

/-- Such changes compose. -/
theorem Moved.trans {buf1 buf2 : BufS} (h1 : Moved buf buf1) (h2 : Moved buf1 buf2) :
    Moved buf buf2 := by
  obtain ⟨_,_,_,_,_,_,_,_,rfl⟩ := h1
  obtain ⟨_,_,_,_,_,_,_,_,rfl⟩ := h2
  exact ⟨_,_,_,_,_,_,_,_,rfl⟩

/-- They keep the geometry. -/
theorem Moved.ok {buf' : BufS} (h : Moved buf buf') (hok : BufOk buf) : BufOk buf' := by
  obtain ⟨_,_,_,_,_,_,_,_,rfl⟩ := h
  exact {hok with}

/-- A store is such a change. -/
theorem storeAt_moved (buf : BufS) (p : Ptr) (bs : List Byte) : Moved buf (storeAt buf p bs) := by
  unfold storeAt
  split <;> exact ⟨_,_,_,_,_,_,_,_,rfl⟩

/-- One or two copies are such a change. -/
theorem copies_moved (buf : BufS) (dst1 src1 dst2 src2 : Ptr) (siz1 siz2 : ℕ) :
    Moved buf (if siz2≠0 then memcpy (memcpy buf dst1 src1 siz1) dst2 src2 siz2
      else memcpy buf dst1 src1 siz1) := by
  split
  · exact (storeAt_moved _ _ _).trans (storeAt_moved _ _ _)
  · exact storeAt_moved _ _ _

/-- A bounced fetch is such a change. -/
theorem ibufFetchWbounce_moved (buf : BufS) (n : ℕ) : Moved buf (ibufFetchWbounce buf n).2 :=
  (copies_moved buf _ _ _ _ _ _).trans ⟨_,_,_,_,_,_,_,_,rfl⟩

/-- A bounced commit is such a change. -/
theorem ibufCommitRbounce_moved (buf : BufS) (n : ℕ) : Moved buf (ibufCommitRbounce buf n) := by
  have hsum : ∀ buf2 : BufS,Moved buf buf2 → Moved buf (if buf2.dorcrc=true then
      {buf2 with rcrc := crcCalc buf2.rcrc (loadAt buf2 (scrPtr buf2.rchunk) n)} else buf2) := by
    intro buf2 h
    split
    · exact h.trans ⟨_,_,_,_,_,_,_,_,rfl⟩
    · exact h
  exact hsum _ (copies_moved buf _ _ _ _ _ _)

/-- A read fetch is such a change. -/
theorem bufFetchR_moved (buf : BufS) (n : ℕ) : Moved buf (bufFetchR buf n).2 := by
  unfold bufFetchR
  split <;> exact ⟨_,_,_,_,_,_,_,_,rfl⟩

/-- A write fetch is such a change. -/
theorem bufFetchW_moved (buf : BufS) (n : ℕ) : Moved buf (bufFetchW buf n).2 := by
  unfold bufFetchW
  split
  · exact ⟨_,_,_,_,_,_,_,_,rfl⟩
  · exact ibufFetchWbounce_moved buf n

/-- Counting a read is such a change. -/
theorem bufCommitR_moved (buf : BufS) (n : ℕ) : Moved buf (bufCommitR buf n) := by
  unfold bufCommitR
  dsimp only
  split
  · split <;> exact ⟨_,_,_,_,_,_,_,_,rfl⟩
  · exact Moved.trans ⟨_,_,_,_,_,_,_,_,rfl⟩ (ibufCommitRbounce_moved _ n)

/-- Counting a write is such a change. -/
theorem bufCommitW_moved (buf : BufS) (n : ℕ) : Moved buf (bufCommitW buf n) := by
  rw [bufCommitW_eq]
  exact ⟨_,_,_,_,_,_,_,_,rfl⟩

end Yancat.Buffer
