import Yancat.BufferData
import Yancat.Setup

/-!
# One buffer behind two paths

The fetch and commit pairs with every access checked against the allocation it
goes to: the ring or its doubled mapping, and the two bounce areas. No access is
ever outside, and what a transfer leaves behind does not depend on whether the
ring is mapped twice, nor on whether the bounce area was forced.
-/

namespace Yancat.Buffer

open Crc RingWindow WordArithmetic

/-- The geometry that both paths rest on. -/
structure BounceOk (buf : BufS) : Prop extends RingOk buf where
  /-- Two read blocks are smaller than the ring. -/
  rfit : 2*buf.rblk<buf.size
  /-- Two write blocks are smaller than the ring. -/
  wfit : 2*buf.wblk<buf.size

/-- The accepted geometry is enough. -/
theorem BufOk.bounce (h : BufOk buf) : BounceOk buf := {h.ring with rfit := h.rfit,wfit := h.wfit}

/-- An access of `n` bytes that stays in its area: the ring, as often as it is
mapped, or one of the two bounce areas. -/
def Inside (buf : BufS) (p : Ptr) (n : ℕ) : Prop :=
  match p.area with
  | .ring => p.off+n≤(if buf.iscir=true then 2*buf.size else buf.size)
  | .scr =>
    (buf.rchunk≤p.off ∧ p.off+n≤buf.rchunk+buf.rblk) ∨
    (buf.wchunk≤p.off ∧ p.off+n≤buf.wchunk+buf.wblk)

/-- Whether an access stays inside can be computed. -/
instance (buf : BufS) (p : Ptr) (n : ℕ) : Decidable (Inside buf p n) := by
  unfold Inside
  split <;> infer_instance

/-- A load that fails outside its area. -/
def loadIn (buf : BufS) (p : Ptr) (n : ℕ) : Option (List Byte) :=
  if Inside buf p n then some (loadAt buf p n) else none

/-- A store that fails outside its area. -/
def storeIn (buf : BufS) (p : Ptr) (bs : List Byte) : Option BufS :=
  if Inside buf p bs.length then some (storeAt buf p bs) else none

/-- A copy with both accesses checked. -/
def memcpyIn (buf : BufS) (dst src : Ptr) (n : ℕ) : Option BufS :=
  (loadIn buf src n).bind fun bs => storeIn buf dst bs

/-- `ibuf_fetch_wbounce` with its accesses checked. -/
def ibufFetchWbounceIn (buf : BufS) (chunk : ℕ) : Option (Ptr×BufS) :=
  let siz1 := min (wordSub buf.size buf.did) chunk
  let siz2 := chunk-siz1
  ((memcpyIn buf (scrPtr buf.wchunk) (ringPtr buf.did) siz1).bind fun buf1 =>
    if siz2≠0 then memcpyIn buf1 (scrPtr (buf.wchunk+siz1)) (ringPtr 0) siz2 else some buf1).map
      fun buf2 => (scrPtr buf.wchunk,{buf2 with fastw := false})

/-- `buf_fetch_w` with its accesses checked. -/
def bufFetchWIn (buf : BufS) (chunk : ℕ) : Option (Ptr×BufS) :=
  if buf.iscir=true ∨ wordAdd buf.did chunk≤buf.size then
    some (ringPtr buf.did,{buf with fastw := true})
  else ibufFetchWbounceIn buf chunk

/-- `buf_forcefetch_w` with its accesses checked. -/
def bufForcefetchWIn (buf : BufS) (chunk : ℕ) : Option (Ptr×BufS) := ibufFetchWbounceIn buf chunk

/-- `ibuf_commit_rbounce` with its accesses checked. -/
def ibufCommitRbounceIn (buf : BufS) (chunk : ℕ) : Option BufS :=
  let siz1 := min (wordSub buf.size buf.got) chunk
  let siz2 := chunk-siz1
  ((memcpyIn buf (ringPtr buf.got) (scrPtr buf.rchunk) siz1).bind fun buf1 =>
    if siz2≠0 then memcpyIn buf1 (ringPtr 0) (scrPtr (buf.rchunk+siz1)) siz2 else some buf1).bind
      fun buf2 =>
        if buf2.dorcrc=true then
          (loadIn buf2 (scrPtr buf2.rchunk) chunk).map fun bs =>
            {buf2 with rcrc := crcCalc buf2.rcrc bs}
        else some buf2

/-- `buf_commit_r` with its accesses checked. -/
def bufCommitRIn (buf : BufS) (chunk : ℕ) : Option BufS :=
  let allin := buf.allin+BitVec.ofNat 64 chunk
  if buf.fastr=true then
    if buf.dorcrc=true then
      (loadIn buf (ringPtr buf.got) chunk).map fun bs =>
        {buf with allin := allin,rcrc := crcCalc buf.rcrc bs}
    else some {buf with allin := allin}
  else ibufCommitRbounceIn {buf with allin := allin} chunk

/-- `buf_commit_w` with its accesses checked. -/
def bufCommitWIn (buf : BufS) (chunk : ℕ) : Option BufS :=
  let allout := buf.allout+BitVec.ofNat 64 chunk
  if buf.dowcrc=true then
    if buf.fastw=true then
      (loadIn buf (ringPtr buf.did) chunk).map fun bs =>
        {buf with allout := allout,wcrc := crcCalc buf.wcrc bs}
    else
      (loadIn buf (scrPtr buf.wchunk) chunk).map fun bs =>
        {buf with allout := allout,wcrc := crcCalc buf.wcrc bs}
  else some {buf with allout := allout}

/-- A read of `bs` under a grant of `chunk`: fetch, store, count, publish. -/
def bringIn (buf : BufS) (chunk : ℕ) (bs : List Byte) : Option BufS :=
  let f := bufFetchR buf chunk
  (storeIn f.2 f.1 bs).bind fun buf1 =>
    (bufCommitRIn buf1 bs.length).map fun buf2 => bufCommitRf buf2 bs.length

/-- A write of `n` bytes under a grant of `chunk`: fetch, take, count, release. -/
def takeOut (forced : Bool) (buf : BufS) (chunk n : ℕ) : Option (List Byte×BufS) :=
  (if forced=true then bufForcefetchWIn buf chunk else bufFetchWIn buf chunk).bind fun f =>
    (loadIn f.2 f.1 n).bind fun bs =>
      (bufCommitWIn f.2 n).map fun buf1 => (bs,bufCommitWf buf1 n)

/-- What a read leaves behind. -/
structure Brought (buf : BufS) (bs : List Byte) (out : BufS) : Prop where
  /-- The input is in the ring from the read index on. -/
  ring : window buf.size buf.got bs.length out.ptr=bs
  /-- No other cell of the ring has changed. -/
  rest : ∀ a,(∀ i<bs.length,a≠ringCell buf.size buf.got i) → out.ptr a=buf.ptr a
  /-- The read index has moved by the length of the input. -/
  got : out.got=(buf.got+bs.length)%buf.size
  /-- The input is counted. -/
  allin : out.allin=buf.allin+BitVec.ofNat 64 bs.length
  /-- The register has advanced over the input, where it is kept. -/
  rcrc : out.rcrc=if buf.dorcrc=true then crcCalc buf.rcrc bs else buf.rcrc

/-- What a write leaves behind. -/
structure Taken (buf : BufS) (n : ℕ) (bs : List Byte) (out : BufS) : Prop where
  /-- The bytes handed out are those from the write index on. -/
  data : bs=window buf.size buf.did n buf.ptr
  /-- The ring has not changed. -/
  ring : out.ptr=buf.ptr
  /-- The write index has moved by the amount written. -/
  did : out.did=(buf.did+n)%buf.size
  /-- The output is counted. -/
  allout : out.allout=buf.allout+BitVec.ofNat 64 n
  /-- The register has advanced over the output, where it is kept. -/
  wcrc : out.wcrc=if buf.dowcrc=true then crcCalc buf.wcrc bs else buf.wcrc

variable {buf : BufS} {chunk n : ℕ} {bs : List Byte} {p : Ptr}

/-- A load inside its area succeeds. -/
theorem loadIn_some (h : Inside buf p n) : loadIn buf p n=some (loadAt buf p n) := if_pos h

/-- A store inside its area succeeds. -/
theorem storeIn_some (h : Inside buf p bs.length) : storeIn buf p bs=some (storeAt buf p bs) :=
  if_pos h

/-- A copy inside both areas succeeds. -/
theorem memcpyIn_some {dst src : Ptr} (hd : Inside buf dst n) (hs : Inside buf src n) :
    memcpyIn buf dst src n=some (memcpy buf dst src n) := by
  rw [memcpyIn,loadIn_some hs,Option.bind_some,storeIn_some (by rw [loadAt_length]; exact hd)]
  rfl

/-- Moving bytes about moves no area. -/
theorem Inside.moved {buf' : BufS} (hm : Moved buf buf') (h : Inside buf p n) :
    Inside buf' p n := by
  obtain ⟨_,_,_,_,_,_,_,_,rfl⟩ := hm
  exact h

/-- An access that ends at the end of the ring is inside. -/
theorem inside_ring {off : ℕ} (h : off+n≤buf.size) : Inside buf (ringPtr off) n := by
  change off+n≤(if buf.iscir=true then 2*buf.size else buf.size)
  split <;> omega

/-- An access that covers a span is inside. -/
theorem Spans.inside {off : ℕ} (h : Spans buf off n) (ho : off<buf.size) (hn : n≤buf.size) :
    Inside buf (ringPtr off) n := by
  rcases h with hc|hle
  · change off+n≤(if buf.iscir=true then 2*buf.size else buf.size)
    rw [if_pos hc]
    omega
  · exact inside_ring hle

/-- An access to a block in the read bounce area is inside. -/
theorem inside_rchunk {off : ℕ} (ho : buf.rchunk≤off) (h : off+n≤buf.rchunk+buf.rblk) :
    Inside buf (scrPtr off) n := .inl ⟨ho,h⟩

/-- An access to a block in the write bounce area is inside. -/
theorem inside_wchunk {off : ℕ} (ho : buf.wchunk≤off) (h : off+n≤buf.wchunk+buf.wblk) :
    Inside buf (scrPtr off) n := .inr ⟨ho,h⟩

/-- Two copies that are inside succeed, the second when it has anything to do. -/
theorem copiesIn_some {dst1 src1 dst2 src2 : Ptr} {siz1 siz2 : ℕ} (hd1 : Inside buf dst1 siz1)
    (hs1 : Inside buf src1 siz1) (hd2 : Inside buf dst2 siz2) (hs2 : Inside buf src2 siz2) :
    ((memcpyIn buf dst1 src1 siz1).bind fun buf1 =>
      if siz2≠0 then memcpyIn buf1 dst2 src2 siz2 else some buf1)=
    some (if siz2≠0 then memcpy (memcpy buf dst1 src1 siz1) dst2 src2 siz2
      else memcpy buf dst1 src1 siz1) := by
  have hm : Moved buf (memcpy buf dst1 src1 siz1) := storeAt_moved _ _ _
  rw [memcpyIn_some hd1 hs1,Option.bind_some]
  split
  · exact memcpyIn_some (hd2.moved hm) (hs2.moved hm)
  · rfl

/-- A bounced fetch stays inside. -/
theorem BounceOk.ibufFetchWbounceIn_some (h : BounceOk buf) (hn : n≤buf.wblk) :
    ibufFetchWbounceIn buf n=some (ibufFetchWbounce buf n) := by
  have hfit := h.wfit
  have hd := h.did_lt
  have hedge := h.before_edge hd
  unfold ibufFetchWbounceIn ibufFetchWbounce
  dsimp only
  generalize hs : min (wordSub buf.size buf.did) n=siz1
  rw [copiesIn_some]
  · rfl
  · exact inside_wchunk (le_refl _) (by omega)
  · exact inside_ring (by omega)
  · exact inside_wchunk (by omega) (by omega)
  · exact inside_ring (by omega)

/-- A write fetch stays inside. -/
theorem BounceOk.bufFetchWIn_some (h : BounceOk buf) (hn : n≤buf.wblk) :
    bufFetchWIn buf n=some (bufFetchW buf n) := by
  unfold bufFetchWIn bufFetchW
  split
  · rfl
  · exact h.ibufFetchWbounceIn_some hn

/-- A bounced commit stays inside. -/
theorem BounceOk.ibufCommitRbounceIn_some (h : BounceOk buf) (hn : n≤buf.rblk) :
    ibufCommitRbounceIn buf n=some (ibufCommitRbounce buf n) := by
  have hfit := h.rfit
  have hg := h.got_lt
  have hedge := h.before_edge hg
  unfold ibufCommitRbounceIn ibufCommitRbounce
  dsimp only
  generalize hs : min (wordSub buf.size buf.got) n=siz1
  rw [copiesIn_some]
  · have hm := copies_moved buf (ringPtr buf.got) (scrPtr buf.rchunk) (ringPtr 0)
      (scrPtr (buf.rchunk+siz1)) siz1 (n-siz1)
    generalize (if n-siz1≠0 then memcpy (memcpy buf (ringPtr buf.got) (scrPtr buf.rchunk) siz1)
      (ringPtr 0) (scrPtr (buf.rchunk+siz1)) (n-siz1)
      else memcpy buf (ringPtr buf.got) (scrPtr buf.rchunk) siz1)=buf2 at hm ⊢
    have hin : Inside buf2 (scrPtr buf2.rchunk) n := by
      obtain ⟨_,_,_,_,_,_,_,_,rfl⟩ := hm
      exact inside_rchunk (le_refl _) (by change buf.rchunk+n≤buf.rchunk+buf.rblk; omega)
    rw [Option.bind_some]
    split
    · rw [loadIn_some hin]
      rfl
    · rfl
  · exact inside_ring (by omega)
  · exact inside_rchunk (le_refl _) (by omega)
  · exact inside_ring (by omega)
  · exact inside_rchunk (by omega) (by omega)

/-- A committed read stays inside. -/
theorem BounceOk.bufCommitRIn_some (h : BounceOk buf) (hn : n≤buf.rblk)
    (hf : buf.fastr=true → Spans buf buf.got n) : bufCommitRIn buf n=some (bufCommitR buf n) := by
  have hfit := h.rfit
  unfold bufCommitRIn bufCommitR
  dsimp only
  by_cases hfast : buf.fastr=true
  · rw [if_pos hfast,if_pos hfast]
    split
    · rw [loadIn_some ((hf hfast).inside h.got_lt (by omega))]
      rfl
    · rfl
  · rw [if_neg hfast,if_neg hfast]
    have hcount : BounceOk {buf with allin := buf.allin+BitVec.ofNat 64 n} := {h with}
    exact hcount.ibufCommitRbounceIn_some hn

/-- A committed write stays inside. -/
theorem BounceOk.bufCommitWIn_some (h : BounceOk buf) (hn : n≤buf.wblk)
    (hf : buf.fastw=true → Spans buf buf.did n) : bufCommitWIn buf n=some (bufCommitW buf n) := by
  have hfit := h.wfit
  unfold bufCommitWIn bufCommitW
  dsimp only
  by_cases hd : buf.dowcrc=true
  · rw [if_pos hd,if_pos hd]
    by_cases hfast : buf.fastw=true
    · rw [if_pos hfast,if_pos hfast,loadIn_some ((hf hfast).inside h.did_lt (by omega))]
      rfl
    · rw [if_neg hfast,if_neg hfast,loadIn_some (inside_wchunk (le_refl _) (by omega))]
      rfl
  · rw [if_neg hd,if_neg hd]

/-- What was stored over a span of the ring reads back. -/
theorem loadAt_storeAt_ring {off : ℕ} (h : Spans buf off bs.length) (hn : bs.length≤buf.size) :
    loadAt (storeAt buf (ringPtr off) bs) (ringPtr off) bs.length=bs := by
  change load (ringAddr buf off) bs.length (store (ringAddr buf off) bs buf.ptr)=bs
  refine load_store fun i hi j hj he => ?_
  rw [ringAddr_eq h hi,ringAddr_eq h hj] at he
  exact ringCell_inj (by omega) (by omega) he

/-- What was stored in the bounce allocation reads back. -/
theorem loadAt_storeAt_scr {off : ℕ} :
    loadAt (storeAt buf (scrPtr off) bs) (scrPtr off) bs.length=bs := by
  change load (scrAddr off) bs.length (store (scrAddr off) bs buf.scr)=bs
  exact load_store fun i _ j _ he => Nat.add_left_cancel he

/-- A counted read of `bs` is one cyclic store, whichever path it took. -/
theorem RingOk.brought (h : RingOk buf) (hc : chunk≤buf.size) (hn : bs.length≤chunk) :
    ∃ fastr scr,bufCommitR (storeAt (bufFetchR buf chunk).2 (bufFetchR buf chunk).1 bs) bs.length=
      {buf with
        fastr := fastr
        scr := scr
        ptr := store (ringCell buf.size buf.got) bs buf.ptr
        allin := buf.allin+BitVec.ofNat 64 bs.length
        rcrc := if buf.dorcrc=true then crcCalc buf.rcrc bs else buf.rcrc} := by
  obtain ⟨fast,hf,hs⟩ := h.bufFetchR_eq hc
  have hle : bs.length≤buf.size := by omega
  rw [hf]
  cases fast with
  | true =>
    let buf0 := {buf with fastr := true}
    have hspan : Spans buf0 buf.got bs.length := by
      rcases hs rfl with hcir|hfit
      · exact .inl hcir
      · exact .inr (by change buf.got+bs.length≤buf.size; omega)
    have hok : RingOk (storeAt buf0 (ringPtr buf.got) bs) := {h with}
    have hcommit := hok.bufCommitR_eq hle
    rw [show readPtr (storeAt buf0 (ringPtr buf.got) bs)=ringPtr buf.got from rfl,
      loadAt_storeAt_ring hspan hle,storeAt_ring hspan] at hcommit
    rw [show readPtr {buf with fastr := true}=ringPtr buf.got from rfl,
      show ({buf with fastr := true} : BufS)=buf0 from rfl,storeAt_ring hspan]
    exact ⟨true,buf.scr,hcommit⟩
  | false =>
    let buf0 := {buf with fastr := false}
    have hok : RingOk (storeAt buf0 (scrPtr buf.rchunk) bs) := {h with}
    have hcommit := hok.bufCommitR_eq hle
    rw [show readPtr (storeAt buf0 (scrPtr buf.rchunk) bs)=scrPtr buf.rchunk from rfl,
      show (storeAt buf0 (scrPtr buf.rchunk) bs).rchunk=buf.rchunk from rfl,
      loadAt_storeAt_scr] at hcommit
    exact ⟨false,_,hcommit⟩

/-- A counted write hands out the window at the write index, whichever path it
took. -/
theorem RingOk.taken (h : RingOk buf) (hc : chunk≤buf.size) (hn : n≤chunk) (forced : Bool) :
    let f := if forced=true then bufForcefetchW buf chunk else bufFetchW buf chunk
    (f.2.fastw=true → Spans f.2 buf.did n) ∧ f.1=writePtr f.2 ∧
      loadAt f.2 f.1 n=window buf.size buf.did n buf.ptr ∧
      ∃ fastw scr,f.2={buf with fastw := fastw,scr := scr} := by
  have hbounce : ∀ f,f=ibufFetchWbounce buf chunk → (f.2.fastw=true → Spans f.2 buf.did n) ∧
      f.1=writePtr f.2 ∧ loadAt f.2 f.1 n=window buf.size buf.did n buf.ptr ∧
      ∃ fastw scr,f.2={buf with fastw := fastw,scr := scr} := by
    intro f hf
    rw [h.ibufFetchWbounce_eq hc] at hf
    subst hf
    refine ⟨nofun,rfl,?_,false,_,rfl⟩
    have hload : load (scrAddr buf.wchunk) (window buf.size buf.did chunk buf.ptr).length
        (store (scrAddr buf.wchunk) (window buf.size buf.did chunk buf.ptr) buf.scr)=_ :=
      load_store fun i _ j _ he => Nat.add_left_cancel he
    rw [window_length] at hload
    rw [←loadAt_take _ _ hn,←window_take _ _ _ hn]
    exact congrArg (List.take n) hload
  intro f
  cases forced with
  | true => exact hbounce f rfl
  | false =>
    rcases h.bufFetchW_eq hc with ⟨hspan,hf⟩|hf
    · have hspan' : Spans {buf with fastw := true} buf.did n := by
        rcases hspan with hcir|hfit
        · exact .inl hcir
        · exact .inr (by change buf.did+n≤buf.size; omega)
      change f=_ at hf
      rw [hf]
      exact ⟨fun _ => hspan',rfl,loadAt_ring hspan',true,buf.scr,rfl⟩
    · exact hbounce f hf

/-- Moving bytes about keeps the geometry of both paths. -/
theorem BounceOk.moved {buf' : BufS} (h : BounceOk buf) (hm : Moved buf buf') : BounceOk buf' := by
  obtain ⟨_,_,_,_,_,_,_,_,rfl⟩ := hm
  exact {h with}

/-- A span of a fetched buffer is covered in part when it is as a whole. -/
theorem Spans.shorten {off : ℕ} (h : Spans buf off chunk) (hn : n≤chunk) : Spans buf off n := by
  rcases h with hcir|hle
  · exact .inl hcir
  · exact .inr (by omega)

/-- What the last read fetch pointed at is inside. -/
theorem BounceOk.inside_readPtr (h : BounceOk buf) (hn : n≤buf.rblk)
    (hf : buf.fastr=true → Spans buf buf.got n) : Inside buf (readPtr buf) n := by
  have hfit := h.rfit
  rw [readPtr]
  split
  · next hfast => exact (hf hfast).inside h.got_lt (by omega)
  · exact inside_rchunk (le_refl _) (by omega)

/-- What the last write fetch pointed at is inside. -/
theorem BounceOk.inside_writePtr (h : BounceOk buf) (hn : n≤buf.wblk)
    (hf : buf.fastw=true → Spans buf buf.did n) : Inside buf (writePtr buf) n := by
  have hfit := h.wfit
  rw [writePtr]
  split
  · next hfast => exact (hf hfast).inside h.did_lt (by omega)
  · exact inside_wchunk (le_refl _) (by omega)

/-- A store leaves the choice of the last read fetch alone. -/
theorem storeAt_fastr (buf : BufS) (p : Ptr) (bs : List Byte) :
    (storeAt buf p bs).fastr=buf.fastr := by
  unfold storeAt
  split <;> rfl

/-- A read stays inside its areas. -/
theorem BounceOk.bringIn_some (h : BounceOk buf) (hc : chunk≤buf.rblk) (hn : bs.length≤chunk) :
    bringIn buf chunk bs=some (bufCommitRf (bufCommitR
      (storeAt (bufFetchR buf chunk).2 (bufFetchR buf chunk).1 bs) bs.length) bs.length) := by
  have hfit := h.rfit
  have hm := bufFetchR_moved buf chunk
  obtain ⟨fast,hf,hs⟩ := h.bufFetchR_eq (n:=chunk) (by omega)
  have hptr : (bufFetchR buf chunk).1=readPtr (bufFetchR buf chunk).2 := by rw [hf]
  have hspan : (bufFetchR buf chunk).2.fastr=true →
      Spans (bufFetchR buf chunk).2 (bufFetchR buf chunk).2.got bs.length := by
    rw [hf]
    exact fun hfast => (hs hfast).shorten hn
  have hblk : bs.length≤(bufFetchR buf chunk).2.rblk := by
    rw [hf]
    exact hn.trans hc
  rw [bringIn]
  generalize bufFetchR buf chunk=f at hm hptr hspan hblk ⊢
  have hok := h.moved hm
  have hm1 := storeAt_moved f.2 f.1 bs
  have hcommit : bufCommitRIn (storeAt f.2 f.1 bs) bs.length=
      some (bufCommitR (storeAt f.2 f.1 bs) bs.length) := by
    have hfast1 := storeAt_fastr f.2 f.1 bs
    generalize storeAt f.2 f.1 bs=buf1 at hm1 hfast1 ⊢
    obtain ⟨_,_,_,_,_,_,_,_,rfl⟩ := hm1
    exact BounceOk.bufCommitRIn_some {hok with} hblk fun he => hspan (hfast1.symm.trans he)
  rw [hptr] at hcommit ⊢
  rw [storeIn_some (hok.inside_readPtr hblk hspan),Option.bind_some,hcommit]
  rfl

/-- A write stays inside its areas. -/
theorem BounceOk.takeOut_some (h : BounceOk buf) (hc : chunk≤buf.wblk) (hn : n≤chunk)
    (forced : Bool) :
    let f := if forced=true then bufForcefetchW buf chunk else bufFetchW buf chunk
    takeOut forced buf chunk n=some (loadAt f.2 f.1 n,bufCommitWf (bufCommitW f.2 n) n) := by
  have hfit := h.wfit
  have hfetch : (if forced=true then bufForcefetchWIn buf chunk else bufFetchWIn buf chunk)=
      some (if forced=true then bufForcefetchW buf chunk else bufFetchW buf chunk) := by
    cases forced with
    | true => exact h.ibufFetchWbounceIn_some hc
    | false => exact h.bufFetchWIn_some hc
  obtain ⟨hspan,hptr,_,fastw,scr,he⟩ := h.taken (n:=n) (by omega : chunk≤buf.size) hn forced
  dsimp only
  rw [takeOut,hfetch,Option.bind_some]
  generalize (if forced=true then bufForcefetchW buf chunk else bufFetchW buf chunk)=f
    at hspan hptr he ⊢
  have hok : BounceOk f.2 := by
    rw [he]
    exact {h with}
  have hdid : f.2.did=buf.did := by rw [he]
  have hblk : n≤f.2.wblk := by
    rw [he]
    exact hn.trans hc
  rw [←hdid] at hspan
  rw [hptr,loadIn_some (hok.inside_writePtr hblk hspan),Option.bind_some,
    hok.bufCommitWIn_some hblk hspan]
  rfl

/-- A read leaves the same behind on either path. -/
theorem BounceOk.brings (h : BounceOk buf) (hc : chunk≤buf.rblk) (hn : bs.length≤chunk) :
    ∃ out,bringIn buf chunk bs=some out ∧ Brought buf bs out ∧
      out.ptr=store (ringCell buf.size buf.got) bs buf.ptr := by
  have hfit := h.rfit
  obtain ⟨fastr,scr,he⟩ := h.brought (by omega : chunk≤buf.size) hn
  refine ⟨_,h.bringIn_some hc hn,?_,?_⟩ <;> rw [he]
  · refine ⟨window_store _ (by omega),fun a ha => store_other fun i hi => (ha i hi).symm,?_,rfl,rfl⟩
    exact RingOk.commitRf_got {h with} _
  · rfl

/-- A write hands out and leaves behind the same on every path. -/
theorem BounceOk.takes (h : BounceOk buf) (hc : chunk≤buf.wblk) (hn : n≤chunk)
    (forced : Bool) : ∃ out,
      takeOut forced buf chunk n=some (window buf.size buf.did n buf.ptr,out) ∧
      Taken buf n (window buf.size buf.did n buf.ptr) out := by
  have hfit := h.wfit
  have hout := h.takeOut_some hc hn forced
  obtain ⟨_,hptr,hload,fastw,scr,he⟩ := h.taken (n:=n) (by omega : chunk≤buf.size) hn forced
  generalize (if forced=true then bufForcefetchW buf chunk else bufFetchW buf chunk)=f
    at hout hptr hload he
  refine ⟨_,hout.trans (by rw [hload]),rfl,?_,?_,?_,?_⟩
  · rw [bufCommitW_eq,he]
    rfl
  · rw [RingOk.commitWf_did]
    · rw [bufCommitW_eq,he]
    · rw [bufCommitW_eq,he]
      exact {h with}
  · rw [bufCommitW_eq,he]
    rfl
  · rw [bufCommitW_eq,←hptr,hload,he]
    rfl

/-- The bounce path and the circular path are the same buffer. A read ends with
the same ring, index, count and register on either, and a write hands out the
same bytes and ends with the same index, count and register, forced or not. No
access leaves its area. -/
theorem bounce_path_eq_circular_path (h : BounceOk buf) :
    (∀ chunk bs,chunk≤buf.rblk → bs.length≤chunk → ∃ flat cir,
      bringIn {buf with iscir := false} chunk bs=some flat ∧
      bringIn {buf with iscir := true} chunk bs=some cir ∧
      Brought buf bs flat ∧ Brought buf bs cir ∧ flat.ptr=cir.ptr ∧
      flat.got=cir.got ∧ flat.allin=cir.allin ∧ flat.rcrc=cir.rcrc) ∧
    (∀ chunk n forced forced',chunk≤buf.wblk → n≤chunk → ∃ bs flat cir,
      takeOut forced {buf with iscir := false} chunk n=some (bs,flat) ∧
      takeOut forced' {buf with iscir := true} chunk n=some (bs,cir) ∧
      Taken buf n bs flat ∧ Taken buf n bs cir ∧ flat.ptr=cir.ptr ∧
      flat.did=cir.did ∧ flat.allout=cir.allout ∧ flat.wcrc=cir.wcrc) := by
  have hflat : BounceOk {buf with iscir := false} := {h with}
  have hcir : BounceOk {buf with iscir := true} := {h with}
  constructor
  · intro chunk bs hc hn
    obtain ⟨flat,hf,hbf,hpf⟩ := hflat.brings hc hn
    obtain ⟨cir,hr,hbr,hpr⟩ := hcir.brings hc hn
    exact ⟨flat,cir,hf,hr,{hbf with},{hbr with},hpf.trans hpr.symm,hbf.got.trans hbr.got.symm,
      hbf.allin.trans hbr.allin.symm,hbf.rcrc.trans hbr.rcrc.symm⟩
  · intro chunk n forced forced' hc hn
    obtain ⟨flat,hf,htf⟩ := hflat.takes hc hn forced
    obtain ⟨cir,hr,htr⟩ := hcir.takes hc hn forced'
    exact ⟨_,flat,cir,hf,hr,{htf with},{htr with},htf.ring.trans htr.ring.symm,
      htf.did.trans htr.did.symm,htf.allout.trans htr.allout.symm,htf.wcrc.trans htr.wcrc.symm⟩

/-- A ring of eight cells whose next transfer wraps after two bytes. -/
def wrapBuf : BufS :=
  {bufPlace 8 3 3 8 16 ⟨fun i => BitVec.ofNat 8 i,false⟩ ⟨fun _ => 0,false⟩ with
    got := 6
    did := 6
    dorcrc := true
    dowcrc := true}

/-- Its geometry is accepted. -/
theorem wrapBuf_ok : BounceOk wrapBuf where
  pow := ⟨3,by decide,rfl⟩
  mask := by decide
  got_lt := by decide
  did_lt := by decide
  rfit := by decide
  wfit := by decide

/-- The two paths agree on three bytes around the end of that ring. -/
theorem bounce_path_eq_circular_path_wrap :
    (∃ flat cir,bringIn {wrapBuf with iscir := false} 3 [1,2,3]=some flat ∧
      bringIn {wrapBuf with iscir := true} 3 [1,2,3]=some cir ∧ flat.ptr=cir.ptr ∧
      flat.rcrc=cir.rcrc) ∧
    (∃ bs flat cir,takeOut true {wrapBuf with iscir := false} 3 3=some (bs,flat) ∧
      takeOut false {wrapBuf with iscir := true} 3 3=some (bs,cir) ∧ flat.wcrc=cir.wcrc) := by
  obtain ⟨hr,hw⟩ := bounce_path_eq_circular_path wrapBuf_ok
  obtain ⟨flat,cir,h1,h2,_,_,h3,_,_,h4⟩ := hr 3 [1,2,3] (by decide) (by decide)
  obtain ⟨bs,out,out',h5,h6,_,_,_,_,_,h7⟩ := hw 3 3 true false (by decide) (by decide)
  exact ⟨⟨flat,cir,h1,h2,h3,h4⟩,bs,out,out',h5,h6,h7⟩

end Yancat.Buffer
