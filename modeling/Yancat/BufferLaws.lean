import Yancat.Buffer

/-!
# Geometry and grants of the buffer

What the two constructors establish is one predicate on the buffer object,
kept by every operation. Over it the masked index difference is the fill, the
free space is its complement, and each decision function has one grant law
and one refusal law; no later argument unfolds them again.
-/

namespace Yancat.Buffer

open Crc RingWindow WordArithmetic

/-- Bytes published and not yet released: `(got - did) & mask`. -/
def fill (buf : BufS) : ℕ := wordSub buf.got buf.did &&& buf.mask

/-- Free space as `buf_can_r` computes it, with the ring size for equal
indices. -/
def space (buf : BufS) : ℕ :=
  let dist := wordSub buf.did buf.got &&& buf.mask
  if dist=0 then buf.size else dist

/-- The geometry that the constructors accept and every operation keeps. -/
structure BufOk (buf : BufS) : Prop where
  /-- The ring is a power of two that fits a word. -/
  pow : ∃ k≤63,buf.size=2^k
  /-- The mask selects the ring index. -/
  mask : buf.mask=buf.size-1
  /-- Read blocks are not empty. -/
  rblk_pos : 0<buf.rblk
  /-- Write blocks are not empty. -/
  wblk_pos : 0<buf.wblk
  /-- Two read blocks are smaller than the ring. -/
  rfit : 2*buf.rblk<buf.size
  /-- Two write blocks are smaller than the ring. -/
  wfit : 2*buf.wblk<buf.size
  /-- The read minimum is positive. -/
  rmin_pos : 0<buf.rmin
  /-- The read minimum is at most a block. -/
  rmin_le : buf.rmin≤buf.rblk
  /-- The write minimum is positive. -/
  wmin_pos : 0<buf.wmin
  /-- The write minimum is at most a block. -/
  wmin_le : buf.wmin≤buf.wblk
  /-- A read resume point leaves a write block below and a read block above. -/
  rspOk : buf.rsp≠0 → buf.wblk<buf.rsp ∧ buf.rsp+buf.rblk<buf.size ∧
    buf.rspInv+buf.rsp=buf.size
  /-- A write resume point leaves a write block below and a read block above. -/
  wspOk : buf.wsp≠0 → buf.wblk<buf.wsp ∧ buf.wsp+buf.rblk<buf.size
  /-- Reads stall only under a resume point. -/
  rstallOk : buf.rstall=true → buf.rsp≠0
  /-- Writes stall only under a resume point. -/
  wstallOk : buf.wstall=true → buf.wsp≠0
  /-- The read bounce chunk ends before the write bounce chunk. -/
  rchunkOk : buf.rchunk+buf.rblk≤buf.wchunk
  /-- The write bounce chunk ends inside its allocation. -/
  wchunkOk : buf.wchunk+buf.wblk≤buf.scrSiz
  /-- The read index is in the ring. -/
  got_lt : buf.got<buf.size
  /-- The write index is in the ring. -/
  did_lt : buf.did<buf.size

/-- The part of the geometry that addressing the ring rests on. -/
structure RingOk (buf : BufS) : Prop where
  /-- The ring is a power of two that fits a word. -/
  pow : ∃ k≤63,buf.size=2^k
  /-- The mask selects the ring index. -/
  mask : buf.mask=buf.size-1
  /-- The read index is in the ring. -/
  got_lt : buf.got<buf.size
  /-- The write index is in the ring. -/
  did_lt : buf.did<buf.size

/-- A buffer whose reader is in block mode. -/
def BlockReader (buf : BufS) : Prop := buf.rmin=buf.rblk

/-- A buffer whose writer is in block mode. -/
def BlockWriter (buf : BufS) : Prop := buf.wmin=buf.wblk

variable {buf : BufS}

/-- The ring and everything inside it fits half a word. -/
theorem RingOk.size_le (h : RingOk buf) : buf.size≤2^63 := by
  obtain ⟨k,hk,hs⟩ := h.pow
  rw [hs]
  exact Nat.pow_le_pow_right (by omega) hk

/-- Publishing moves the read index cyclically. -/
theorem RingOk.commitRf_got (h : RingOk buf) (n : ℕ) :
    (bufCommitRf buf n).got=(buf.got+n)%buf.size := by
  obtain ⟨k,hk,hs⟩ := h.pow
  rw [bufCommitRf,h.mask,hs]
  exact wordAdd_mask (by omega)

/-- Releasing moves the write index cyclically. -/
theorem RingOk.commitWf_did (h : RingOk buf) (n : ℕ) :
    (bufCommitWf buf n).did=(buf.did+n)%buf.size := by
  obtain ⟨k,hk,hs⟩ := h.pow
  rw [bufCommitWf,h.mask,hs]
  exact wordAdd_mask (by omega)

/-- The geometry includes the ring. -/
theorem BufOk.ring (h : BufOk buf) : RingOk buf := ⟨h.pow,h.mask,h.got_lt,h.did_lt⟩

/-- The ring is not empty. -/
theorem BufOk.size_pos (h : BufOk buf) : 0<buf.size := by
  have := h.rfit
  omega

/-- The ring and everything inside it fits half a word. -/
theorem BufOk.size_le (h : BufOk buf) : buf.size≤2^63 := h.ring.size_le

/-- The fill is the cyclic distance from the write to the read index. -/
theorem BufOk.fill_eq (h : BufOk buf) : fill buf=ringDist buf.size buf.got buf.did := by
  obtain ⟨k,hk,hs⟩ := h.pow
  have hd := h.did_lt
  rw [fill,h.mask,hs,wordSub_mask (by omega) buf.got (by omega)]

/-- The fill is below the ring size. -/
theorem BufOk.fill_lt (h : BufOk buf) : fill buf<buf.size := by
  rw [h.fill_eq]
  exact ringDist_lt h.size_pos _ _

/-- The free space that `buf_can_r` sees is the complement of the fill. -/
theorem BufOk.space_eq (h : BufOk buf) : space buf=buf.size-fill buf := by
  obtain ⟨k,hk,hs⟩ := h.pow
  have hg := h.got_lt
  have hf := h.fill_lt
  have hd : wordSub buf.did buf.got &&& buf.mask=ringDist buf.size buf.did buf.got := by
    rw [h.mask,hs,wordSub_mask (by omega) buf.did (by omega)]
  rw [h.fill_eq] at hf ⊢
  simp only [space,hd,ringDist_swap h.got_lt h.did_lt]
  split <;> split <;> omega

/-- The read index is the write index advanced by the fill. -/
theorem BufOk.got_eq (h : BufOk buf) : (buf.did+fill buf)%buf.size=buf.got := by
  rw [h.fill_eq]
  exact ringDist_front h.got_lt h.did_lt

/-- An empty buffer has equal indices. -/
theorem BufOk.fill_zero (h : BufOk buf) (hz : fill buf=0) : buf.got=buf.did := by
  rw [h.fill_eq] at hz
  exact ringDist_zero h.got_lt h.did_lt hz

/-- Equal indices look like an empty buffer. -/
theorem BufOk.fill_of_eq (h : BufOk buf) (he : buf.got=buf.did) : fill buf=0 := by
  rw [h.fill_eq,he,ringDist_self h.did_lt]

/-- Publishing moves the read index cyclically. -/
theorem BufOk.commitRf_got (h : BufOk buf) (n : ℕ) :
    (bufCommitRf buf n).got=(buf.got+n)%buf.size := h.ring.commitRf_got n

/-- Releasing moves the write index cyclically. -/
theorem BufOk.commitWf_did (h : BufOk buf) (n : ℕ) :
    (bufCommitWf buf n).did=(buf.did+n)%buf.size := h.ring.commitWf_did n

/-- Publishing keeps the geometry. -/
theorem BufOk.commitRf (h : BufOk buf) (n : ℕ) : BufOk (bufCommitRf buf n) :=
  {h with
    got_lt := (h.commitRf_got n).trans_lt (Nat.mod_lt _ h.size_pos)}

/-- Releasing keeps the geometry. -/
theorem BufOk.commitWf (h : BufOk buf) (n : ℕ) : BufOk (bufCommitWf buf n) :=
  {h with
    did_lt := (h.commitWf_did n).trans_lt (Nat.mod_lt _ h.size_pos)}

/-- Publishing an amount that fits adds it to the fill. -/
theorem BufOk.fill_commitRf (h : BufOk buf) {n : ℕ} (hn : fill buf+n<buf.size) :
    fill (bufCommitRf buf n)=fill buf+n := by
  have hg := h.commitRf_got n
  rw [(h.commitRf n).fill_eq,hg]
  rw [h.fill_eq] at hn ⊢
  exact ringDist_advance_front h.got_lt h.did_lt hn

/-- Releasing at most the fill subtracts it. -/
theorem BufOk.fill_commitWf (h : BufOk buf) {n : ℕ} (hn : n≤fill buf) :
    fill (bufCommitWf buf n)=fill buf-n := by
  have hd := h.commitWf_did n
  rw [(h.commitWf n).fill_eq,hd]
  rw [h.fill_eq] at hn ⊢
  exact ringDist_advance_back h.got_lt h.did_lt hn

/-- Everything a read decision can do. -/
inductive ReadDecision (buf : BufS) : Prop
  /-- Reads stay stalled. -/
  | held (hst : buf.rstall=true) (he : space buf<buf.rspInv) (hc : bufCanR buf=(0,buf))
  /-- Stalled reads resume with a whole block. -/
  | resume (hst : buf.rstall=true) (he : buf.rspInv ≤ space buf)
    (hc : bufCanR buf=(buf.rblk,{buf with rstall := false}))
  /-- A whole block is granted. -/
  | block (hst : buf.rstall=false) (hb : buf.rblk<space buf) (hc : bufCanR buf=(buf.rblk,buf))
  /-- All the free space is granted. -/
  | short (hst : buf.rstall=false) (hb : space buf ≤ buf.rblk) (hm : buf.rmin<space buf)
    (hc : bufCanR buf=(space buf,buf))
  /-- Reads stall until the resume point. -/
  | stall (hst : buf.rstall=false) (hb : space buf ≤ buf.rblk) (hm : space buf ≤ buf.rmin)
    (hr : buf.rsp≠0) (hc : bufCanR buf=(0,{buf with rstall := true}))
  /-- The read is refused, there being no resume point. -/
  | refuse (hst : buf.rstall=false) (hb : space buf ≤ buf.rblk) (hm : space buf ≤ buf.rmin)
    (hr : buf.rsp=0) (hc : bufCanR buf=(0,buf))

/-- The executable read decision does nothing else. -/
theorem bufCanR_cases (buf : BufS) : ReadDecision buf := by
  have hdef : bufCanR buf=if buf.rstall=true then
      if space buf<buf.rspInv then (0,buf) else (buf.rblk,{buf with rstall := false})
    else if buf.rblk<space buf then (buf.rblk,buf)
    else if buf.rmin<space buf then (space buf,buf)
    else if buf.rsp≠0 then (0,{buf with rstall := true}) else (0,buf) := rfl
  by_cases hst : buf.rstall=true
  · rw [if_pos hst] at hdef
    by_cases he : space buf<buf.rspInv
    · rw [if_pos he] at hdef
      exact .held hst he hdef
    · rw [if_neg he] at hdef
      exact .resume hst (Nat.not_lt.mp he) hdef
  · rw [if_neg hst] at hdef
    have hst' : buf.rstall=false := Bool.eq_false_of_not_eq_true hst
    by_cases hb : buf.rblk<space buf
    · rw [if_pos hb] at hdef
      exact .block hst' hb hdef
    · rw [if_neg hb] at hdef
      by_cases hm : buf.rmin<space buf
      · rw [if_pos hm] at hdef
        exact .short hst' (Nat.not_lt.mp hb) hm hdef
      · rw [if_neg hm] at hdef
        by_cases hr : buf.rsp=0
        · rw [if_neg (not_not_intro hr)] at hdef
          exact .refuse hst' (Nat.not_lt.mp hb) (Nat.not_lt.mp hm) hr hdef
        · rw [if_pos hr] at hdef
          exact .stall hst' (Nat.not_lt.mp hb) (Nat.not_lt.mp hm) hr hdef

/-- Everything a write decision can do. -/
inductive WriteDecision (buf : BufS) : Prop
  /-- Writes stay stalled. -/
  | held (hst : buf.wstall=true) (he : fill buf<buf.wsp) (hc : bufCanW buf=(0,buf))
  /-- Stalled writes resume with a whole block. -/
  | resume (hst : buf.wstall=true) (he : buf.wsp ≤ fill buf)
    (hc : bufCanW buf=(buf.wblk,{buf with wstall := false}))
  /-- A whole block is granted. -/
  | block (hst : buf.wstall=false) (hb : buf.wblk ≤ fill buf) (hc : bufCanW buf=(buf.wblk,buf))
  /-- All the data is granted. -/
  | short (hst : buf.wstall=false) (hb : fill buf<buf.wblk) (hm : buf.wmin ≤ fill buf)
    (hc : bufCanW buf=(fill buf,buf))
  /-- Writes stall until the resume point. -/
  | stall (hst : buf.wstall=false) (hb : fill buf<buf.wblk) (hm : fill buf<buf.wmin)
    (hr : buf.wsp≠0) (hc : bufCanW buf=(0,{buf with wstall := true}))
  /-- The write is refused, there being no resume point. -/
  | refuse (hst : buf.wstall=false) (hb : fill buf<buf.wblk) (hm : fill buf<buf.wmin)
    (hr : buf.wsp=0) (hc : bufCanW buf=(0,buf))

/-- The executable write decision does nothing else. -/
theorem bufCanW_cases (buf : BufS) : WriteDecision buf := by
  have hdef : bufCanW buf=if buf.wstall=true then
      if fill buf<buf.wsp then (0,buf) else (buf.wblk,{buf with wstall := false})
    else if buf.wblk≤fill buf then (buf.wblk,buf)
    else if buf.wmin≤fill buf then (fill buf,buf)
    else if buf.wsp≠0 then (0,{buf with wstall := true}) else (0,buf) := rfl
  by_cases hst : buf.wstall=true
  · rw [if_pos hst] at hdef
    by_cases he : fill buf<buf.wsp
    · rw [if_pos he] at hdef
      exact .held hst he hdef
    · rw [if_neg he] at hdef
      exact .resume hst (Nat.not_lt.mp he) hdef
  · rw [if_neg hst] at hdef
    have hst' : buf.wstall=false := Bool.eq_false_of_not_eq_true hst
    by_cases hb : buf.wblk≤fill buf
    · rw [if_pos hb] at hdef
      exact .block hst' hb hdef
    · rw [if_neg hb] at hdef
      by_cases hm : buf.wmin≤fill buf
      · rw [if_pos hm] at hdef
        exact .short hst' (Nat.not_le.mp hb) hm hdef
      · rw [if_neg hm] at hdef
        by_cases hr : buf.wsp=0
        · rw [if_neg (not_not_intro hr)] at hdef
          exact .refuse hst' (Nat.not_le.mp hb) (Nat.not_le.mp hm) hr hdef
        · rw [if_pos hr] at hdef
          exact .stall hst' (Nat.not_le.mp hb) (Nat.not_le.mp hm) hr hdef

/-- With more than a block of space an unstalled reader is granted a block. -/
theorem bufCanR_block (hs : buf.rstall=false) (hb : buf.rblk<space buf) :
    bufCanR buf=(buf.rblk,buf) := by
  cases bufCanR_cases buf with
  | held hst => exact absurd (hs.symm.trans hst) Bool.false_ne_true
  | resume hst => exact absurd (hs.symm.trans hst) Bool.false_ne_true
  | block _ _ hc => exact hc
  | short _ hle => omega
  | stall _ hle => omega
  | refuse _ hle => omega

/-- With a block of data an unstalled writer is granted a block. -/
theorem bufCanW_block (hs : buf.wstall=false) (hb : buf.wblk≤fill buf) :
    bufCanW buf=(buf.wblk,buf) := by
  cases bufCanW_cases buf with
  | held hst => exact absurd (hs.symm.trans hst) Bool.false_ne_true
  | resume hst => exact absurd (hs.symm.trans hst) Bool.false_ne_true
  | block _ _ hc => exact hc
  | short _ hlt => omega
  | stall _ hlt => omega
  | refuse _ hlt => omega

/-- Without a resume point a refusal changes nothing. -/
theorem bufCanW_short (hs : buf.wstall=false) (hp : buf.wsp=0) (hb : fill buf<buf.wblk)
    (hm : fill buf<buf.wmin) : bufCanW buf=(0,buf) := by
  cases bufCanW_cases buf with
  | held hst => exact absurd (hs.symm.trans hst) Bool.false_ne_true
  | resume hst => exact absurd (hs.symm.trans hst) Bool.false_ne_true
  | block _ hle => omega
  | short _ _ hle => omega
  | stall _ _ _ hr => exact absurd hp hr
  | refuse _ _ _ _ hc => exact hc

/-- A read decision keeps the buffer, clears the read stall flag, or raises it
over a buffer without the free space it needs. -/
theorem bufCanR_after (buf : BufS) :
    (bufCanR buf).2=buf ∨ (bufCanR buf).2={buf with rstall := false} ∨
      buf.rsp≠0 ∧ space buf ≤ buf.rmin ∧ (bufCanR buf).2={buf with rstall := true} := by
  cases bufCanR_cases buf with
  | held _ _ hc => exact .inl (congrArg Prod.snd hc)
  | resume _ _ hc => exact .inr (.inl (congrArg Prod.snd hc))
  | block _ _ hc => exact .inl (congrArg Prod.snd hc)
  | short _ _ _ hc => exact .inl (congrArg Prod.snd hc)
  | stall _ _ hm hr hc => exact .inr (.inr ⟨hr,hm,congrArg Prod.snd hc⟩)
  | refuse _ _ _ _ hc => exact .inl (congrArg Prod.snd hc)

/-- A write decision keeps the buffer, clears the write stall flag, or raises it
over a buffer without the data it needs. -/
theorem bufCanW_after (buf : BufS) :
    (bufCanW buf).2=buf ∨ (bufCanW buf).2={buf with wstall := false} ∨
      buf.wsp≠0 ∧ fill buf<buf.wblk ∧ (bufCanW buf).2={buf with wstall := true} := by
  cases bufCanW_cases buf with
  | held _ _ hc => exact .inl (congrArg Prod.snd hc)
  | resume _ _ hc => exact .inr (.inl (congrArg Prod.snd hc))
  | block _ _ hc => exact .inl (congrArg Prod.snd hc)
  | short _ _ _ hc => exact .inl (congrArg Prod.snd hc)
  | stall _ hb _ hr hc => exact .inr (.inr ⟨hr,hb,congrArg Prod.snd hc⟩)
  | refuse _ _ _ _ hc => exact .inl (congrArg Prod.snd hc)

/-- The read decision touches only the read stall flag. -/
theorem bufCanR_snd (buf : BufS) : ∃ st,(bufCanR buf).2={buf with rstall := st} := by
  rcases bufCanR_after buf with hc|hc|⟨_,_,hc⟩
  · exact ⟨buf.rstall,hc⟩
  · exact ⟨false,hc⟩
  · exact ⟨true,hc⟩

/-- The write decision touches only the write stall flag. -/
theorem bufCanW_snd (buf : BufS) : ∃ st,(bufCanW buf).2={buf with wstall := st} := by
  rcases bufCanW_after buf with hc|hc|⟨_,_,hc⟩
  · exact ⟨buf.wstall,hc⟩
  · exact ⟨false,hc⟩
  · exact ⟨true,hc⟩

/-- A grant that the reader may use: not empty, at most a block, and
strictly smaller than the free space. -/
def GrantR (buf : BufS) (siz : ℕ) : Prop := 0<siz ∧ siz≤buf.rblk ∧ fill buf+siz<buf.size

/-- A grant that the writer may use: not empty, at most a block, and at most
the fill. -/
def GrantW (buf : BufS) (siz : ℕ) : Prop := 0<siz ∧ siz≤buf.wblk ∧ siz≤fill buf

/-- The state in which a read decision refuses and would refuse again. -/
def RefusesR (buf : BufS) : Prop :=
  if buf.rsp=0 then space buf≤buf.rmin else buf.rstall=true ∧ space buf<buf.rspInv

/-- The state in which a write decision refuses and would refuse again. -/
def RefusesW (buf : BufS) : Prop :=
  if buf.wsp=0 then fill buf<buf.wmin else buf.wstall=true ∧ fill buf<buf.wsp

/-- The state in which a read decision grants all the free space there is. -/
def Filling (buf : BufS) : Prop := buf.rstall=false ∧ buf.rmin<space buf ∧ space buf≤buf.rblk

/-- In block mode no read decision grants all the free space. -/
theorem BlockReader.fits (h : BlockReader buf) : ¬Filling buf := by
  rintro ⟨_,hm,hb⟩
  unfold BlockReader at h
  omega

/-- In that state the grant is the free space. -/
theorem Filling.canR (h : Filling buf) : bufCanR buf=(space buf,buf) := by
  obtain ⟨hs,hm,hb⟩ := h
  cases bufCanR_cases buf with
  | held hst => exact absurd (hs.symm.trans hst) Bool.false_ne_true
  | resume hst => exact absurd (hs.symm.trans hst) Bool.false_ne_true
  | block _ hlt => omega
  | short _ _ _ hc => exact hc
  | stall _ _ hle => omega
  | refuse _ _ hle => omega

/-- In every other state a read grant is strictly smaller than the free
space. -/
theorem BufOk.grantR (h : BufOk buf) (hb : ¬Filling buf) (hz : (bufCanR buf).1≠0) :
    GrantR buf (bufCanR buf).1 := by
  have hs := h.space_eq
  have hf := h.fill_lt
  have hp := h.rblk_pos
  have hwhole : fill buf+buf.rblk<buf.size → GrantR buf buf.rblk := fun hlt => ⟨hp,le_refl _,hlt⟩
  cases bufCanR_cases buf with
  | held _ _ hc => exact absurd (congrArg Prod.fst hc) hz
  | resume hst he hc =>
    have hr := h.rspOk (h.rstallOk hst)
    rw [hc]
    exact hwhole (by omega)
  | block _ hlt hc =>
    rw [hc]
    exact hwhole (by omega)
  | short hst hle hm _ => exact absurd ⟨hst,hm,hle⟩ hb
  | stall _ _ _ _ hc => exact absurd (congrArg Prod.fst hc) hz
  | refuse _ _ _ _ hc => exact absurd (congrArg Prod.fst hc) hz

/-- Every write grant is at most the fill. -/
theorem BufOk.grantW (h : BufOk buf) (hz : (bufCanW buf).1≠0) : GrantW buf (bufCanW buf).1 := by
  have hp := h.wblk_pos
  have hm := h.wmin_pos
  have hwhole : buf.wblk≤fill buf → GrantW buf buf.wblk := fun hle => ⟨hp,le_refl _,hle⟩
  cases bufCanW_cases buf with
  | held _ _ hc => exact absurd (congrArg Prod.fst hc) hz
  | resume hst he hc =>
    have hr := h.wspOk (h.wstallOk hst)
    rw [hc]
    exact hwhole (by omega)
  | block _ hle hc =>
    rw [hc]
    exact hwhole hle
  | short _ hlt hle hc =>
    rw [hc]
    exact ⟨hm.trans_le hle,hlt.le,le_refl _⟩
  | stall _ _ _ _ hc => exact absurd (congrArg Prod.fst hc) hz
  | refuse _ _ _ _ hc => exact absurd (congrArg Prod.fst hc) hz

/-- A write grant is a whole block or everything there is. -/
theorem bufCanW_block_or_fill (hz : (bufCanW buf).1≠0) :
    (bufCanW buf).1=buf.wblk ∨ (bufCanW buf).1=fill buf := by
  cases bufCanW_cases buf with
  | held _ _ hc => exact absurd (congrArg Prod.fst hc) hz
  | resume _ _ hc => exact .inl (congrArg Prod.fst hc)
  | block _ _ hc => exact .inl (congrArg Prod.fst hc)
  | short _ _ _ hc => exact .inr (congrArg Prod.fst hc)
  | stall _ _ _ _ hc => exact absurd (congrArg Prod.fst hc) hz
  | refuse _ _ _ _ hc => exact absurd (congrArg Prod.fst hc) hz

/-- A block-mode writer is granted whole blocks only. -/
theorem BufOk.grantW_block (hb : BlockWriter buf) (hz : (bufCanW buf).1≠0) :
    (bufCanW buf).1=buf.wblk := by
  unfold BlockWriter at hb
  cases bufCanW_cases buf with
  | held _ _ hc => exact absurd (congrArg Prod.fst hc) hz
  | resume _ _ hc => exact congrArg Prod.fst hc
  | block _ _ hc => exact congrArg Prod.fst hc
  | short _ hlt hle _ => omega
  | stall _ _ _ _ hc => exact absurd (congrArg Prod.fst hc) hz
  | refuse _ _ _ _ hc => exact absurd (congrArg Prod.fst hc) hz

/-- The read decision keeps the geometry. -/
theorem BufOk.canR (h : BufOk buf) : BufOk (bufCanR buf).2 := by
  have hst : ∀ st,(st=true → buf.rsp≠0) → BufOk {buf with rstall := st} :=
    fun st hs => {h with rstallOk := hs}
  rcases bufCanR_after buf with hc|hc|⟨hr,_,hc⟩ <;> rw [hc]
  · exact h
  · exact hst false nofun
  · exact hst true fun _ => hr

/-- The write decision keeps the geometry. -/
theorem BufOk.canW (h : BufOk buf) : BufOk (bufCanW buf).2 := by
  have hst : ∀ st,(st=true → buf.wsp≠0) → BufOk {buf with wstall := st} :=
    fun st hs => {h with wstallOk := hs}
  rcases bufCanW_after buf with hc|hc|⟨hr,_,hc⟩ <;> rw [hc]
  · exact h
  · exact hst false nofun
  · exact hst true fun _ => hr

/-- A granted read leaves no stall behind. -/
theorem bufCanR_unstalled (hz : (bufCanR buf).1≠0) : (bufCanR buf).2.rstall=false := by
  cases bufCanR_cases buf with
  | held _ _ hc => exact absurd (congrArg Prod.fst hc) hz
  | resume _ _ hc => rw [hc]
  | block hst _ hc =>
    rw [hc]
    exact hst
  | short hst _ _ hc =>
    rw [hc]
    exact hst
  | stall _ _ _ _ hc => exact absurd (congrArg Prod.fst hc) hz
  | refuse _ _ _ _ hc => exact absurd (congrArg Prod.fst hc) hz

/-- A granted write leaves no stall behind. -/
theorem bufCanW_unstalled (hz : (bufCanW buf).1≠0) : (bufCanW buf).2.wstall=false := by
  cases bufCanW_cases buf with
  | held _ _ hc => exact absurd (congrArg Prod.fst hc) hz
  | resume _ _ hc => rw [hc]
  | block hst _ hc =>
    rw [hc]
    exact hst
  | short hst _ _ hc =>
    rw [hc]
    exact hst
  | stall _ _ _ _ hc => exact absurd (congrArg Prod.fst hc) hz
  | refuse _ _ _ _ hc => exact absurd (congrArg Prod.fst hc) hz

/-- A refused read leaves the buffer in a refusing state. -/
theorem BufOk.refusesR (h : BufOk buf) (hz : (bufCanR buf).1=0) : RefusesR (bufCanR buf).2 := by
  have hp := h.rblk_pos
  have hpos := h.rmin_pos
  have hle := h.rmin_le
  cases bufCanR_cases buf with
  | held hst he hc =>
    rw [hc]
    exact (if_neg (h.rstallOk hst)).mpr ⟨hst,he⟩
  | resume _ _ hc =>
    have hzero : buf.rblk=0 := (congrArg Prod.fst hc).symm.trans hz
    omega
  | block _ _ hc =>
    have hzero : buf.rblk=0 := (congrArg Prod.fst hc).symm.trans hz
    omega
  | short _ _ hm hc =>
    have hzero : space buf=0 := (congrArg Prod.fst hc).symm.trans hz
    omega
  | stall _ _ hm hr hc =>
    have hi := h.rspOk hr
    rw [hc]
    exact (if_neg hr).mpr ⟨rfl,by change space buf<buf.rspInv; omega⟩
  | refuse _ _ hm hr hc =>
    rw [hc]
    exact (if_pos hr).mpr hm

/-- A refused write leaves the buffer in a refusing state. -/
theorem BufOk.refusesW (h : BufOk buf) (hz : (bufCanW buf).1=0) : RefusesW (bufCanW buf).2 := by
  have hp := h.wblk_pos
  have hpos := h.wmin_pos
  have hle := h.wmin_le
  cases bufCanW_cases buf with
  | held hst he hc =>
    rw [hc]
    exact (if_neg (h.wstallOk hst)).mpr ⟨hst,he⟩
  | resume _ _ hc =>
    have hzero : buf.wblk=0 := (congrArg Prod.fst hc).symm.trans hz
    omega
  | block _ _ hc =>
    have hzero : buf.wblk=0 := (congrArg Prod.fst hc).symm.trans hz
    omega
  | short _ _ hm hc =>
    have hzero : fill buf=0 := (congrArg Prod.fst hc).symm.trans hz
    omega
  | stall _ _ hm hr hc =>
    have hi := h.wspOk hr
    rw [hc]
    exact (if_neg hr).mpr ⟨rfl,by change fill buf<buf.wsp; omega⟩
  | refuse _ _ hm hr hc =>
    rw [hc]
    exact (if_pos hr).mpr hm

/-- Switching to draining keeps the geometry. -/
theorem BufOk.setlinew (h : BufOk buf) : BufOk (bufSetlinew buf) :=
  {h with
    wmin_pos := Nat.one_pos
    wmin_le := h.wblk_pos
    wspOk := fun hz => absurd rfl hz
    wstallOk := nofun}

/-- The two stall flags are never up in between the resume points. -/
def Apart (buf : BufS) : Prop :=
  buf.rstall=true → buf.wstall=true → buf.wsp≤fill buf ∨ fill buf≤buf.rsp

/-- A read decision stalls only an almost full buffer. -/
theorem BufOk.canR_apart (h : BufOk buf) (ha : Apart buf) : Apart (bufCanR buf).2 := by
  have hs := h.space_eq
  have hf := h.fill_lt
  have hle := h.rmin_le
  rcases bufCanR_after buf with hc|hc|⟨_,hm,hc⟩ <;> rw [hc]
  · exact ha
  · exact nofun
  · intro _ hw
    have hi := h.wspOk (h.wstallOk hw)
    exact .inl (by change buf.wsp≤fill buf; omega)

/-- A write decision stalls only an almost empty buffer. -/
theorem BufOk.canW_apart (h : BufOk buf) (ha : Apart buf) : Apart (bufCanW buf).2 := by
  rcases bufCanW_after buf with hc|hc|⟨_,hb,hc⟩ <;> rw [hc]
  · exact ha
  · exact nofun
  · intro hr _
    have hi := h.rspOk (h.rstallOk hr)
    exact .inr (by change fill buf≤buf.rsp; omega)

/-- The two decisions never refuse together: the resume points leave a write
block below and a read block above, and the ring holds more than both. -/
theorem BufOk.not_both_refuse (h : BufOk buf) (ha : Apart buf) (hr : RefusesR buf)
    (hw : RefusesW buf) : False := by
  have hs := h.space_eq
  have hf := h.fill_lt
  have hrm := h.rmin_le
  have hwm := h.wmin_le
  have hrf := h.rfit
  have hwf := h.wfit
  unfold RefusesR at hr
  unfold RefusesW at hw
  -- only with both resume points set do the two bands matter; elsewhere the ring is too large
  by_cases h1 : buf.rsp=0 <;> by_cases h2 : buf.wsp=0
  · rw [if_pos h1] at hr
    rw [if_pos h2] at hw
    omega
  · have hi := h.wspOk h2
    rw [if_pos h1] at hr
    rw [if_neg h2] at hw
    omega
  · have hi := h.rspOk h1
    rw [if_neg h1] at hr
    rw [if_pos h2] at hw
    omega
  · have hi := h.rspOk h1
    rw [if_neg h1] at hr
    rw [if_neg h2] at hw
    rcases ha hr.1 hw.1 with hb|hb <;> omega

end Yancat.Buffer
