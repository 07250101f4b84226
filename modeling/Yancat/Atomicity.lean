import Yancat.Statements

/-!
# The parts of the mutex sections are atomic

What the mutex guards, the stall flags, the announcements and the stored
grants, is written by no statement outside the sections and read there only by
a task that picks up its grant, at a time when nobody stores one. A statement
of an open section, either part of what lies between `Pm` and `Vm`, therefore
commutes with everything that can happen beside it.
-/

namespace Yancat.TwoTask

open Buffer Setup Shared Transition FailureFlags WordArithmetic Crc
open Handover (Event)

/-- What the mutex guards. -/
structure Gate where
  /-- Reads wait for the resume point. -/
  rstall : Bool
  /-- Writes wait for the resume point. -/
  wstall : Bool
  /-- The reader waits for space. -/
  mwait : Bool
  /-- The writer waits for data. -/
  swait : Bool
  /-- Read grant handed over by the writer. -/
  xrsiz : ℕ
  /-- Write grant handed over by the reader. -/
  xwsiz : ℕ
  /-- Holder of the mutex. -/
  vars : Option Role

/-- What the mutex guards, in a state. -/
def Sys.gate (s : Sys) : Gate where
  rstall := s.shm.buf.rstall
  wstall := s.shm.buf.wstall
  mwait := s.shm.mwait
  swait := s.shm.swait
  xrsiz := s.shm.xrsiz
  xwsiz := s.shm.xwsiz
  vars := s.shm.vars

/-- A buffer with other stall flags. -/
def stalls (buf : BufS) (r w : Bool) : BufS := {buf with rstall := r,wstall := w}

/-- A state with other guarded values, and with more waits and grants. -/
def Sys.put (s : Sys) (d : Gate) (er ew : List (Event ℕ)) : Sys :=
  {s with
    shm := {s.shm with
      buf := stalls s.shm.buf d.rstall d.wstall
      mwait := d.mwait
      swait := d.swait
      xrsiz := d.xrsiz
      xwsiz := d.xwsiz
      vars := d.vars}
    handR := s.handR++er
    handW := s.handW++ew}

section Stalls

variable (buf : BufS) (r w : Bool)

/-- Loads do not read the stall flags. -/
theorem loadAt_stalls (p : Ptr) (n : ℕ) : loadAt (stalls buf r w) p n=loadAt buf p n := rfl

/-- Stores neither read nor write the stall flags. -/
theorem storeAt_stalls (p : Ptr) (bs : List Byte) :
    storeAt (stalls buf r w) p bs=stalls (storeAt buf p bs) r w := by
  unfold storeAt
  cases p.area <;> rfl

/-- Copies neither read nor write the stall flags. -/
theorem copies_stalls (dst1 src1 dst2 src2 : Ptr) (siz1 siz2 : ℕ) :
    (if siz2≠0 then memcpy (memcpy (stalls buf r w) dst1 src1 siz1) dst2 src2 siz2
      else memcpy (stalls buf r w) dst1 src1 siz1)=
    stalls (if siz2≠0 then memcpy (memcpy buf dst1 src1 siz1) dst2 src2 siz2
      else memcpy buf dst1 src1 siz1) r w := by
  unfold memcpy
  rw [loadAt_stalls,storeAt_stalls]
  split_ifs
  · rw [loadAt_stalls,storeAt_stalls]
  · rfl

/-- A fetch of the reading task neither reads nor writes the stall flags. -/
theorem bufFetchR_stalls (n : ℕ) :
    bufFetchR (stalls buf r w) n=((bufFetchR buf n).1,stalls (bufFetchR buf n).2 r w) := by
  by_cases h : buf.iscir=true ∨ wordAdd buf.got n≤buf.size
  · have he : bufFetchR buf n=_ := if_pos h
    rw [he]
    exact if_pos h
  · have he : bufFetchR buf n=_ := if_neg h
    rw [he]
    exact if_neg h

/-- A bounced fetch neither reads nor writes the stall flags. -/
theorem ibufFetchWbounce_stalls (n : ℕ) :
    ibufFetchWbounce (stalls buf r w) n=
      ((ibufFetchWbounce buf n).1,stalls (ibufFetchWbounce buf n).2 r w) :=
  congrArg (fun b : BufS => (scrPtr buf.wchunk,{b with fastw := false}))
    (copies_stalls buf r w _ _ _ _ _ _)

/-- A fetch of the writing task neither reads nor writes the stall flags. -/
theorem bufFetchW_stalls (n : ℕ) :
    bufFetchW (stalls buf r w) n=((bufFetchW buf n).1,stalls (bufFetchW buf n).2 r w) := by
  by_cases h : buf.iscir=true ∨ wordAdd buf.did n≤buf.size
  · have he : bufFetchW buf n=_ := if_pos h
    rw [he]
    exact if_pos h
  · have he : bufFetchW buf n=_ := if_neg h
    rw [he,←ibufFetchWbounce_stalls]
    exact if_neg h

/-- Counting a write neither reads nor writes the stall flags. -/
theorem bufCommitW_stalls (n : ℕ) :
    bufCommitW (stalls buf r w) n=stalls (bufCommitW buf n) r w := by
  rw [bufCommitW_eq,bufCommitW_eq]
  rfl

/-- A bounced commit neither reads nor writes the stall flags. -/
theorem ibufCommitRbounce_stalls (n : ℕ) :
    ibufCommitRbounce (stalls buf r w) n=stalls (ibufCommitRbounce buf n) r w := by
  have hsum : ∀ b : BufS,(if (stalls b r w).dorcrc=true then
      {stalls b r w with rcrc := crcCalc b.rcrc (loadAt b (scrPtr b.rchunk) n)}
      else stalls b r w)=
      stalls (if b.dorcrc=true then {b with rcrc := crcCalc b.rcrc (loadAt b (scrPtr b.rchunk) n)}
        else b) r w := by
    intro b
    by_cases h : b.dorcrc=true
    · rw [if_pos h]
      exact if_pos h
    · rw [if_neg h]
      exact if_neg h
  unfold ibufCommitRbounce
  dsimp only
  rw [←hsum]
  exact congrArg (fun b : BufS => if b.dorcrc=true then
    {b with rcrc := crcCalc b.rcrc (loadAt b (scrPtr b.rchunk) n)} else b)
    (copies_stalls buf r w _ _ _ _ _ _)

/-- Counting a read neither reads nor writes the stall flags. -/
theorem bufCommitR_stalls (n : ℕ) :
    bufCommitR (stalls buf r w) n=stalls (bufCommitR buf n) r w := by
  have hb := ibufCommitRbounce_stalls {buf with allin := buf.allin+BitVec.ofNat 64 n} r w n
  unfold bufCommitR
  dsimp only
  rw [loadAt_stalls]
  by_cases hf : buf.fastr=true
  · rw [if_pos hf]
    by_cases hd : buf.dorcrc=true
    · rw [if_pos hd]
      exact (if_pos hf).trans (if_pos hd)
    · rw [if_neg hd]
      exact (if_pos hf).trans (if_neg hd)
  · rw [if_neg hf]
    exact (if_neg hf).trans hb

end Stalls

variable {opts : OptionsS} {s t : Sys} {io : Io} {a : Act} {k k' : Sec}

/-- The executable writer does all of it, the epilogue apart. -/
theorem WStep.exec (h : WStep opts s io t) (he : ∀ p,s.wpc≠.epi p) :
    writerStep opts s io=some t := by
  cases h with
  | releasing hpc hr => simp only [writerStep,hpc,hr]
  | released hpc hr => simp only [writerStep,hpc,hr]
  | retry hpc he => simp only [writerStep,hpc,if_pos he]
  | fail hpc he => simp only [writerStep,hpc,if_neg he]
  | epi hpc _ => exact absurd hpc (he _)
  | epiFail hpc _ => exact absurd hpc (he _)
  | epiEnd hpc _ => exact absurd hpc (he _)
  | _ => simp [writerStep, *]

/-- `release` neither reads nor writes what the mutex guards. -/
theorem release_put (slot : ℕ) (s : Sys) (d : Gate) (er ew : List (Event ℕ)) (p : RelPc)
    {g : ShrS} {q : Option RelPc} (h : release slot s.shm p=(g,q)) :
    release slot (s.put d er ew).shm p=(({s with shm := g} : Sys).put d er ew |>.shm,q) := by
  cases p with
  | mark p => cases p <;> cases h <;> rfl
  | nodata =>
    cases h
    rfl
  | nospace =>
    cases h
    rfl

/-- What the writing task does outside its sections and its epilogue it may as
well do with other guarded values, the stored grant apart while it is picked
up. -/
theorem WStep.put (h : WStep opts s io t) (hv : s.shm.vars≠none) (hh : s.wpc.holds=false)
    (he : ∀ p,s.wpc≠.epi p) (d : Gate) (rpc : RPc) (er ew : List (Event ℕ))
    (hu : s.wpc=.take → d.xwsiz=s.shm.xwsiz ∧ ew=[]) :
    WStep opts {s.put d er ew with rpc := rpc} io {t.put d er ew with rpc := rpc} := by
  cases h with
  | opened hpc => exact .opened hpc
  | unopened hpc => exact .unopened hpc
  | releasing hpc hr => exact .releasing hpc (release_put _ s d er ew _ hr)
  | released hpc hr => exact .released hpc (release_put _ s d er ew _ hr)
  | lock _ hf => exact absurd hf hv
  | stop hpc _ => rw [hpc] at hh; cases hh
  | refuse hpc _ _ => rw [hpc] at hh; cases hh
  | grant hpc _ _ => rw [hpc] at hh; cases hh
  | wake hpc hn => exact .wake hpc hn
  | quit hpc hd => exact .quit hpc hd
  | resume hpc hd => exact .resume hpc hd
  | take hpc =>
    obtain ⟨hx,rfl⟩ := hu hpc
    have hs : WStep opts {s.put d er [] with rpc := rpc} .tau _ := .take hpc
    rw [show ({s.put d er [] with rpc := rpc} : Sys).shm.xwsiz=s.shm.xwsiz from hx] at hs
    simpa only [Sys.put,List.append_nil] using hs
  | @fetch siz hpc =>
    have hs : WStep opts {s.put d er ew with rpc := rpc} .tau _ := .fetch hpc
    rw [show ({s.put d er ew with rpc := rpc} : Sys).shm.buf=stalls s.shm.buf d.rstall d.wstall
      from rfl,bufFetchW_stalls] at hs
    exact hs
  | wrote hpc hn => exact .wrote hpc hn
  | retry hpc hr => exact .retry hpc hr
  | fail hpc hr => exact .fail hpc hr
  | @commit n hpc =>
    have hs : WStep opts {s.put d er ew with rpc := rpc} .tau _ := .commit hpc
    rw [show ({s.put d er ew with rpc := rpc} : Sys).shm.buf=stalls s.shm.buf d.rstall d.wstall
      from rfl,bufCommitW_stalls] at hs
    exact hs
  | relock _ hf => exact absurd hf hv
  | publish hpc _ => rw [hpc] at hh; cases hh
  | publishNone hpc _ _ => rw [hpc] at hh; cases hh
  | publishGrant hpc _ _ => rw [hpc] at hh; cases hh
  | post hpc => rw [hpc] at hh; cases hh
  | outLog hpc => exact .outLog hpc
  | outAbrt hpc => exact .outAbrt hpc
  | outDone hpc => exact .outDone hpc
  | outPost hpc => exact .outPost hpc
  | skip hpc ha => exact .skip hpc ha
  | enter hpc ha => exact .enter hpc ha
  | epi hpc _ => exact absurd hpc (he _)
  | epiFail hpc _ => exact absurd hpc (he _)
  | epiEnd hpc _ => exact absurd hpc (he _)
  | errLog hpc => exact .errLog hpc

/-- The executable reader does all of it. -/
theorem RStep.exec (h : RStep s io t) : readerStep s io=some t := by
  cases h with
  | releasing hpc hr => simp only [readerStep,hpc,hr]
  | released hpc hr => simp only [readerStep,hpc,hr]
  | refuse hpc hd hz => simp [readerStep,hpc,hd,hz]
  | grant hpc hd hz => simp [readerStep,hpc,hd,hz]
  | data hpc hpos hle => simp only [readerStep,hpc,if_pos (And.intro hpos hle)]
  | retry hpc he => simp only [readerStep,hpc,if_pos he]
  | fail hpc he => simp only [readerStep,hpc,if_neg he]
  | publishNone hpc hw hz => simp [readerStep,hpc,hw,hz]
  | publishGrant hpc hw hz => simp [readerStep,hpc,hw,hz]
  | _ => simp [readerStep, *]

/-- What the reading task does outside its sections it may as well do with
other guarded values, the stored grant apart while it is picked up. -/
theorem RStep.put (h : RStep s io t) (hv : s.shm.vars≠none) (hh : s.rpc.holds=false)
    (d : Gate) (wpc : WPc) (er ew : List (Event ℕ))
    (hu : s.rpc=.take → d.xrsiz=s.shm.xrsiz ∧ er=[]) :
    RStep {s.put d er ew with wpc := wpc} io {t.put d er ew with wpc := wpc} := by
  have hbuf : ({s.put d er ew with wpc := wpc} : Sys).shm.buf=
      stalls s.shm.buf d.rstall d.wstall := rfl
  cases h with
  | opened hpc => exact .opened hpc
  | unopened hpc => exact .unopened hpc
  | releasing hpc hr => exact .releasing hpc (release_put _ s d er ew _ hr)
  | released hpc hr => exact .released hpc (release_put _ s d er ew _ hr)
  | lock _ hf => exact absurd hf hv
  | stop hpc _ => rw [hpc] at hh; cases hh
  | refuse hpc _ _ => rw [hpc] at hh; cases hh
  | grant hpc _ _ => rw [hpc] at hh; cases hh
  | wake hpc hn => exact .wake hpc hn
  | quit hpc hd => exact .quit hpc hd
  | resume hpc hd => exact .resume hpc hd
  | take hpc =>
    obtain ⟨hx,rfl⟩ := hu hpc
    have hs : RStep {s.put d [] ew with wpc := wpc} .tau _ := .take hpc
    rw [show ({s.put d [] ew with wpc := wpc} : Sys).shm.xrsiz=s.shm.xrsiz from hx] at hs
    simpa only [Sys.put,List.append_nil] using hs
  | fetch hpc =>
    have hs : RStep {s.put d er ew with wpc := wpc} .tau _ := .fetch hpc
    rw [hbuf,bufFetchR_stalls] at hs
    exact hs
  | @stored p siz i b hpc hi =>
    have hs : RStep {s.put d er ew with wpc := wpc} (.stored i b) _ := .stored hpc hi
    rw [hbuf,storeAt_stalls] at hs
    exact hs
  | @data p siz bs hpc hpos hle =>
    have hs : RStep {s.put d er ew with wpc := wpc} (.data bs) _ := .data hpc hpos hle
    rw [hbuf,storeAt_stalls] at hs
    exact hs
  | eof hpc => exact .eof hpc
  | retry hpc hr => exact .retry hpc hr
  | fail hpc hr => exact .fail hpc hr
  | commit hpc =>
    have hs : RStep {s.put d er ew with wpc := wpc} .tau _ := .commit hpc
    rw [hbuf,bufCommitR_stalls] at hs
    exact hs
  | relock _ hf => exact absurd hf hv
  | publish hpc _ => rw [hpc] at hh; cases hh
  | publishNone hpc _ _ => rw [hpc] at hh; cases hh
  | publishGrant hpc _ _ => rw [hpc] at hh; cases hh
  | post hpc => rw [hpc] at hh; cases hh
  | outLog hpc => exact .outLog hpc
  | outAbrt hpc => exact .outAbrt hpc
  | outDone hpc => exact .outDone hpc
  | outPost hpc => exact .outPost hpc

/-- A step leaves alone what the mutex guards and what a decision reads. -/
def Aside (s t : Sys) : Prop := Moved s.shm.buf t.shm.buf ∧ t.gate=s.gate

/-- Outside its sections the writing task leaves alone what the mutex guards. -/
theorem WStep.leaves (h : WStep opts s io t) (hv : s.shm.vars≠none) (hh : s.wpc.holds=false)
    (he : ∀ p,s.wpc≠.epi p) : Aside s t := by
  cases h with
  | releasing hpc hr =>
    obtain ⟨_,_,_,_,_,rfl⟩ := release_frame hr
    exact ⟨.refl _,rfl⟩
  | released hpc hr =>
    obtain ⟨_,_,_,_,_,rfl⟩ := release_frame hr
    exact ⟨.refl _,rfl⟩
  | lock _ hf => exact absurd hf hv
  | relock _ hf => exact absurd hf hv
  | stop hpc _ => rw [hpc] at hh; cases hh
  | refuse hpc _ _ => rw [hpc] at hh; cases hh
  | grant hpc _ _ => rw [hpc] at hh; cases hh
  | publish hpc _ => rw [hpc] at hh; cases hh
  | publishNone hpc _ _ => rw [hpc] at hh; cases hh
  | publishGrant hpc _ _ => rw [hpc] at hh; cases hh
  | post hpc => rw [hpc] at hh; cases hh
  | epi hpc _ => exact absurd hpc (he _)
  | epiFail hpc _ => exact absurd hpc (he _)
  | epiEnd hpc _ => exact absurd hpc (he _)
  | @fetch siz hpc =>
    have hm := bufFetchW_moved s.shm.buf siz
    obtain ⟨_,_,_,_,_,_,_,_,hb⟩ := id hm
    refine ⟨hm,?_⟩
    unfold Sys.gate
    dsimp only
    rw [hb]
  | @commit n hpc =>
    have hm := bufCommitW_moved s.shm.buf n
    obtain ⟨_,_,_,_,_,_,_,_,hb⟩ := id hm
    refine ⟨hm,?_⟩
    unfold Sys.gate
    dsimp only
    rw [hb]
  | _ => exact ⟨.refl _,rfl⟩

/-- Outside its sections the reading task leaves alone what the mutex guards. -/
theorem RStep.leaves (h : RStep s io t) (hv : s.shm.vars≠none) (hh : s.rpc.holds=false) :
    Aside s t := by
  have hbuf : ∀ {u : Sys},Moved s.shm.buf u.shm.buf → u.shm.mwait=s.shm.mwait →
      u.shm.swait=s.shm.swait → u.shm.xrsiz=s.shm.xrsiz → u.shm.xwsiz=s.shm.xwsiz →
      u.shm.vars=s.shm.vars → Aside s u := by
    intro u hm h1 h2 h3 h4 h5
    obtain ⟨_,_,_,_,_,_,_,_,hb⟩ := id hm
    refine ⟨hm,?_⟩
    unfold Sys.gate
    rw [hb,h1,h2,h3,h4,h5]
  cases h with
  | releasing hpc hr =>
    obtain ⟨_,_,_,_,_,rfl⟩ := release_frame hr
    exact ⟨.refl _,rfl⟩
  | released hpc hr =>
    obtain ⟨_,_,_,_,_,rfl⟩ := release_frame hr
    exact ⟨.refl _,rfl⟩
  | lock _ hf => exact absurd hf hv
  | relock _ hf => exact absurd hf hv
  | stop hpc _ => rw [hpc] at hh; cases hh
  | refuse hpc _ _ => rw [hpc] at hh; cases hh
  | grant hpc _ _ => rw [hpc] at hh; cases hh
  | publish hpc _ => rw [hpc] at hh; cases hh
  | publishNone hpc _ _ => rw [hpc] at hh; cases hh
  | publishGrant hpc _ _ => rw [hpc] at hh; cases hh
  | post hpc => rw [hpc] at hh; cases hh
  | fetch hpc => exact hbuf (bufFetchR_moved _ _) rfl rfl rfl rfl rfl
  | stored hpc _ => exact hbuf (storeAt_moved _ _ _) rfl rfl rfl rfl rfl
  | data hpc _ _ => exact hbuf (storeAt_moved _ _ _) rfl rfl rfl rfl rfl
  | commit hpc => exact hbuf (bufCommitR_moved _ _) rfl rfl rfl rfl rfl
  | _ => exact ⟨.refl _,rfl⟩

/-- A statement of `buf_can_r` reads what no step beside it moves, and writes
the stall flag only. -/
theorem canRStmt_moved (buf : BufS) (p : CanPc) :
    ∃ st o,∀ buf',Moved buf buf' → canRStmt buf' p=({buf' with rstall := st},o) := by
  cases p with
  | dist =>
    refine ⟨buf.rstall,(canRStmt buf .dist).2,fun buf' hm => ?_⟩
    obtain ⟨_,_,_,_,_,_,_,_,rfl⟩ := hm
    rfl
  | test emp =>
    refine ⟨buf.rstall,(canRStmt buf (.test emp)).2,fun buf' hm => ?_⟩
    obtain ⟨_,_,_,_,_,_,_,_,rfl⟩ := hm
    unfold canRStmt
    dsimp only
    split_ifs <;> rfl
  | lower =>
    refine ⟨false,.inr buf.rblk,fun buf' hm => ?_⟩
    obtain ⟨_,_,_,_,_,_,_,_,rfl⟩ := hm
    rfl
  | raise => exact ⟨true,.inr 0,fun _ _ => rfl⟩

/-- A statement of `buf_can_w` reads what no step beside it moves, and writes
the stall flag only. -/
theorem canWStmt_moved (buf : BufS) (p : CanPc) :
    ∃ st o,∀ buf',Moved buf buf' → canWStmt buf' p=({buf' with wstall := st},o) := by
  cases p with
  | dist =>
    refine ⟨buf.wstall,(canWStmt buf .dist).2,fun buf' hm => ?_⟩
    obtain ⟨_,_,_,_,_,_,_,_,rfl⟩ := hm
    rfl
  | test hav =>
    refine ⟨buf.wstall,(canWStmt buf (.test hav)).2,fun buf' hm => ?_⟩
    obtain ⟨_,_,_,_,_,_,_,_,rfl⟩ := hm
    unfold canWStmt
    dsimp only
    split_ifs <;> rfl
  | lower =>
    refine ⟨false,.inr buf.wblk,fun buf' hm => ?_⟩
    obtain ⟨_,_,_,_,_,_,_,_,rfl⟩ := hm
    rfl
  | raise => exact ⟨true,.inr 0,fun _ _ => rfl⟩

/-- A statement of a section of the reading task, seen from outside: what it
puts, where it goes, and what is left, are the same in every state that differs
by steps beside it. -/
theorem readerStmt_put (s : Sys) (k : Sec) :
    ∃ d rpc er ew o,
      (∀ t,Aside s t → t.rpc=s.rpc →
        readerStmt t k=({t.put d er ew with rpc := rpc},o)) ∧
      ((∃ siz,k=.store siz) ∨ d.xwsiz=s.shm.xwsiz ∧ ew=[]) := by
  cases k with
  | leave =>
    refine ⟨{s.gate with vars := none},.outDone,[],[],none,fun t h hp => ?_,.inr ⟨rfl,rfl⟩⟩
    rw [←h.2]
    simp only [readerStmt,Sys.put,List.append_nil]
    rfl
  | can p =>
    obtain ⟨st,o,hc⟩ := canRStmt_moved s.shm.buf p
    refine ⟨{s.gate with rstall := st},s.rpc,[],[],
      match o with
      | .inl q => some (.can q)
      | .inr siz => some (if siz=0 then .flag else .unlock (some siz)),
      fun t h hp => ?_,.inr ⟨rfl,rfl⟩⟩
    rw [←h.2,←hp]
    simp only [readerStmt,Sys.put,List.append_nil,hc _ h.1]
    cases o <;> rfl
  | flag =>
    refine ⟨{s.gate with mwait := true},s.rpc,[.wait],[],some (.unlock none),fun t h hp => ?_,
      .inr ⟨rfl,rfl⟩⟩
    rw [←h.2,←hp]
    simp only [readerStmt,Sys.put,List.append_nil]
    rfl
  | unlock siz =>
    cases siz with
    | none =>
      refine ⟨{s.gate with vars := none},.wait,[],[],none,fun t h hp => ?_,.inr ⟨rfl,rfl⟩⟩
      rw [←h.2]
      simp only [readerStmt,Sys.put,List.append_nil]
      rfl
    | some siz =>
      refine ⟨{s.gate with vars := none},.fetch siz,[],[],none,fun t h hp => ?_,.inr ⟨rfl,rfl⟩⟩
      rw [←h.2]
      simp only [readerStmt,Sys.put,List.append_nil]
      rfl
  | test =>
    by_cases hw : s.shm.swait=true
    · refine ⟨s.gate,s.rpc,[],[],some (.offer .dist),fun t h hp => ?_,.inr ⟨rfl,rfl⟩⟩
      have hw' : t.shm.swait=true := (congrArg Gate.swait h.2).trans hw
      rw [←h.2,←hp]
      simp only [readerStmt,Sys.put,List.append_nil,if_pos hw']
      rfl
    · refine ⟨s.gate,.top,[],[],none,fun t h hp => ?_,.inr ⟨rfl,rfl⟩⟩
      have hw' : ¬t.shm.swait=true := fun ht => hw ((congrArg Gate.swait h.2).symm.trans ht)
      rw [←h.2]
      simp only [readerStmt,Sys.put,List.append_nil,if_neg hw']
      rfl
  | offer p =>
    obtain ⟨st,o,hc⟩ := canWStmt_moved s.shm.buf p
    cases o with
    | inl q =>
      refine ⟨{s.gate with wstall := st},s.rpc,[],[],some (.offer q),fun t h hp => ?_,
        .inr ⟨rfl,rfl⟩⟩
      rw [←h.2,←hp]
      simp only [readerStmt,Sys.put,List.append_nil,hc _ h.1]
      rfl
    | inr siz =>
      by_cases hz : siz=0
      · refine ⟨{s.gate with wstall := st},.top,[],[],none,fun t h hp => ?_,.inr ⟨rfl,rfl⟩⟩
        rw [←h.2]
        simp only [readerStmt,Sys.put,List.append_nil,hc _ h.1,if_pos hz]
        rfl
      · refine ⟨{s.gate with wstall := st},s.rpc,[],[],some (.clear siz),fun t h hp => ?_,
          .inr ⟨rfl,rfl⟩⟩
        rw [←h.2,←hp]
        simp only [readerStmt,Sys.put,List.append_nil,hc _ h.1,if_neg hz]
        rfl
  | clear siz =>
    refine ⟨{s.gate with swait := false},s.rpc,[],[],some (.store siz),fun t h hp => ?_,
      .inr ⟨rfl,rfl⟩⟩
    rw [←h.2,←hp]
    simp only [readerStmt,Sys.put,List.append_nil]
    rfl
  | store siz =>
    refine ⟨{s.gate with xwsiz := siz},.post,[],[.grant siz],none,fun t h hp => ?_,
      .inl ⟨siz,rfl⟩⟩
    rw [←h.2]
    simp only [readerStmt,Sys.put,List.append_nil]
    rfl

/-- A statement of a section of the writing task, seen from outside: what it
puts, where it goes, and what is left, are the same in every state that differs
by steps beside it. -/
theorem writerStmt_put (s : Sys) (k : Sec) :
    ∃ d wpc er ew o,
      (∀ t,Aside s t → t.wpc=s.wpc →
        writerStmt t k=({t.put d er ew with wpc := wpc},o)) ∧
      ((∃ siz,k=.store siz) ∨ d.xrsiz=s.shm.xrsiz ∧ er=[]) := by
  cases k with
  | leave =>
    refine ⟨{s.gate with vars := none},.outPost,[],[],none,fun t h hp => ?_,.inr ⟨rfl,rfl⟩⟩
    rw [←h.2]
    simp only [writerStmt,Sys.put,List.append_nil]
    rfl
  | can p =>
    obtain ⟨st,o,hc⟩ := canWStmt_moved s.shm.buf p
    refine ⟨{s.gate with wstall := st},s.wpc,[],[],
      match o with
      | .inl q => some (.can q)
      | .inr siz => some (if siz=0 then .flag else .unlock (some siz)),
      fun t h hp => ?_,.inr ⟨rfl,rfl⟩⟩
    rw [←h.2,←hp]
    simp only [writerStmt,Sys.put,List.append_nil,hc _ h.1]
    cases o <;> rfl
  | flag =>
    refine ⟨{s.gate with swait := true},s.wpc,[],[.wait],some (.unlock none),fun t h hp => ?_,
      .inr ⟨rfl,rfl⟩⟩
    rw [←h.2,←hp]
    simp only [writerStmt,Sys.put,List.append_nil]
    rfl
  | unlock siz =>
    cases siz with
    | none =>
      refine ⟨{s.gate with vars := none},.wait,[],[],none,fun t h hp => ?_,.inr ⟨rfl,rfl⟩⟩
      rw [←h.2]
      simp only [writerStmt,Sys.put,List.append_nil]
      rfl
    | some siz =>
      refine ⟨{s.gate with vars := none},.fetch siz,[],[],none,fun t h hp => ?_,.inr ⟨rfl,rfl⟩⟩
      rw [←h.2]
      simp only [writerStmt,Sys.put,List.append_nil]
      rfl
  | test =>
    by_cases hw : s.shm.mwait=true
    · refine ⟨s.gate,s.wpc,[],[],some (.offer .dist),fun t h hp => ?_,.inr ⟨rfl,rfl⟩⟩
      have hw' : t.shm.mwait=true := (congrArg Gate.mwait h.2).trans hw
      rw [←h.2,←hp]
      simp only [writerStmt,Sys.put,List.append_nil,if_pos hw']
      rfl
    · refine ⟨s.gate,.top,[],[],none,fun t h hp => ?_,.inr ⟨rfl,rfl⟩⟩
      have hw' : ¬t.shm.mwait=true := fun ht => hw ((congrArg Gate.mwait h.2).symm.trans ht)
      rw [←h.2]
      simp only [writerStmt,Sys.put,List.append_nil,if_neg hw']
      rfl
  | offer p =>
    obtain ⟨st,o,hc⟩ := canRStmt_moved s.shm.buf p
    cases o with
    | inl q =>
      refine ⟨{s.gate with rstall := st},s.wpc,[],[],some (.offer q),fun t h hp => ?_,
        .inr ⟨rfl,rfl⟩⟩
      rw [←h.2,←hp]
      simp only [writerStmt,Sys.put,List.append_nil,hc _ h.1]
      rfl
    | inr siz =>
      by_cases hz : siz=0
      · refine ⟨{s.gate with rstall := st},.top,[],[],none,fun t h hp => ?_,.inr ⟨rfl,rfl⟩⟩
        rw [←h.2]
        simp only [writerStmt,Sys.put,List.append_nil,hc _ h.1,if_pos hz]
        rfl
      · refine ⟨{s.gate with rstall := st},s.wpc,[],[],some (.clear siz),fun t h hp => ?_,
          .inr ⟨rfl,rfl⟩⟩
        rw [←h.2,←hp]
        simp only [writerStmt,Sys.put,List.append_nil,hc _ h.1,if_neg hz]
        rfl
  | clear siz =>
    refine ⟨{s.gate with mwait := false},s.wpc,[],[],some (.store siz),fun t h hp => ?_,
      .inr ⟨rfl,rfl⟩⟩
    rw [←h.2,←hp]
    simp only [writerStmt,Sys.put,List.append_nil]
    rfl
  | store siz =>
    refine ⟨{s.gate with xrsiz := siz},.post,[.grant siz],[],none,fun t h hp => ?_,
      .inl ⟨siz,rfl⟩⟩
    rw [←h.2]
    simp only [writerStmt,Sys.put,List.append_nil]
    rfl

/-- The signal handlers and the third party leave alone what the mutex guards,
and may as well run with other guarded values. -/
theorem beside_put (ha : a.aside=true) (h : TwoTask.step opts s a=some t) :
    Aside s t ∧ t.rpc=s.rpc ∧ t.wpc=s.wpc ∧
    ∀ (d : Gate) (rpc : RPc) (wpc : WPc) (er ew : List (Event ℕ)),
      TwoTask.step opts {s.put d er ew with rpc := rpc,wpc := wpc} a=
        some {t.put d er ew with rpc := rpc,wpc := wpc} := by
  cases a with
  | reader io => cases ha
  | writer io => cases ha
  | signal role =>
    cases h
    obtain ⟨errlog,abrt,done,hm⟩ := markStep_frame (errSig+role.idx) s.shm
      ((s.hnd role).getD .errlog)
    refine ⟨?_,rfl,rfl,fun d rpc wpc er ew => ?_⟩
    · unfold signalStep shTerminate
      dsimp only
      rw [hm]
      exact ⟨.refl _,rfl⟩
    · refine congrArg some ?_
      unfold signalStep shTerminate
      rw [show ({s.put d er ew with rpc := rpc,wpc := wpc} : Sys).hnd=s.hnd from rfl]
      cases (s.hnd role).getD .errlog <;> rfl
  | relay =>
    cases h
    cases hr : release (errSig+Role.arbiter.idx) s.shm (s.relay.getD (.mark .errlog)) with
    | mk g q =>
      have hput := fun d er ew => release_put _ s d er ew _ hr
      obtain ⟨_,_,_,_,_,rfl⟩ := release_frame hr
      refine ⟨?_,rfl,rfl,fun d rpc wpc er ew => ?_⟩
      · unfold relayStep
        rw [hr]
        exact ⟨.refl _,rfl⟩
      · refine congrArg some ?_
        have he := hput d er ew
        unfold relayStep
        rw [hr,show ({s.put d er ew with rpc := rpc,wpc := wpc} : Sys).relay=s.relay from rfl,
          show ({s.put d er ew with rpc := rpc,wpc := wpc} : Sys).shm=(s.put d er ew).shm from rfl,
          he]
        rfl

/-- What is left of a section of the reading task keeps to its own position and
to what the mutex guards, and does not lead out of the task. -/
theorem readerRest_frame (s : Sys) (k : Sec) :
    (readerRest s k).wpc=s.wpc ∧ (readerRest s k).rpc.closed=false ∧
      ((readerRest s k).shm.vars=none ∨ (readerRest s k).shm.vars=s.shm.vars) ∧
      ((∃ siz,k=.store siz) → (readerRest s k).rpc=.post) := by
  cases k with
  | leave => exact ⟨rfl,rfl,.inl rfl,by rintro ⟨_,h⟩; cases h⟩
  | can p =>
    unfold readerRest
    dsimp only
    split_ifs <;> exact ⟨rfl,rfl,.inl rfl,by rintro ⟨_,h⟩; cases h⟩
  | flag => exact ⟨rfl,rfl,.inl rfl,by rintro ⟨_,h⟩; cases h⟩
  | unlock siz => cases siz <;> exact ⟨rfl,rfl,.inl rfl,by rintro ⟨_,h⟩; cases h⟩
  | test =>
    unfold readerRest
    dsimp only
    split_ifs <;> exact ⟨rfl,rfl,.inr rfl,by rintro ⟨_,h⟩; cases h⟩
  | offer p =>
    unfold readerRest
    dsimp only
    split_ifs <;> exact ⟨rfl,rfl,.inr rfl,by rintro ⟨_,h⟩; cases h⟩
  | clear siz => exact ⟨rfl,rfl,.inr rfl,fun _ => rfl⟩
  | store siz => exact ⟨rfl,rfl,.inr rfl,fun _ => rfl⟩

/-- What is left of a section of the writing task keeps to its own position and
to what the mutex guards, and does not lead into the epilogue. -/
theorem writerRest_frame (s : Sys) (k : Sec) :
    (writerRest s k).rpc=s.rpc ∧ ((writerRest s k).shm.vars=none ∨
      (writerRest s k).shm.vars=s.shm.vars) ∧
      ((∃ siz,k=.store siz) → (writerRest s k).wpc=.post) := by
  cases k with
  | leave => exact ⟨rfl,.inl rfl,by rintro ⟨_,h⟩; cases h⟩
  | can p =>
    unfold writerRest
    dsimp only
    split_ifs <;> exact ⟨rfl,.inl rfl,by rintro ⟨_,h⟩; cases h⟩
  | flag => exact ⟨rfl,.inl rfl,by rintro ⟨_,h⟩; cases h⟩
  | unlock siz => cases siz <;> exact ⟨rfl,.inl rfl,by rintro ⟨_,h⟩; cases h⟩
  | test =>
    unfold writerRest
    dsimp only
    split_ifs <;> exact ⟨rfl,.inr rfl,by rintro ⟨_,h⟩; cases h⟩
  | offer p =>
    unfold writerRest
    dsimp only
    split_ifs <;> exact ⟨rfl,.inr rfl,by rintro ⟨_,h⟩; cases h⟩
  | clear siz => exact ⟨rfl,.inr rfl,fun _ => rfl⟩
  | store siz => exact ⟨rfl,.inr rfl,fun _ => rfl⟩

variable {buf : BufS} {ok : Sys → Act → Prop}

/-- Beside an open section of the reading task the writing task is in none, not
in its epilogue, and not at the use of a grant that is being stored. -/
theorem writer_away (hr : Run (TwoTask.step opts) ok (Sys.init buf) (readerRest s k))
    (hv : s.shm.vars=some .reader) :
    s.wpc.holds=false ∧ (∀ p,s.wpc≠.epi p) ∧ ((∃ siz,k=.store siz) → s.wpc≠.take) := by
  obtain ⟨hw,hc,hvars,hpost⟩ := readerRest_frame s k
  have hm := (MutexInv.run hr).writer
  have hf := (FlagInv.run hr).writer
  have ht := (not_taking hr).2
  rw [hw] at hm hf ht
  refine ⟨?_,fun p hp => ?_,fun hs => ht (hpost hs)⟩
  · refine Bool.eq_false_of_not_eq_true fun hh => ?_
    rcases hvars with he|he
    · cases he.symm.trans (hm.mpr hh)
    · cases hv.symm.trans (he.symm.trans (hm.mpr hh))
  · rw [hp] at hf
    exact Bool.false_ne_true (hc.symm.trans hf.2)

/-- Beside an open section of the writing task the reading task is in none, and
not at the use of a grant that is being stored. -/
theorem reader_away (hr : Run (TwoTask.step opts) ok (Sys.init buf) (writerRest s k))
    (hv : s.shm.vars=some .writer) :
    s.rpc.holds=false ∧ ((∃ siz,k=.store siz) → s.rpc≠.take) := by
  obtain ⟨hp,hvars,hpost⟩ := writerRest_frame s k
  have hm := (MutexInv.run hr).reader
  have ht := (not_taking hr).1
  rw [hp] at hm ht
  refine ⟨?_,fun hs => ht (hpost hs)⟩
  refine Bool.eq_false_of_not_eq_true fun hh => ?_
  rcases hvars with he|he
  · cases he.symm.trans (hm.mpr hh)
  · cases hv.symm.trans (he.symm.trans (hm.mpr hh))

/-- What happens beside an open section of the reading task commutes with its
next statement. -/
theorem reader_beside (hr : Run (TwoTask.step opts) ok (Sys.init buf) (readerRest s k))
    (hv : s.shm.vars=some .reader) (hw : a.who≠some .reader)
    (hs : TwoTask.step opts s a=some t) :
    Aside s t ∧ t.rpc=s.rpc ∧ (readerStmt t k).2=(readerStmt s k).2 ∧
      TwoTask.step opts (readerStmt s k).1 a=some (readerStmt t k).1 ∧
      (readerStmt s k).1.tr=s.tr := by
  obtain ⟨hh,he,ht⟩ := writer_away hr hv
  obtain ⟨d,rpc,er,ew,o,hput,hx⟩ := readerStmt_put s k
  have hself := hput s ⟨.refl _,rfl⟩ rfl
  have haside : a.aside=true → _ := fun ha => beside_put ha hs
  cases a with
  | reader io => exact absurd rfl hw
  | writer io =>
    have hstep := writerStep_cases hs
    have hn : s.shm.vars≠none := by rw [hv]; exact Option.some_ne_none _
    have ha := hstep.leaves hn hh he
    rw [hput t ha hstep.rpc,hself]
    refine ⟨ha,hstep.rpc,rfl,(hstep.put hn hh he d rpc er ew fun htake => ?_).exec he,rfl⟩
    exact hx.resolve_left fun hk => ht hk htake
  | _ =>
    obtain ⟨ha,hrpc,hwpc,hcomm⟩ := haside rfl
    rw [hput t ha hrpc,hself]
    exact ⟨ha,hrpc,rfl,(hcomm d rpc s.wpc er ew).trans (by rw [←hwpc]; rfl),rfl⟩

/-- What happens beside an open section of the writing task commutes with its
next statement. -/
theorem writer_beside (hr : Run (TwoTask.step opts) ok (Sys.init buf) (writerRest s k))
    (hv : s.shm.vars=some .writer) (hw : a.who≠some .writer)
    (hs : TwoTask.step opts s a=some t) :
    Aside s t ∧ t.wpc=s.wpc ∧ (writerStmt t k).2=(writerStmt s k).2 ∧
      TwoTask.step opts (writerStmt s k).1 a=some (writerStmt t k).1 ∧
      (writerStmt s k).1.tr=s.tr := by
  obtain ⟨hh,ht⟩ := reader_away hr hv
  obtain ⟨d,wpc,er,ew,o,hput,hx⟩ := writerStmt_put s k
  have hself := hput s ⟨.refl _,rfl⟩ rfl
  have haside : a.aside=true → _ := fun ha => beside_put ha hs
  cases a with
  | writer io => exact absurd rfl hw
  | reader io =>
    have hstep := readerStep_cases hs
    have hn : s.shm.vars≠none := by rw [hv]; exact Option.some_ne_none _
    have ha := hstep.leaves hn hh
    rw [hput t ha hstep.wpc,hself]
    refine ⟨ha,hstep.wpc,rfl,(hstep.put hn hh d wpc er ew fun htake => ?_).exec,rfl⟩
    exact hx.resolve_left fun hk => ht hk htake
  | _ =>
    obtain ⟨ha,hrpc,hwpc,hcomm⟩ := haside rfl
    rw [hput t ha hwpc,hself]
    exact ⟨ha,hwpc,rfl,(hcomm d s.rpc wpc er ew).trans (by rw [←hrpc]; rfl),rfl⟩

/-- A task at the begin of a section makes no call. -/
theorem readerEnter_tau {r : Sys×Sec} (h : readerEnter s=some r) (hs : readerStep s io=some t) :
    io=.tau := by
  unfold readerEnter at h
  split at h
  · next hpc => cases io <;> simp [readerStep,hpc] at hs ⊢
  · next hpc => cases io <;> simp [readerStep,hpc] at hs ⊢
  · cases h

/-- A task at the begin of a section makes no call. -/
theorem writerEnter_tau {r : Sys×Sec} (h : writerEnter s=some r)
    (hs : writerStep opts s io=some t) : io=.tau := by
  unfold writerEnter at h
  split at h
  · next hpc => cases io <;> simp [writerStep,hpc] at hs ⊢
  · next hpc => cases io <;> simp [writerStep,hpc] at hs ⊢
  · cases h

/-- A section of the reading task begins inside the mutex, leaves it where it
is, and ends elsewhere. -/
theorem readerEnter_frame (h : readerEnter s=some (t,k)) :
    s.rpc.holds=true ∧ t.shm.vars=s.shm.vars ∧ (readerRest t k).rpc≠s.rpc := by
  unfold readerEnter at h
  split at h
  · next hpc =>
    cases h
    refine ⟨by rw [hpc]; rfl,rfl,?_⟩
    rw [hpc]
    split_ifs
    · exact RPc.noConfusion
    · unfold readerRest
      dsimp only
      split_ifs <;> exact RPc.noConfusion
  · next n hpc =>
    cases h
    refine ⟨by rw [hpc]; rfl,rfl,?_⟩
    rw [hpc]
    unfold readerRest
    dsimp only
    split_ifs <;> exact RPc.noConfusion
  · cases h

/-- A section of the writing task begins inside the mutex, leaves it where it
is, and ends elsewhere. -/
theorem writerEnter_frame (h : writerEnter s=some (t,k)) :
    s.wpc.holds=true ∧ t.shm.vars=s.shm.vars ∧ (writerRest t k).wpc≠s.wpc := by
  unfold writerEnter at h
  split at h
  · next hpc =>
    cases h
    refine ⟨by rw [hpc]; rfl,rfl,?_⟩
    rw [hpc]
    split_ifs
    · exact WPc.noConfusion
    · unfold writerRest
      dsimp only
      split_ifs <;> exact WPc.noConfusion
  · next n hpc =>
    cases h
    refine ⟨by rw [hpc]; rfl,rfl,?_⟩
    rw [hpc]
    unfold writerRest
    dsimp only
    split_ifs <;> exact WPc.noConfusion
  · cases h

/-- A task outside its sections begins none. -/
theorem readerEnter_none (h : s.rpc.holds=false) : readerEnter s=none := by
  unfold readerEnter
  split
  · next hpc => rw [hpc] at h; cases h
  · next hpc => rw [hpc] at h; cases h
  · rfl

/-- A task outside its sections begins none. -/
theorem writerEnter_none (h : s.wpc.holds=false) : writerEnter s=none := by
  unfold writerEnter
  split
  · next hpc => rw [hpc] at h; cases h
  · next hpc => rw [hpc] at h; cases h
  · rfl

/-- The mutex is left by the last statement of a section only. -/
theorem readerStmt_vars (h : (readerStmt s k).2=some k') :
    (readerStmt s k).1.shm.vars=s.shm.vars := by
  cases k with
  | leave => cases h
  | unlock siz => cases siz <;> cases h
  | store siz => cases h
  | test =>
    unfold readerStmt at h ⊢
    split_ifs at h ⊢
    rfl
  | offer p =>
    unfold readerStmt
    dsimp only
    split
    · rfl
    · split_ifs <;> rfl
  | _ => rfl

/-- The mutex is left by the last statement of a section only. -/
theorem writerStmt_vars (h : (writerStmt s k).2=some k') :
    (writerStmt s k).1.shm.vars=s.shm.vars := by
  cases k with
  | leave => cases h
  | unlock siz => cases siz <;> cases h
  | store siz => cases h
  | test =>
    unfold writerStmt at h ⊢
    split_ifs at h ⊢
    rfl
  | offer p =>
    unfold writerStmt
    dsimp only
    split
    · rfl
    · split_ifs <;> rfl
  | _ => rfl

/-- Who holds the mutex among the two tasks. -/
theorem Sys.held_iff : (s.held=some .reader ↔ s.shm.vars=some .reader) ∧
    (s.held=some .writer ↔ s.shm.vars=some .writer) := by
  unfold Sys.held
  cases s.shm.vars with
  | none => exact ⟨by simp,by simp⟩
  | some r => cases r <;> exact ⟨by simp,by simp⟩

/-- The holder of the mutex depends on the mutex only. -/
theorem Sys.held_congr (h : t.shm.vars=s.shm.vars) : t.held=s.held := by
  unfold Sys.held
  rw [h]

/-- The sections of the two tasks are atomic, whatever the calls return, the
signal handlers and the third party do, and wherever the other task is. The
restriction on the runs may look at what was moved so far. -/
theorem atomic (opts : OptionsS) (buf : BufS)
    (hok : ∀ s s' a,s'.tr=s.tr → ok s a → ok s' a) :
    (sections opts).Atomic ok (Sys.init buf) where
  entry_who i := by cases i <;> rfl
  entry_only {i s r a t} he hw hs := by
    cases i with
    | reader =>
      cases a with
      | reader io => rw [readerEnter_tau he hs]; rfl
      | _ => cases hw
    | writer =>
      cases a with
      | writer io => rw [writerEnter_tau he hs]; rfl
      | _ => cases hw
  enter_held {i s t k} hr he := by
    have hm := MutexInv.run hr
    cases i with
    | reader =>
      obtain ⟨hh,hv,_⟩ := readerEnter_frame he
      have hheld : s.held=some .reader := Sys.held_iff.1.mpr (hm.reader.mpr hh)
      exact ⟨hheld,(Sys.held_congr hv).trans hheld⟩
    | writer =>
      obtain ⟨hh,hv,_⟩ := writerEnter_frame he
      have hheld : s.held=some .writer := Sys.held_iff.2.mpr (hm.writer.mpr hh)
      exact ⟨hheld,(Sys.held_congr hv).trans hheld⟩
  enter_step {i s t k} he := by
    cases i with
    | reader =>
      rw [finish_reader]
      exact readerEnter_step he
    | writer =>
      rw [finish_writer]
      exact writerEnter_step he
  stmt_held {i k s k'} hh hk := by
    cases i with
    | reader => exact (Sys.held_congr (readerStmt_vars hk)).trans hh
    | writer => exact (Sys.held_congr (writerStmt_vars hk)).trans hh
  alone {i k s j} hr hh hj := by
    cases i with
    | reader =>
      cases j with
      | reader => exact absurd rfl hj
      | writer =>
        rw [finish_reader] at hr
        exact writerEnter_none (writer_away hr (Sys.held_iff.1.mp hh)).1
    | writer =>
      cases j with
      | writer => exact absurd rfl hj
      | reader =>
        rw [finish_writer] at hr
        exact readerEnter_none (reader_away hr (Sys.held_iff.2.mp hh)).1
  beside {i k s a t} hr hh hw hs := by
    cases i with
    | reader =>
      rw [finish_reader] at hr
      obtain ⟨ha,_,hsame,hstep,htr⟩ := reader_beside hr (Sys.held_iff.1.mp hh) hw hs
      exact ⟨Sys.held_congr (congrArg Gate.vars ha.2),hsame,hstep,hok _ _ _ htr⟩
    | writer =>
      rw [finish_writer] at hr
      obtain ⟨ha,_,hsame,hstep,htr⟩ := writer_beside hr (Sys.held_iff.2.mp hh) hw hs
      exact ⟨Sys.held_congr (congrArg Gate.vars ha.2),hsame,hstep,hok _ _ _ htr⟩

/-- Neither task hides the positions of the other in an open section. -/
theorem visible (opts : OptionsS) (buf : BufS) :
    (sections opts).Visible ok (Sys.init buf) Sys.pcs where
  entry {i s t k} he hp := by
    cases i with
    | reader =>
      rw [finish_reader] at hp
      exact (readerEnter_frame he).2.2 (congrArg Prod.fst hp)
    | writer =>
      rw [finish_writer] at hp
      exact (writerEnter_frame he).2.2 (congrArg Prod.snd hp)
  beside {i k s a t} hr hh hw hs hm hp := by
    cases i with
    | reader =>
      rw [finish_reader] at hr
      rw [finish_reader,finish_reader] at hp
      obtain ⟨_,hpc,_⟩ := reader_beside hr (Sys.held_iff.1.mp hh) hw hs
      have hother := congrArg Prod.snd hp
      unfold Sys.pcs at hother
      rw [(readerRest_frame t k).1,(readerRest_frame s k).1] at hother
      exact hm (Prod.ext hpc hother)
    | writer =>
      rw [finish_writer] at hr
      rw [finish_writer,finish_writer] at hp
      obtain ⟨_,hpc,_⟩ := writer_beside hr (Sys.held_iff.2.mp hh) hw hs
      have hother := congrArg Prod.fst hp
      unfold Sys.pcs at hother
      rw [(writerRest_frame t k).1,(writerRest_frame s k).1] at hother
      exact hm (Prod.ext hother hpc)

end Yancat.TwoTask
