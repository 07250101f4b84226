import Yancat.Hysteresis
import Yancat.SingleTaskProgress
import Yancat.TwoTaskStream

/-!
# Resume points over whole runs

The decisions a run takes are listed with the buffers they are taken on,
whichever task takes them and whatever it does with the answer. Each stall flag
is the position of a latch over that list: closed by a refusal, and opened by a
decision taken at the resume point only. What the resume points promise is read
off the list.
-/

namespace Yancat.ResumePoints

open Buffer Setup Shared Transition FailureFlags Hysteresis

/-- A decision, with the buffer it is taken on. -/
inductive Call
  /-- A call of `buf_can_r`. -/
  | canR (buf : BufS)
  /-- A call of `buf_can_w`. -/
  | canW (buf : BufS)
  /-- The call of `buf_setlinew`. -/
  | setlinew

/-- Reads are stalled: a refusal stalls them, and a decision at the resume point
resumes them. -/
def readLatch (rsp : ℕ) : Latch Call where
  closes
    | .canR buf => decide ((bufCanR buf).1=0)
    | _ => false
  opens
    | .canR buf => decide (fill buf≤rsp)
    | _ => false

/-- Writes are stalled, before the epilogue. -/
def writeLatch (wsp : ℕ) : Latch Call where
  closes
    | .canW buf => decide ((bufCanW buf).1=0)
    | _ => false
  opens
    | .canW buf => decide (wsp≤fill buf)
    | _ => false

/-- The answer to a stalled reader: nothing above the resume point, and at it a
block that is smaller than the free space. -/
def StalledRead (opts : OptionsS) (buf : BufS) : Prop :=
  if opts.rsp<fill buf then (bufCanR buf).1=0
  else (bufCanR buf).1=opts.rblk ∧ opts.rblk<buf.size-fill buf

/-- The answer to a stalled writer: nothing below the resume point, and at it a
block that is in the buffer. -/
def StalledWrite (opts : OptionsS) (buf : BufS) : Prop :=
  if fill buf<opts.wsp then (bufCanW buf).1=0
  else (bufCanW buf).1=opts.wblk ∧ opts.wblk≤fill buf

/-- What the resume points promise of the decisions of a run. -/
structure Respects (opts : OptionsS) (log : List Call) : Prop where
  /-- After an overrun, up to the first decision at the resume point. -/
  overrun : opts.rsp≠0 → ∀ pre full mid buf post,
    log=pre++.canR full::(mid++.canR buf::post) → (bufCanR full).1=0 →
    (∀ c,.canR c∈mid → opts.rsp<fill c) → StalledRead opts buf
  /-- From the start, up to the first decision at the resume point. -/
  start : opts.wsp≠0 → ∀ pre buf post,
    log=pre++.canW buf::post → .setlinew∉pre →
    (∀ c,.canW c∈pre → fill c<opts.wsp) → StalledWrite opts buf
  /-- After an underrun, up to the first decision at the resume point. -/
  underrun : opts.wsp≠0 → ∀ pre low mid buf post,
    log=pre++.canW low::(mid++.canW buf::post) → .setlinew∉pre → .setlinew∉mid →
    (bufCanW low).1=0 → (∀ c,.canW c∈mid → fill c<opts.wsp) → StalledWrite opts buf
  /-- In the epilogue. -/
  epilogue : ∀ pre mid buf post,
    log=pre++.setlinew::(mid++.canW buf::post) → fill buf≠0 → (bufCanW buf).1≠0

/-- Nothing that the decisions depend on differs, apart from the indices. -/
structure SameGates (buf buf' : BufS) : Prop where
  /-- The read resume point. -/
  rsp : buf'.rsp=buf.rsp
  /-- The write resume point. -/
  wsp : buf'.wsp=buf.wsp
  /-- The read stall flag. -/
  rstall : buf'.rstall=buf.rstall
  /-- The write stall flag. -/
  wstall : buf'.wstall=buf.wstall
  /-- The write minimum. -/
  wmin : buf'.wmin=buf.wmin
  /-- The read block. -/
  rblk : buf'.rblk=buf.rblk
  /-- The write block. -/
  wblk : buf'.wblk=buf.wblk

/-- Moving bytes about leaves the gates alone. -/
theorem SameGates.moved {buf buf' : BufS} (h : Moved buf buf') : SameGates buf buf' := by
  obtain ⟨_,_,_,_,_,_,_,_,rfl⟩ := h
  constructor <;> rfl

/-- A buffer has the gates of itself. -/
theorem SameGates.refl (buf : BufS) : SameGates buf buf := .moved (.refl buf)

/-- Publishing leaves the gates alone. -/
theorem SameGates.commitRf (buf : BufS) (n : ℕ) : SameGates buf (bufCommitRf buf n) := by
  constructor <;> rfl

/-- Releasing leaves the gates alone. -/
theorem SameGates.commitWf (buf : BufS) (n : ℕ) : SameGates buf (bufCommitWf buf n) := by
  constructor <;> rfl

/-- What a step does to the gates: nothing, or one decision, or the switch to
draining. -/
inductive Takes (buf : BufS) : List Call → BufS → Prop
  /-- No decision is taken. -/
  | quiet {buf' : BufS} (h : SameGates buf buf') : Takes buf [] buf'
  /-- A read decision is taken. -/
  | canR {c : BufS} (hok : BufOk c) (h : SameGates buf c) : Takes buf [.canR c] (bufCanR c).2
  /-- A write decision is taken. -/
  | canW {c : BufS} (hok : BufOk c) (h : SameGates buf c) : Takes buf [.canW c] (bufCanW c).2
  /-- The writer is switched to draining. -/
  | setlinew : Takes buf [.setlinew] (bufSetlinew buf)

/-- What is known of the gates of a buffer after a history. -/
structure Gates (opts : OptionsS) (log : List Call) (buf : BufS) : Prop where
  /-- The read resume point. -/
  rsp : buf.rsp=opts.rsp
  /-- The read block. -/
  rblk : buf.rblk=opts.rblk
  /-- The write block. -/
  wblk : buf.wblk=opts.wblk
  /-- The read stall flag is the latch. -/
  rstall : opts.rsp≠0 → buf.rstall=(readLatch opts.rsp).after false log
  /-- The write resume point, before the epilogue. -/
  wsp : .setlinew∉log → buf.wsp=opts.wsp
  /-- The write stall flag is the latch, before the epilogue. -/
  wstall : .setlinew∉log → opts.wsp≠0 → buf.wstall=(writeLatch opts.wsp).after true log
  /-- In the epilogue the writer drains. -/
  drains : .setlinew∈log → Draining buf

variable {opts : OptionsS} {log : List Call} {buf buf' c : BufS}

/-- The gates of the same kind. -/
theorem Gates.same (hg : Gates opts log buf) (h : SameGates buf c) : Gates opts log c where
  rsp := h.rsp.trans hg.rsp
  rblk := h.rblk.trans hg.rblk
  wblk := h.wblk.trans hg.wblk
  rstall := fun hr => h.rstall.trans (hg.rstall hr)
  wsp := fun hn => h.wsp.trans (hg.wsp hn)
  wstall := fun hn hw => h.wstall.trans (hg.wstall hn hw)
  drains := fun hm =>
    have hd := hg.drains hm
    ⟨h.wmin.trans hd.wmin,h.wsp.trans hd.wsp,h.wstall.trans hd.wstall⟩

/-- The read stall flag moves as the latch does. -/
theorem canR_latch (hok : BufOk c) (hr : c.rsp≠0) :
    (bufCanR c).2.rstall=(readLatch c.rsp).next c.rstall (.canR c) := by
  have hs := hok.space_eq
  have hf := hok.fill_lt
  have hi := hok.rspOk hr
  have hopen : (readLatch c.rsp).opens (.canR c)=decide (fill c≤c.rsp) := rfl
  have hclose : (readLatch c.rsp).closes (.canR c)=decide ((bufCanR c).1=0) := rfl
  rw [Latch.next,hopen,hclose]
  cases bufCanR_cases c with
  | held hst he hc =>
    rw [hc,if_pos hst,decide_eq_false (by omega),hst]
    rfl
  | resume hst he hc =>
    rw [hc,if_pos hst,decide_eq_true (by omega)]
    rfl
  | block hst hb hc =>
    have hpos := hok.rblk_pos
    rw [hc,if_neg (by rw [hst]; decide),decide_eq_false hpos.ne',hst]
  | short hst hb hm hc =>
    rw [hc,if_neg (by rw [hst]; decide),decide_eq_false (by dsimp only; omega),hst]
  | stall hst hb hm hr hc =>
    rw [hc,if_neg (by rw [hst]; decide)]
    rfl
  | refuse hst hb hm hz hc => exact absurd hz hr

/-- The write stall flag moves as the latch does. -/
theorem canW_latch (hok : BufOk c) (hw : c.wsp≠0) :
    (bufCanW c).2.wstall=(writeLatch c.wsp).next c.wstall (.canW c) := by
  have hi := hok.wspOk hw
  have hopen : (writeLatch c.wsp).opens (.canW c)=decide (c.wsp≤fill c) := rfl
  have hclose : (writeLatch c.wsp).closes (.canW c)=decide ((bufCanW c).1=0) := rfl
  rw [Latch.next,hopen,hclose]
  cases bufCanW_cases c with
  | held hst he hc =>
    rw [hc,if_pos hst,decide_eq_false (by omega),hst]
    rfl
  | resume hst he hc =>
    rw [hc,if_pos hst,decide_eq_true he]
    rfl
  | block hst hb hc =>
    have hpos := hok.wblk_pos
    rw [hc,if_neg (by rw [hst]; decide),decide_eq_false hpos.ne',hst]
  | short hst hb hm hc =>
    have hpos := hok.wmin_pos
    rw [hc,if_neg (by rw [hst]; decide),decide_eq_false (by dsimp only; omega),hst]
  | stall hst hb hm hr hc =>
    rw [hc,if_neg (by rw [hst]; decide)]
    rfl
  | refuse hst hb hm hz hc => exact absurd hz hw

/-- A refused read leaves the stall flag up. -/
theorem canR_refused (hok : BufOk c) (hr : c.rsp≠0) (hz : (bufCanR c).1=0) :
    (bufCanR c).2.rstall=true := by
  cases bufCanR_cases c with
  | held hst he hc =>
    rw [hc]
    exact hst
  | resume hst he hc =>
    rw [hc] at hz
    exact absurd hz hok.rblk_pos.ne'
  | block hst hb hc =>
    rw [hc] at hz
    exact absurd hz hok.rblk_pos.ne'
  | short hst hb hm hc =>
    rw [hc] at hz
    exact absurd hz (Nat.zero_lt_of_lt hm).ne'
  | stall hst hb hm hr hc => rw [hc]
  | refuse hst hb hm hz hc => exact absurd hz hr

/-- A refused write leaves the stall flag up. -/
theorem canW_refused (hok : BufOk c) (hw : c.wsp≠0) (hz : (bufCanW c).1=0) :
    (bufCanW c).2.wstall=true := by
  cases bufCanW_cases c with
  | held hst he hc =>
    rw [hc]
    exact hst
  | resume hst he hc =>
    rw [hc] at hz
    exact absurd hz hok.wblk_pos.ne'
  | block hst hb hc =>
    rw [hc] at hz
    exact absurd hz hok.wblk_pos.ne'
  | short hst hb hm hc =>
    rw [hc] at hz
    exact absurd hz (hok.wmin_pos.trans_le hm).ne'
  | stall hst hb hm hr hc => rw [hc]
  | refuse hst hb hm hz hc => exact absurd hz hw

/-- The answer to a reader whose stall flag is up. -/
theorem stalledRead (hok : BufOk c) (hr : c.rsp=opts.rsp) (hb : c.rblk=opts.rblk)
    (hs : c.rstall=true) : StalledRead opts c := by
  have hspace := hok.space_eq
  have hfill := hok.fill_lt
  have hrsp := hok.rspOk (hok.rstallOk hs)
  rw [StalledRead,←hr,←hb]
  cases bufCanR_cases c with
  | held hst he hc => rw [if_pos (by omega),hc]
  | resume hst he hc =>
    rw [if_neg (by omega),hc]
    exact ⟨rfl,by omega⟩
  | block hst => exact absurd (hst.symm.trans hs) Bool.false_ne_true
  | short hst => exact absurd (hst.symm.trans hs) Bool.false_ne_true
  | stall hst => exact absurd (hst.symm.trans hs) Bool.false_ne_true
  | refuse hst => exact absurd (hst.symm.trans hs) Bool.false_ne_true

/-- The answer to a writer whose stall flag is up. -/
theorem stalledWrite (hok : BufOk c) (hw : c.wsp=opts.wsp) (hb : c.wblk=opts.wblk)
    (hs : c.wstall=true) : StalledWrite opts c := by
  have hwsp := hok.wspOk (hok.wstallOk hs)
  rw [StalledWrite,←hw,←hb]
  cases bufCanW_cases c with
  | held hst he hc => rw [if_pos he,hc]
  | resume hst he hc =>
    rw [if_neg (Nat.not_lt.mpr he),hc]
    exact ⟨rfl,by omega⟩
  | block hst => exact absurd (hst.symm.trans hs) Bool.false_ne_true
  | short hst => exact absurd (hst.symm.trans hs) Bool.false_ne_true
  | stall hst => exact absurd (hst.symm.trans hs) Bool.false_ne_true
  | refuse hst => exact absurd (hst.symm.trans hs) Bool.false_ne_true

/-- A read decision takes the gates to those of the longer history. -/
theorem Gates.canR (hg : Gates opts log c) (hok : BufOk c) :
    Gates opts (log++[.canR c]) (bufCanR c).2 := by
  have hlatch : opts.rsp≠0 → (bufCanR c).2.rstall=(readLatch opts.rsp).after false (log++[.canR c])
      := fun hr => by
    rw [Latch.after_snoc,←hg.rstall hr,←hg.rsp]
    exact canR_latch hok (hg.rsp ▸ hr)
  obtain ⟨st,hs⟩ := bufCanR_snd c
  have hmem : Call.setlinew∈log++[.canR c] ↔ .setlinew∈log := by simp
  rw [hs] at hlatch ⊢
  refine ⟨hg.rsp,hg.rblk,hg.wblk,hlatch,fun hn => hg.wsp (hmem.not.mp hn),fun hn hw => ?_,
    fun hm => ?_⟩
  · rw [Latch.after_snoc,Latch.next_idle _ rfl rfl]
    exact hg.wstall (hmem.not.mp hn) hw
  · have hd := hg.drains (hmem.mp hm)
    exact ⟨hd.wmin,hd.wsp,hd.wstall⟩

/-- A write decision takes the gates to those of the longer history. -/
theorem Gates.canW (hg : Gates opts log c) (hok : BufOk c) :
    Gates opts (log++[.canW c]) (bufCanW c).2 := by
  have hmem : Call.setlinew∈log++[.canW c] ↔ .setlinew∈log := by simp
  have hlatch : .setlinew∉log++[.canW c] → opts.wsp≠0 →
      (bufCanW c).2.wstall=(writeLatch opts.wsp).after true (log++[.canW c]) := fun hn hw => by
    have hwsp := hg.wsp (hmem.not.mp hn)
    rw [Latch.after_snoc,←hg.wstall (hmem.not.mp hn) hw,←hwsp]
    exact canW_latch hok (hwsp ▸ hw)
  have hdrain : .setlinew∈log++[.canW c] → Draining (bufCanW c).2 := fun hm => by
    have hd := hg.drains (hmem.mp hm)
    rw [(hd.canW hok).1]
    exact hd
  obtain ⟨st,hs⟩ := bufCanW_snd c
  rw [hs] at hlatch hdrain ⊢
  refine ⟨hg.rsp,hg.rblk,hg.wblk,fun hr => ?_,fun hn => hg.wsp (hmem.not.mp hn),hlatch,hdrain⟩
  rw [Latch.after_snoc,Latch.next_idle _ rfl rfl]
  exact hg.rstall hr

/-- The switch to draining takes the gates to those of the longer history. -/
theorem Gates.setlinew (hg : Gates opts log c) :
    Gates opts (log++[.setlinew]) (bufSetlinew c) := by
  have hmem : Call.setlinew∈log++[.setlinew] := by simp
  refine ⟨hg.rsp,hg.rblk,hg.wblk,fun hr => ?_,fun hn => absurd hmem hn,fun hn => absurd hmem hn,
    fun _ => ⟨rfl,rfl,rfl⟩⟩
  rw [Latch.after_snoc,Latch.next_idle _ rfl rfl]
  exact hg.rstall hr

/-- What is known of the buffer of a decision after a history. -/
def Faced (opts : OptionsS) (log : List Call) : Call → Prop
  | .canR buf => BufOk buf ∧ Gates opts log buf
  | .canW buf => BufOk buf ∧ Gates opts log buf
  | .setlinew => True

/-- A history in which every decision faced the gates of what came before. -/
inductive Recorded (opts : OptionsS) : List Call → Prop
  /-- No decision. -/
  | nil : Recorded opts []
  /-- One more decision. -/
  | snoc {log : List Call} {c : Call} (h : Recorded opts log) (hf : Faced opts log c) :
    Recorded opts (log++[c])

/-- Every decision in a recorded history faced the gates of what came before. -/
theorem Recorded.faced {pre post : List Call} {e : Call} (h : Recorded opts log)
    (hl : log=pre++e::post) : Faced opts pre e := by
  induction h generalizing post with
  | nil => cases pre <;> cases hl
  | @snoc log d h hf ih =>
    rcases List.eq_nil_or_concat post with rfl|⟨rest,last,rfl⟩
    · obtain ⟨rfl,hd⟩ := List.append_inj' hl rfl
      cases hd
      exact hf
    · have hl' : log++[d]=(pre++e::rest)++[last] := by rw [hl]; simp
      exact ih (List.append_inj' hl' rfl).1

/-- A step extends a recorded history, and the gates with it. -/
theorem Takes.recorded {calls : List Call} (h : Takes buf calls buf') (hg : Gates opts log buf)
    (hr : Recorded opts log) : Gates opts (log++calls) buf' ∧ Recorded opts (log++calls) := by
  cases h with
  | quiet h =>
    rw [List.append_nil]
    exact ⟨hg.same h,hr⟩
  | canR hok h => exact ⟨(hg.same h).canR hok,hr.snoc ⟨hok,hg.same h⟩⟩
  | canW hok h => exact ⟨(hg.same h).canW hok,hr.snoc ⟨hok,hg.same h⟩⟩
  | setlinew => exact ⟨hg.setlinew,hr.snoc trivial⟩

/-- A recorded history respects the resume points. -/
theorem Recorded.respects (h : Recorded opts log) : Respects opts log := by
  refine ⟨?_,?_,?_,?_⟩
  · intro hrsp pre full mid buf post hl hz hmid
    obtain ⟨hok,hg⟩ := h.faced hl
    have hl' : log=(pre++.canR full::mid)++.canR buf::post := by rw [hl]; simp
    obtain ⟨hok',hg'⟩ := h.faced hl'
    have hclosed : (readLatch opts.rsp).next ((readLatch opts.rsp).after false pre) (.canR full)=
        true := by
      have hr : full.rsp≠0 := hg.rsp ▸ hrsp
      rw [←hg.rstall hrsp,←hg.rsp,←canR_latch hok hr]
      exact canR_refused hok hr hz
    refine stalledRead hok' hg'.rsp hg'.rblk ((hg'.rstall hrsp).trans ?_)
    refine Latch.since _ hclosed fun e he => ?_
    cases e with
    | canR c => exact decide_eq_false (Nat.not_le.mpr (hmid c he))
    | canW c => rfl
    | setlinew => rfl
  · intro hwsp pre buf post hl hpre hbelow
    obtain ⟨hok,hg⟩ := h.faced hl
    refine stalledWrite hok (hg.wsp hpre) hg.wblk ((hg.wstall hpre hwsp).trans ?_)
    refine Latch.stays _ fun e he => ?_
    cases e with
    | canR c => rfl
    | canW c => exact decide_eq_false (Nat.not_le.mpr (hbelow c he))
    | setlinew => rfl
  · intro hwsp pre low mid buf post hl hpre hmid hz hbelow
    obtain ⟨hok,hg⟩ := h.faced hl
    have hl' : log=(pre++.canW low::mid)++.canW buf::post := by rw [hl]; simp
    have hnone : Call.setlinew∉pre++.canW low::mid := by
      simp only [List.mem_append,List.mem_cons,hpre,hmid,reduceCtorEq,or_self,not_false_eq_true]
    obtain ⟨hok',hg'⟩ := h.faced hl'
    have hclosed : (writeLatch opts.wsp).next ((writeLatch opts.wsp).after true pre) (.canW low)=
        true := by
      have hw : low.wsp≠0 := hg.wsp hpre ▸ hwsp
      rw [←hg.wstall hpre hwsp,←hg.wsp hpre,←canW_latch hok hw]
      exact canW_refused hok hw hz
    refine stalledWrite hok' (hg'.wsp hnone) hg'.wblk ((hg'.wstall hnone hwsp).trans ?_)
    refine Latch.since _ hclosed fun e he => ?_
    cases e with
    | canR c => rfl
    | canW c => exact decide_eq_false (Nat.not_le.mpr (hbelow c he))
    | setlinew => rfl
  · intro pre mid buf post hl hne hz
    have hl' : log=(pre++.setlinew::mid)++.canW buf::post := by rw [hl]; simp
    obtain ⟨hok,hg⟩ := h.faced hl'
    have hmem : Call.setlinew∈pre++.setlinew::mid := by simp
    exact hne (((hg.drains hmem).canW hok).2 hz)

/-- The decisions of a position of the epilogue. -/
def epiCalls (buf : BufS) : EpiPc → List Call
  | .setlinew => [.setlinew]
  | .top => [.canW buf]
  | _ => []

/-- The decisions of a step of the single process. -/
def singleCalls (s : SingleTask.SSys) : SingleTask.Act → List Call
  | .task _ =>
    match s.pc with
    | .rtest _ => [.canR s.shm.buf]
    | .wtest _ => [.canW s.shm.buf]
    | .epi _ p => epiCalls s.shm.buf p
    | _ => []
  | .signal => []

/-- The decisions of a step of the two tasks. Either task takes its own on the
loop test, and the other's when it publishes to one that waits. -/
def pairCalls (s : TwoTask.Sys) : TwoTask.Act → List Call
  | .reader _ =>
    match s.rpc with
    | .top => if s.shm.done=true then [] else [.canR s.shm.buf]
    | .publish n => if s.shm.swait=true then [.canW (bufCommitRf s.shm.buf n)] else []
    | _ => []
  | .writer _ =>
    match s.wpc with
    | .top => if s.shm.done=true then [] else [.canW s.shm.buf]
    | .publish n => if s.shm.mwait=true then [.canR (bufCommitWf s.shm.buf n)] else []
    | .epi p => epiCalls s.shm.buf p
    | _ => []
  | _ => []

variable {g g' : ShrS} {tr tr' : Trace} {io : Io}

/-- A step of the epilogue takes the decisions of its position. -/
theorem EpiStep_takes {p : EpiPc} {q : EpiPc⊕Bool} (h : EpiStep opts g tr p io g' tr' q)
    (hok : BufOk g.buf) : Takes g.buf (epiCalls g.buf p) g'.buf := by
  cases h with
  | setlinew => exact .setlinew
  | drained hz => exact .canW hok (.refl _)
  | grant hz => exact .canW hok (.refl _)
  | fetch => exact .quiet (.moved (epiFetch_moved opts _ _))
  | wrote hn => exact .quiet (.refl _)
  | retry he => exact .quiet (.refl _)
  | fail he => exact .quiet (.refl _)
  | commit => exact .quiet (.moved (bufCommitW_moved _ _))
  | publish => exact .quiet (.commitWf _ _)

/-- A failure mark leaves the buffer alone. -/
theorem markStep_buf (slot : ℕ) (g : ShrS) (p : MarkPc) : (markStep slot g p).1.buf=g.buf := by
  obtain ⟨_,_,_,he⟩ := markStep_frame slot g p
  rw [he]

/-- `release` leaves the buffer alone. -/
theorem release_buf (slot : ℕ) (g : ShrS) (p : RelPc) : (release slot g p).1.buf=g.buf := by
  obtain ⟨_,_,_,_,_,he⟩ := release_frame (Prod.eta (release slot g p)).symm
  rw [he]

/-- A step that leaves the buffer alone takes no decision. -/
theorem Takes.idle (h : buf'=buf) : Takes buf [] buf' := by
  rw [h]
  exact .quiet (.refl _)

/-- A step of the single process takes the decisions of its position. -/
theorem single_takes {s t : SingleTask.SSys} {a : SingleTask.Act} (hok : BufOk s.shm.buf)
    (h : SingleTask.step opts s a=some t) : Takes s.shm.buf (singleCalls s a) t.shm.buf := by
  cases a with
  | signal =>
    cases h
    exact .idle (markStep_buf _ _ _)
  | task io =>
    rw [singleCalls]
    cases SingleTask.taskStep_cases h with
    | releasing hpc hr =>
      rw [hpc]
      exact .idle ((congrArg (fun out => out.1.buf) hr).symm.trans (markStep_buf _ _ _))
    | released hpc hr =>
      rw [hpc]
      exact .idle ((congrArg (fun out => out.1.buf) hr).symm.trans (markStep_buf _ _ _))
    | rskip hpc hz =>
      rw [hpc]
      exact .canR hok (.refl _)
    | rgrant hpc hz hc =>
      rw [hpc]
      exact .canR hok (.refl _)
    | rfetch hpc =>
      rw [hpc]
      exact .quiet (.moved (bufFetchR_moved _ _))
    | stored hpc hi =>
      rw [hpc]
      exact .quiet (.moved (storeAt_moved _ _ _))
    | data hpc hpos hle =>
      rw [hpc]
      exact .quiet (.moved (storeAt_moved _ _ _))
    | rcommit hpc =>
      rw [hpc]
      exact .quiet (.moved (bufCommitR_moved _ _))
    | rpublish hpc =>
      rw [hpc]
      exact .quiet (.commitRf _ _)
    | wskip hpc hz =>
      rw [hpc]
      exact .canW hok (.refl _)
    | wgrant hpc hz hc =>
      rw [hpc]
      exact .canW hok (.refl _)
    | wfetch hpc =>
      rw [hpc]
      exact .quiet (.moved (bufFetchW_moved _ _))
    | wcommit hpc =>
      rw [hpc]
      exact .quiet (.moved (bufCommitW_moved _ _))
    | wpublish hpc =>
      rw [hpc]
      exact .quiet (.commitWf _ _)
    | epi hpc he =>
      rw [hpc]
      exact EpiStep_takes he hok
    | epiEnd hpc he =>
      rw [hpc]
      exact EpiStep_takes he hok
    | _ hpc =>
      rw [hpc]
      exact .quiet (.refl _)

/-- A step of the reading task takes the decisions of its position. -/
theorem reader_takes {s t : TwoTask.Sys} (hok : BufOk s.shm.buf) (h : TwoTask.RStep s io t) :
    Takes s.shm.buf (pairCalls s (.reader io)) t.shm.buf := by
  rw [pairCalls]
  cases h with
  | releasing hpc hr =>
    rw [hpc]
    exact .idle ((congrArg (fun out => out.1.buf) hr).symm.trans (release_buf _ _ _))
  | released hpc hr =>
    rw [hpc]
    exact .idle ((congrArg (fun out => out.1.buf) hr).symm.trans (release_buf _ _ _))
  | stop hpc hd =>
    simp only [hpc,hd,if_true]
    exact .quiet (.refl _)
  | refuse hpc hd hz =>
    simp only [hpc,hd,Bool.false_eq_true,if_false]
    exact .canR hok (.refl _)
  | grant hpc hd hz =>
    simp only [hpc,hd,Bool.false_eq_true,if_false]
    exact .canR hok (.refl _)
  | fetch hpc =>
    rw [hpc]
    exact .quiet (.moved (bufFetchR_moved _ _))
  | stored hpc hi =>
    rw [hpc]
    exact .quiet (.moved (storeAt_moved _ _ _))
  | data hpc hpos hle =>
    rw [hpc]
    exact .quiet (.moved (storeAt_moved _ _ _))
  | commit hpc =>
    rw [hpc]
    exact .quiet (.moved (bufCommitR_moved _ _))
  | publish hpc hw =>
    simp only [hpc,hw,Bool.false_eq_true,if_false]
    exact .quiet (.commitRf _ _)
  | publishNone hpc hw hz =>
    simp only [hpc,hw,if_true]
    exact .canW (hok.commitRf _) (.commitRf _ _)
  | publishGrant hpc hw hz =>
    simp only [hpc,hw,if_true]
    exact .canW (hok.commitRf _) (.commitRf _ _)
  | _ hpc =>
    rw [hpc]
    exact .quiet (.refl _)

/-- A step of the writing task takes the decisions of its position. -/
theorem writer_takes {s t : TwoTask.Sys} (hok : BufOk s.shm.buf) (h : TwoTask.WStep opts s io t) :
    Takes s.shm.buf (pairCalls s (.writer io)) t.shm.buf := by
  rw [pairCalls]
  cases h with
  | releasing hpc hr =>
    rw [hpc]
    exact .idle ((congrArg (fun out => out.1.buf) hr).symm.trans (release_buf _ _ _))
  | released hpc hr =>
    rw [hpc]
    exact .idle ((congrArg (fun out => out.1.buf) hr).symm.trans (release_buf _ _ _))
  | stop hpc hd =>
    simp only [hpc,hd,if_true]
    exact .quiet (.refl _)
  | refuse hpc hd hz =>
    simp only [hpc,hd,Bool.false_eq_true,if_false]
    exact .canW hok (.refl _)
  | grant hpc hd hz =>
    simp only [hpc,hd,Bool.false_eq_true,if_false]
    exact .canW hok (.refl _)
  | fetch hpc =>
    rw [hpc]
    exact .quiet (.moved (bufFetchW_moved _ _))
  | commit hpc =>
    rw [hpc]
    exact .quiet (.moved (bufCommitW_moved _ _))
  | publish hpc hw =>
    simp only [hpc,hw,Bool.false_eq_true,if_false]
    exact .quiet (.commitWf _ _)
  | publishNone hpc hw hz =>
    simp only [hpc,hw,if_true]
    exact .canR (hok.commitWf _) (.commitWf _ _)
  | publishGrant hpc hw hz =>
    simp only [hpc,hw,if_true]
    exact .canR (hok.commitWf _) (.commitWf _ _)
  | epi hpc he =>
    rw [hpc]
    exact EpiStep_takes he hok
  | epiFail hpc he =>
    rw [hpc]
    exact EpiStep_takes he hok
  | epiEnd hpc he =>
    rw [hpc]
    exact EpiStep_takes he hok
  | _ hpc =>
    rw [hpc]
    exact .quiet (.refl _)

/-- A step of the two tasks takes the decisions of its positions. -/
theorem pair_takes {s t : TwoTask.Sys} {a : TwoTask.Act} (hok : BufOk s.shm.buf)
    (h : TwoTask.step opts s a=some t) : Takes s.shm.buf (pairCalls s a) t.shm.buf := by
  cases a with
  | reader io => exact reader_takes hok (TwoTask.readerStep_cases h)
  | writer io => exact writer_takes hok (TwoTask.writerStep_cases h)
  | signal role =>
    cases h
    exact .idle (markStep_buf _ _ _)
  | relay =>
    cases h
    exact .idle (release_buf _ _ _)

/-- The gates of an accepted configuration. -/
theorem Gates.start (cfg : Config) : Gates cfg.opts [] cfg.buf where
  rsp := cfg.fresh.rsp
  rblk := cfg.fresh.rblk
  wblk := cfg.fresh.wblk
  rstall := fun _ => cfg.fresh.rstall
  wsp := fun _ => cfg.fresh.wsp
  wstall := fun _ hw => cfg.fresh.wstall.trans (decide_eq_true hw)
  drains := fun hm => absurd hm List.not_mem_nil

/-- Whatever steps from an accepted buffer to the next by decisions records a
history that faces the gates. -/
theorem Observed.recorded {σ α : Type*} {step : σ → α → Option σ} {calls : σ → α → List Call}
    {start s : σ} {f : σ → BufS} (h : Observed step calls start log s)
    (h0 : Gates opts [] (f start))
    (hstep : ∀ s a t,Reach step start s → step s a=some t → Takes (f s) (calls s a) (f t)) :
    Gates opts log (f s) ∧ Recorded opts log := by
  induction h with
  | refl => exact ⟨h0,.nil⟩
  | tail hr hs ih => exact (hstep _ _ _ hr.reach hs).recorded ih.1 ih.2

/-- The resume points are respected in every run of every accepted
configuration, by the single process and by the two tasks. -/
theorem resume_points_respected (cfg : Config) (log : List Call) :
    (∀ s,Observed (SingleTask.step cfg.opts) singleCalls (SingleTask.SSys.init cfg.buf) log s →
      Respects cfg.opts log) ∧
    (∀ s,Observed (TwoTask.step cfg.opts) pairCalls (TwoTask.Sys.init cfg.buf) log s →
      Respects cfg.opts log) := by
  constructor
  · intro s h
    have hrec := Observed.recorded (f:=fun s => s.shm.buf) h (Gates.start cfg)
      fun s a t hr hs => single_takes (SingleTask.LoopInv.run cfg hr).ok hs
    exact hrec.2.respects
  · intro s h
    have hrec := Observed.recorded (f:=fun s => s.shm.buf) h (Gates.start cfg)
      fun s a t hr hs => pair_takes (TwoTask.StallInv.run cfg hr).ok hs
    exact hrec.2.respects

end Yancat.ResumePoints
