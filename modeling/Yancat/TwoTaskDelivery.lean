import Yancat.TwoTaskStream

/-!
# How the two tasks end

The writing task ends on an aborted transfer, on a logged write failure, or
with an empty buffer behind a closed reader. In a run in which opens and
writes succeed and nobody signals, only a failed read aborts.
-/

namespace Yancat.TwoTask

open Buffer Setup Shared Transition FailureFlags ByteStream

/-- What a position of the writing task knows of the buffer it leaves
behind. -/
def WDrains (g : ShrS) (t : Trace) : WPc → Prop
  | .epi p => EpiDrains g.buf p
  | .errLog => t.wfail=true
  | .ended => g.abrt=true ∨ (t.wfail=true ∧ Logged g) ∨ fill g.buf=0
  | _ => True

variable {opts : OptionsS} {full : Bool} {s t : Sys} {g g' : ShrS} {tr tr' : Trace} {io : Io}
  {a : Act}

/-- The knowledge survives raised flags and an untouched buffer. -/
theorem WDrains.mono {wpc : WPc} (h : WDrains g tr wpc) (hr : Raised g g') (hb : g'.buf=g.buf)
    (hw : tr'.wfail=tr.wfail) : WDrains g' tr' wpc := by
  cases wpc with
  | epi p =>
    change EpiDrains g'.buf p
    rw [hb]
    exact h
  | errLog => exact hw.trans h
  | ended =>
    rcases h with h|⟨h,hl⟩|h
    · exact .inl (hr.abrt h)
    · exact .inr (.inl ⟨hw.trans h,hl.mono hr⟩)
    · exact .inr (.inr (by rw [hb]; exact h))
  | _ => trivial

/-- Behind an ended writer the reader has closed, unless the transfer was
aborted. -/
theorem FlagInv.ended_closed (hi : FlagInv s) (hpc : s.wpc=.ended) (ha : s.shm.abrt=false) :
    s.rpc.closed=true := by
  have hw := hi.writer
  rw [hpc] at hw
  exact (hi.done hw.1).resolve_left (by rw [ha]; exact Bool.false_ne_true)

/-- The knowledge survives the reading task. -/
theorem WDrains.reader_step (hd : WDrains s.shm s.tr s.wpc) (hf : FlagInv s) (h : RStep s io t) :
    WDrains t.shm t.tr t.wpc := by
  have hr := h.raised
  have hw := h.wfail
  rw [h.wpc]
  have hclosed : s.rpc.closed=true → WDrains t.shm t.tr s.wpc := fun hc => by
    obtain ⟨_,rfl⟩ := h.of_closed hc
    exact hd.mono hr rfl rfl
  cases hpc : s.wpc with
  | epi p =>
    have hwr := hf.writer
    rw [hpc] at hwr hclosed
    exact hclosed hwr.2
  | errLog =>
    rw [hpc] at hd
    exact hw.trans hd
  | ended =>
    cases ha : s.shm.abrt with
    | true => exact .inl (hr.abrt ha)
    | false =>
      rw [hpc] at hclosed
      exact hclosed (hf.ended_closed hpc ha)
  | _ => trivial

/-- The knowledge is established by the writing task. -/
theorem WDrains.writer_step (hd : WDrains s.shm s.tr s.wpc) (hok : BufOk s.shm.buf)
    (hf : FlagInv s) (h : WStep opts s io t) : WDrains t.shm t.tr t.wpc := by
  have hwr := hf.writer
  cases h with
  | released hpc hr =>
    rw [hpc] at hwr
    exact .inl (release_last hwr hr).2.1
  | skip hpc ha => exact .inl ha
  | enter hpc ha => trivial
  | epi hpc he =>
    rw [hpc] at hd
    exact he.draining hok hd
  | epiFail hpc he => exact he.wfail.trans (Bool.or_true _)
  | epiEnd hpc he =>
    rw [hpc] at hd
    exact .inr (.inr (he.draining hok hd rfl))
  | errLog hpc =>
    rw [hpc] at hd
    exact .inr (.inl ⟨hd,Logged.log s.shm (by decide)⟩)
  | retry hpc he => exact hd
  | _ => trivial

/-- The writing task's knowledge holds in every state of every run. -/
theorem WDrains.run (cfg : Config) {ok : Sys → Act → Prop}
    (h : Run (step opts) ok (Sys.init cfg.buf) s) : WDrains s.shm s.tr s.wpc := by
  have h0 : WDrains (Sys.init cfg.buf).shm (Sys.init cfg.buf).tr (Sys.init cfg.buf).wpc := trivial
  refine h.invariant_of (J:=fun s => FlagInv s ∧ StallInv s)
    (I:=fun s => WDrains s.shm s.tr s.wpc)
    (fun _ hr => ⟨FlagInv.run hr,StallInv.run cfg hr⟩) h0 ?_
  rintro s a t ⟨hf,hs⟩ _ hd _ hst
  cases a with
  | reader io => exact hd.reader_step hf (readerStep_cases hst)
  | writer io => exact hd.writer_step hs.ok hf (writerStep_cases hst)
  | signal role =>
    obtain ⟨p,g,next,_,hm,hsig⟩ := hf.signal_cases role
    have hr := markStep_raised (errSig+role.idx) s.shm p
    obtain ⟨_,_,_,hg⟩ := markStep_frame (errSig+role.idx) s.shm p
    rw [hm] at hr hg
    dsimp only at hr hg
    have hb : g.buf=s.shm.buf := by rw [hg]
    cases hst
    rw [hsig]
    exact hd.mono hr hb rfl
  | relay =>
    obtain ⟨p,g,next,hok,hrel,hs⟩ := hf.relay_cases
    have hr := release_raised hrel
    cases hst
    rw [hs]
    obtain ⟨_,_,_,_,_,rfl⟩ := release_frame hrel
    exact hd.mono hr rfl rfl

/-- Nothing disturbs the two tasks: their calls succeed and nobody signals. -/
def undisturbed (_ : Sys) : Act → Prop
  | .reader io => io.calm=true
  | .writer io => io.calm=true
  | _ => False

/-- Opens and writes succeed and nobody signals. -/
def onlyReadsFail (_ : Sys) : Act → Prop
  | .reader io => io.delivers=true
  | .writer io => io.delivers=true
  | _ => False

instance onlyReadsFail.decidable : ∀ s a,Decidable (onlyReadsFail s a)
  | _,.reader io => inferInstanceAs (Decidable (io.delivers=true))
  | _,.writer io => inferInstanceAs (Decidable (io.delivers=true))
  | _,.signal _ => inferInstanceAs (Decidable False)
  | _,.relay => inferInstanceAs (Decidable False)

/-- Where calls succeed, opens and writes do. -/
theorem undisturbed_onlyReadsFail (s : Sys) (a : Act) (h : undisturbed s a) :
    onlyReadsFail s a := by
  cases a with
  | reader io => exact Io.calm_delivers h
  | writer io => exact Io.calm_delivers h
  | _ => exact h

/-- The reading task has left its loop, and touches the buffer no more. -/
def RPc.leaving : RPc → Bool
  | .outDone => true
  | .outPost => true
  | .ended => true
  | _ => false

/-- The writing task is on the way out of a failure. -/
def WPc.failing : WPc → Bool
  | .releasing _ => true
  | .outLog => true
  | .outAbrt => true
  | .outDone => true
  | .errLog => true
  | _ => false

/-- What a position of the reading task means where only reads fail. -/
def ReaderClean (t : Trace) : RPc → Prop
  | .releasing _ => False
  | .outLog => t.rfail=true
  | .outAbrt => t.rfail=true
  | _ => True

/-- The invariant of a run in which only reads fail. -/
structure CleanInv (s : Sys) : Prop where
  /-- No write failed. -/
  wfail : s.tr.wfail=false
  /-- The reading task. -/
  reader : ReaderClean s.tr s.rpc
  /-- The writing task. -/
  writer : s.wpc.failing=false
  /-- Only a failed read aborts, and the reader has left then. -/
  abrt : s.shm.abrt=true → s.tr.rfail=true ∧ s.rpc.leaving=true

/-- A leaving reader stays so and changes nothing of the stream. -/
theorem RStep.of_leaving (h : RStep s io t) (hl : s.rpc.leaving=true) :
    t.rpc.leaving=true ∧ t.tr=s.tr ∧ t.shm.buf=s.shm.buf ∧ t.shm.abrt=s.shm.abrt := by
  cases h with
  | outDone hpc => exact ⟨rfl,rfl,rfl,rfl⟩
  | outPost hpc => exact ⟨rfl,rfl,rfl,rfl⟩
  | _ hpc =>
    rw [hpc] at hl
    cases hl

/-- The invariant is kept by the reading task. -/
theorem CleanInv.reader_step (hi : CleanInv s) (hd : io.delivers=true) (h : RStep s io t) :
    CleanInv t := by
  obtain ⟨hwf,hrd,hwr,hab⟩ := hi
  by_cases hl : s.rpc.leaving=true
  · obtain ⟨h1,h2,_,h4⟩ := h.of_leaving hl
    refine ⟨by rw [h2]; exact hwf,?_,by rw [h.wpc]; exact hwr,fun ha => ?_⟩
    · cases hpc : t.rpc with
      | releasing p => rw [hpc] at h1; cases h1
      | outLog => rw [hpc] at h1; cases h1
      | outAbrt => rw [hpc] at h1; cases h1
      | _ => trivial
    · rw [h2]
      exact ⟨(hab (h4.symm.trans ha)).1,h1⟩
  · have hno : ∀ {P : Prop},s.shm.abrt=true → P := fun ha => absurd (hab ha).2 hl
    cases h with
    | unopened hpc => cases hd
    | releasing hpc hr =>
      rw [hpc] at hrd
      exact hrd.elim
    | released hpc hr =>
      rw [hpc] at hrd
      exact hrd.elim
    | stored hpc hlt => exact ⟨hwf,hrd,hwr,hno⟩
    | retry hpc he => exact ⟨hwf,hrd,hwr,hab⟩
    | fail hpc he => exact ⟨hwf,rfl,hwr,hno⟩
    | outLog hpc =>
      rw [hpc] at hrd
      exact ⟨hwf,hrd,hwr,hno⟩
    | outAbrt hpc =>
      rw [hpc] at hrd
      exact ⟨hwf,trivial,hwr,fun _ => ⟨hrd,rfl⟩⟩
    | _ hpc => exact ⟨hwf,trivial,hwr,hno⟩

/-- The invariant is kept by a step of the epilogue that does not fail. -/
theorem CleanInv.epi {p : EpiPc} {q : EpiPc⊕Bool} {w : WPc} (hi : CleanInv s)
    (he : EpiStep opts s.shm s.tr p io g tr q) (hq : q.elim (fun _ => false) id=false)
    (hw : w.failing=false) : CleanInv {s with shm := g,tr := tr,wpc := w} := by
  obtain ⟨⟨_,ha,_⟩,_,hf⟩ := he.flags
  have hwf := he.wfail
  rw [hi.wfail,hq] at hwf
  refine ⟨hwf,?_,hw,fun h => ?_⟩
  · have hrd := hi.reader
    change ReaderClean tr s.rpc
    cases hpc : s.rpc with
    | releasing p => rw [hpc] at hrd; exact hrd
    | outLog => rw [hpc] at hrd; exact hf.trans hrd
    | outAbrt => rw [hpc] at hrd; exact hf.trans hrd
    | _ => trivial
  · obtain ⟨h1,h2⟩ := hi.abrt (ha.symm.trans h)
    exact ⟨hf.trans h1,h2⟩

/-- The invariant is kept by the writing task. -/
theorem CleanInv.writer_step (hi : CleanInv s) (hd : io.delivers=true) (h : WStep opts s io t) :
    CleanInv t := by
  have hkeep := hi
  obtain ⟨hwf,hrd,hwr,hab⟩ := hi
  cases h with
  | unopened hpc => cases hd
  | fail hpc he => cases hd
  | releasing hpc hr =>
    rw [hpc] at hwr
    cases hwr
  | released hpc hr =>
    rw [hpc] at hwr
    cases hwr
  | outLog hpc =>
    rw [hpc] at hwr
    cases hwr
  | outAbrt hpc =>
    rw [hpc] at hwr
    cases hwr
  | outDone hpc =>
    rw [hpc] at hwr
    cases hwr
  | errLog hpc =>
    rw [hpc] at hwr
    cases hwr
  | retry hpc he => exact ⟨hwf,hrd,hwr,hab⟩
  | epi hpc he => exact hkeep.epi he rfl rfl
  | epiFail hpc he => cases he.failed.symm.trans hd
  | epiEnd hpc he => exact hkeep.epi he rfl rfl
  | _ hpc => exact ⟨hwf,hrd,rfl,hab⟩

/-- The invariant holds in every state of every run in which only reads
fail. -/
theorem CleanInv.run {buf : BufS} {ok : Sys → Act → Prop}
    (hok : ∀ s a,ok s a → onlyReadsFail s a) (h : Run (step opts) ok (Sys.init buf) s) :
    CleanInv s := by
  refine h.invariant ⟨rfl,trivial,rfl,nofun⟩ fun s a t hi ha hs => ?_
  have hd := hok s a ha
  cases a with
  | reader io => exact hi.reader_step hd (readerStep_cases hs)
  | writer io => exact hi.writer_step hd (writerStep_cases hs)
  | signal role => exact hd.elim
  | relay => exact hd.elim

/-- Where calls succeed, no read is recorded as failed. -/
theorem RStep.calm_rfail (h : RStep s io t) (hc : io.calm=true) : t.tr.rfail=s.tr.rfail := by
  cases h with
  | fail hpc he => cases hc
  | _ => rfl

/-- An undisturbed run is never aborted. -/
theorem undisturbed_run {buf : BufS} {ok : Sys → Act → Prop}
    (hok : ∀ s a,ok s a → undisturbed s a) (h : Run (step opts) ok (Sys.init buf) s) :
    s.shm.abrt=false := by
  have hrf : s.tr.rfail=false := by
    refine h.invariant (I:=fun s => s.tr.rfail=false) rfl fun s a t hi ha hs => ?_
    have hd := hok s a ha
    cases a with
    | reader io => exact ((readerStep_cases hs).calm_rfail hd).trans hi
    | writer io => exact (writerStep_cases hs).rfail.trans hi
    | signal role => exact hd.elim
    | relay => exact hd.elim
  have hi := CleanInv.run (fun s a ha => undisturbed_onlyReadsFail s a (hok s a ha)) h
  exact Bool.eq_false_of_not_eq_true fun ha => Bool.false_ne_true (hrf.symm.trans (hi.abrt ha).1)

end Yancat.TwoTask
