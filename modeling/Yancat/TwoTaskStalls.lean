import Yancat.BufferData
import Yancat.TwoTaskHands

/-!
# Stall flags, waits and the absence of deadlock

A task that waits unanswered was refused by its decision function, and the
buffer has been in a refusing state ever since. A task that holds a grant
keeps its stall flag down until it commits, so that the two flags are never up
together between the resume points. Both decisions can therefore not refuse at
the same time, which with the hand-over invariant leaves no state in which
nothing moves.
-/

namespace Yancat.TwoTask

open Buffer Setup Shared Transition FailureFlags Handover

/-- The reading task holds a grant, taken or still to be picked up. -/
@[simp] def RPc.engaged (mwait : Bool) : RPc → Bool
  | .wait => !mwait
  | .woken => !mwait
  | .take => true
  | .fetch _ => true
  | .reading _ _ => true
  | .commit _ => true
  | .relock _ => true
  | .publish _ => true
  | _ => false

/-- The writing task holds a grant, taken or still to be picked up. -/
@[simp] def WPc.engaged (swait : Bool) : WPc → Bool
  | .wait => !swait
  | .woken => !swait
  | .take => true
  | .fetch _ => true
  | .writing _ _ => true
  | .commit _ => true
  | .relock _ => true
  | .publish _ => true
  | _ => false

/-- The writing task is in its epilogue or past it. -/
@[simp] def WPc.drains : WPc → Bool
  | .epi _ => true
  | .errLog => true
  | .ended => true
  | _ => false

/-- The stall invariant. -/
structure StallInv (s : Sys) : Prop where
  /-- The geometry. -/
  ok : BufOk s.shm.buf
  /-- An unanswered reader is refused. -/
  refR : s.rpc=.wait → s.shm.mwait=true → RefusesR s.shm.buf
  /-- An unanswered writer is refused. -/
  refW : s.wpc=.wait → s.shm.swait=true → RefusesW s.shm.buf
  /-- A reader with a grant is not stalled. -/
  runR : s.rpc.engaged s.shm.mwait=true → s.shm.buf.rstall=false
  /-- A writer with a grant is not stalled. -/
  runW : s.wpc.engaged s.shm.swait=true → s.shm.buf.wstall=false
  /-- Until the epilogue the two flags are apart. -/
  apart : s.wpc.drains=false → Apart s.shm.buf

variable {opts : OptionsS} {s t : Sys} {io : Io} {a : Act}

/-- A step that moves no index and begins no wait or grant. -/
theorem StallInv.quiet (hi : StallInv s) (hm : Moved s.shm.buf t.shm.buf)
    (hr : t.rpc=.wait → t.shm.mwait=true → s.rpc=.wait ∧ s.shm.mwait=true)
    (hw : t.wpc=.wait → t.shm.swait=true → s.wpc=.wait ∧ s.shm.swait=true)
    (er : t.rpc.engaged t.shm.mwait=true → s.rpc.engaged s.shm.mwait=true)
    (ew : t.wpc.engaged t.shm.swait=true → s.wpc.engaged s.shm.swait=true)
    (hd : t.wpc.drains=false → s.wpc.drains=false) : StallInv t := by
  have hok := hm.ok hi.ok
  obtain ⟨_,_,_,_,_,_,_,_,hb⟩ := hm
  refine ⟨hok,fun h1 h2 => ?_,fun h1 h2 => ?_,fun h1 => ?_,fun h1 => ?_,fun h1 => ?_⟩ <;> rw [hb]
  · exact hi.refR (hr h1 h2).1 (hr h1 h2).2
  · exact hi.refW (hw h1 h2).1 (hw h1 h2).2
  · exact hi.runR (er h1)
  · exact hi.runW (ew h1)
  · exact hi.apart (hd h1)

/-- A reader that waits unanswered, or has left, holds no grant. -/
theorem HandInv.idleR (hh : HandInv s) (hm : s.shm.mwait=true) :
    s.rpc.engaged s.shm.mwait=false := by
  have haway := hh.reader.away
  cases hpc : s.rpc <;> simp_all [sideR]

/-- A writer that waits unanswered, or has left, holds no grant. -/
theorem HandInv.idleW (hh : HandInv s) (hm : s.shm.swait=true) :
    s.wpc.engaged s.shm.swait=false := by
  have haway := hh.writer.away
  cases hpc : s.wpc <;> simp_all [sideW]

/-- The stall invariant is kept by the reading task. -/
theorem StallInv.reader_step (hi : StallInv s) (hh : HandInv s) (h : RStep s io t) :
    StallInv t := by
  have hok := hi.ok
  cases h with
  | releasing hpc hr =>
    obtain ⟨_,_,_,_,_,rfl⟩ := release_frame hr
    exact hi.quiet (.refl _) nofun And.intro nofun id id
  | released hpc hr =>
    obtain ⟨_,_,_,_,_,rfl⟩ := release_frame hr
    exact hi.quiet (.refl _) nofun And.intro nofun id id
  | refuse hpc hd hz =>
    obtain ⟨st,hs⟩ := bufCanR_snd s.shm.buf
    refine ⟨hok.canR,fun _ _ => hok.refusesR hz,fun h1 h2 => ?_,nofun,fun h1 => ?_,
      fun h1 => hok.canR_apart (hi.apart h1)⟩
    · rw [hs]
      exact hi.refW h1 h2
    · rw [hs]
      exact hi.runW h1
  | grant hpc hd hz =>
    obtain ⟨st,hs⟩ := bufCanR_snd s.shm.buf
    refine ⟨hok.canR,nofun,fun h1 h2 => ?_,fun _ => bufCanR_unstalled hz,fun h1 => ?_,
      fun h1 => hok.canR_apart (hi.apart h1)⟩
    · rw [hs]
      exact hi.refW h1 h2
    · rw [hs]
      exact hi.runW h1
  | wake hpc hn =>
    exact hi.quiet (.refl _) nofun And.intro (by rw [hpc]; exact id) id id
  | resume hpc hd =>
    have hdown := hh.resumedR hpc hd
    exact hi.quiet (.refl _) nofun And.intro (fun _ => by simp [hpc,hdown]) id id
  | fetch hpc =>
    exact hi.quiet (bufFetchR_moved _ _) nofun And.intro (fun _ => by simp [hpc]) id id
  | stored hpc hlt =>
    exact hi.quiet (storeAt_moved _ _ _) And.intro And.intro id id id
  | data hpc hpos hle =>
    exact hi.quiet (storeAt_moved _ _ _) nofun And.intro (fun _ => by simp [hpc]) id id
  | retry hpc he => exact hi
  | commit hpc =>
    exact hi.quiet (bufCommitR_moved _ _) nofun And.intro (fun _ => by simp [hpc]) id id
  | @publish n hpc hw =>
    have hrun := hi.runR (by simp [hpc])
    have hc := hok.commitRf n
    refine ⟨hc,nofun,fun _ h2 => ?_,nofun,hi.runW,fun _ h1 => ?_⟩
    · rw [hw] at h2
      cases h2
    · exact absurd (hrun.symm.trans h1) Bool.false_ne_true
  | @publishNone n hpc hw hz =>
    have hrun := hi.runR (by simp [hpc])
    have hc := hok.commitRf n
    have hidle := hh.idleW hw
    obtain ⟨st,hs⟩ := bufCanW_snd (bufCommitRf s.shm.buf n)
    refine ⟨hc.canW,nofun,fun _ _ => hc.refusesW hz,nofun,fun h1 => ?_,fun _ h1 => ?_⟩
    · exact absurd (hidle.symm.trans h1) Bool.false_ne_true
    · rw [hs] at h1
      exact absurd (hrun.symm.trans h1) Bool.false_ne_true
  | @publishGrant n hpc hw hz =>
    have hrun := hi.runR (by simp [hpc])
    have hc := hok.commitRf n
    obtain ⟨st,hs⟩ := bufCanW_snd (bufCommitRf s.shm.buf n)
    refine ⟨hc.canW,nofun,nofun,nofun,fun _ => bufCanW_unstalled hz,fun _ h1 => ?_⟩
    rw [hs] at h1
    exact absurd (hrun.symm.trans h1) Bool.false_ne_true
  | _ hpc =>
    exact hi.quiet (.refl _) nofun And.intro (fun _ => by simp_all) id id

/-- Inside the epilogue and after it only the geometry matters. -/
theorem StallInv.epi {p : EpiPc} {q : EpiPc⊕Bool} {g : ShrS} {tr : Trace} (hi : StallInv s)
    (hf : FlagInv s) (hpc : s.wpc=.epi p) (he : EpiStep opts s.shm s.tr p io g tr q) {w : WPc}
    (hd : w.drains=true) : StallInv {s with shm := g,tr := tr,wpc := w} := by
  have hw := hf.writer
  rw [hpc] at hw
  have hcl := RPc.closed_iff.mp hw.2
  obtain ⟨_,_,hg⟩ := he.frame
  refine ⟨he.ok hi.ok,fun h1 => ?_,fun h1 => ?_,fun h1 => ?_,fun h1 => ?_,fun h1 => ?_⟩
  · rcases hcl with hc|hc <;> cases h1.symm.trans hc
  · have hw1 : w=.wait := h1
    rw [hw1] at hd
    cases hd
  · rcases hcl with hc|hc <;> simp [hc] at h1
  · cases w <;> simp at hd h1
  · exact absurd (hd.symm.trans h1) (by decide)

/-- The stall invariant is kept by the writing task. -/
theorem StallInv.writer_step (hi : StallInv s) (hf : FlagInv s) (hh : HandInv s)
    (h : WStep opts s io t) : StallInv t := by
  have hok := hi.ok
  cases h with
  | releasing hpc hr =>
    obtain ⟨_,_,_,_,_,rfl⟩ := release_frame hr
    exact hi.quiet (.refl _) And.intro nofun id nofun (by simp [hpc])
  | released hpc hr =>
    obtain ⟨_,_,_,_,_,rfl⟩ := release_frame hr
    exact hi.quiet (.refl _) And.intro nofun id nofun (by simp)
  | refuse hpc hd hz =>
    obtain ⟨st,hs⟩ := bufCanW_snd s.shm.buf
    refine ⟨hok.canW,fun h1 h2 => ?_,fun _ _ => hok.refusesW hz,fun h1 => ?_,nofun,
      fun _ => hok.canW_apart (hi.apart (by simp [hpc]))⟩
    · rw [hs]
      exact hi.refR h1 h2
    · rw [hs]
      exact hi.runR h1
  | grant hpc hd hz =>
    obtain ⟨st,hs⟩ := bufCanW_snd s.shm.buf
    refine ⟨hok.canW,fun h1 h2 => ?_,nofun,fun h1 => ?_,fun _ => bufCanW_unstalled hz,
      fun _ => hok.canW_apart (hi.apart (by simp [hpc]))⟩
    · rw [hs]
      exact hi.refR h1 h2
    · rw [hs]
      exact hi.runR h1
  | wake hpc hn =>
    exact hi.quiet (.refl _) And.intro nofun id (by rw [hpc]; exact id) (by simp [hpc])
  | resume hpc hd =>
    have hdown := hh.resumedW hpc hd
    exact hi.quiet (.refl _) And.intro nofun id (fun _ => by simp [hpc,hdown])
      (by simp [hpc])
  | fetch hpc =>
    exact hi.quiet (bufFetchW_moved _ _) And.intro nofun id (fun _ => by simp [hpc])
      (by simp [hpc])
  | retry hpc he => exact hi
  | commit hpc =>
    exact hi.quiet (bufCommitW_moved _ _) And.intro nofun id (fun _ => by simp [hpc])
      (by simp [hpc])
  | @publish n hpc hw =>
    have hrun := hi.runW (by simp [hpc])
    have hc := hok.commitWf n
    refine ⟨hc,fun _ h2 => ?_,nofun,hi.runR,nofun,fun _ _ h1 => ?_⟩
    · rw [hw] at h2
      cases h2
    · exact absurd (hrun.symm.trans h1) Bool.false_ne_true
  | @publishNone n hpc hw hz =>
    have hrun := hi.runW (by simp [hpc])
    have hc := hok.commitWf n
    have hidle := hh.idleR hw
    obtain ⟨st,hs⟩ := bufCanR_snd (bufCommitWf s.shm.buf n)
    refine ⟨hc.canR,fun _ _ => hc.refusesR hz,nofun,fun h1 => ?_,nofun,fun _ _ h1 => ?_⟩
    · exact absurd (hidle.symm.trans h1) Bool.false_ne_true
    · rw [hs] at h1
      exact absurd (hrun.symm.trans h1) Bool.false_ne_true
  | @publishGrant n hpc hw hz =>
    have hrun := hi.runW (by simp [hpc])
    have hc := hok.commitWf n
    obtain ⟨st,hs⟩ := bufCanR_snd (bufCommitWf s.shm.buf n)
    refine ⟨hc.canR,nofun,nofun,fun _ => bufCanR_unstalled hz,nofun,fun _ _ h1 => ?_⟩
    rw [hs] at h1
    exact absurd (hrun.symm.trans h1) Bool.false_ne_true
  | epi hpc he => exact hi.epi hf hpc he rfl
  | epiFail hpc he => exact hi.epi hf hpc he rfl
  | epiEnd hpc he => exact hi.epi hf hpc he rfl
  | _ hpc =>
    exact hi.quiet (.refl _) And.intro nofun id (fun _ => by simp_all) (by simp [hpc])

/-- The stall invariant holds in every state of every run. -/
theorem StallInv.run (cfg : Config) {ok : Sys → Act → Prop}
    (h : Run (TwoTask.step opts) ok (Sys.init cfg.buf) s) : StallInv s := by
  have h0 : StallInv (Sys.init cfg.buf) := by
    refine ⟨cfg.ok,nofun,nofun,nofun,nofun,fun _ hr => ?_⟩
    rw [show (Sys.init cfg.buf).shm.buf=cfg.buf from rfl,cfg.fresh.rstall] at hr
    cases hr
  refine h.invariant_of (J:=fun s => FlagInv s ∧ HandInv s)
    (fun _ hr => ⟨FlagInv.run hr,HandInv.run hr⟩) h0 ?_
  rintro s a t ⟨hf,hh⟩ _ hi _ hs
  cases a with
  | reader io => exact hi.reader_step hh (readerStep_cases hs)
  | writer io => exact hi.writer_step hf hh (writerStep_cases hs)
  | _ =>
    obtain ⟨_,_,_,_,_,_,_,rfl,_⟩ := hf.aside hs rfl
    exact hi.quiet (.refl _) And.intro And.intro id id id

end Yancat.TwoTask
