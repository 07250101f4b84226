import Yancat.TwoTaskStalls

/-!
# Mutual exclusion and progress

The mutex is held exactly at the positions inside a section, so a task that
cannot enter faces one that can move. Together with the hand-over and the
stall invariants this leaves no stuck state.
-/

namespace Yancat.TwoTask

open Buffer Setup Shared Transition FailureFlags Handover

/-- The positions of the reading task inside a mutex section. -/
@[simp] def RPc.holds : RPc → Bool
  | .top => true
  | .publish _ => true
  | .post => true
  | _ => false

/-- The positions of the writing task inside a mutex section. -/
@[simp] def WPc.holds : WPc → Bool
  | .top => true
  | .publish _ => true
  | .post => true
  | _ => false

/-- The mutex is held exactly inside the sections. -/
structure MutexInv (s : Sys) : Prop where
  /-- By the reading task. -/
  reader : s.shm.vars=some .reader ↔ s.rpc.holds=true
  /-- By the writing task. -/
  writer : s.shm.vars=some .writer ↔ s.wpc.holds=true
  /-- By nobody else. -/
  other : s.shm.vars=none ∨ s.shm.vars=some .reader ∨ s.shm.vars=some .writer

variable {opts : OptionsS} {s t : Sys} {io : Io} {a : Act}

/-- Mutual exclusion is kept by the reading task. -/
theorem MutexInv.reader_step (hi : MutexInv s) (h : RStep s io t) : MutexInv t := by
  obtain ⟨hr,hw,ho⟩ := hi
  cases h with
  | releasing hpc hrel =>
    obtain ⟨_,_,_,_,_,rfl⟩ := release_frame hrel
    constructor <;> simp_all
  | released hpc hrel =>
    obtain ⟨_,_,_,_,_,rfl⟩ := release_frame hrel
    constructor <;> simp_all
  | retry => exact ⟨hr,hw,ho⟩
  | stored => exact ⟨hr,hw,ho⟩
  | _ hpc => constructor <;> simp_all

/-- Mutual exclusion is kept by the writing task. -/
theorem MutexInv.writer_step (hi : MutexInv s) (h : WStep opts s io t) : MutexInv t := by
  obtain ⟨hr,hw,ho⟩ := hi
  cases h with
  | releasing hpc hrel =>
    obtain ⟨_,_,_,_,_,rfl⟩ := release_frame hrel
    constructor <;> simp_all
  | released hpc hrel =>
    obtain ⟨_,_,_,_,_,rfl⟩ := release_frame hrel
    constructor <;> simp_all
  | retry => exact ⟨hr,hw,ho⟩
  | epi hpc he =>
    obtain ⟨_,_,rfl⟩ := EpiStep.frame he
    constructor <;> simp_all
  | epiFail hpc he =>
    obtain ⟨_,_,rfl⟩ := EpiStep.frame he
    constructor <;> simp_all
  | epiEnd hpc he =>
    obtain ⟨_,_,rfl⟩ := EpiStep.frame he
    constructor <;> simp_all
  | _ hpc => constructor <;> simp_all

/-- Mutual exclusion holds in every state of every run. -/
theorem MutexInv.run {buf : BufS} {ok : Sys → Act → Prop}
    (h : Run (TwoTask.step opts) ok (Sys.init buf) s) : MutexInv s := by
  have h0 : MutexInv (Sys.init buf) :=
    ⟨by simp [Sys.init,ShrS.init],by simp [Sys.init,ShrS.init],.inl rfl⟩
  refine h.invariant_of (fun _ hr => FlagInv.run hr) h0 ?_
  intro s a t hf _ hi _ hs
  cases a with
  | reader io => exact hi.reader_step (readerStep_cases hs)
  | writer io => exact hi.writer_step (writerStep_cases hs)
  | _ =>
    obtain ⟨_,_,_,_,_,_,_,rfl,_⟩ := hf.aside hs rfl
    exact ⟨hi.reader,hi.writer,hi.other⟩

/-- The reading task can take a step. -/
def ReaderEnabled (s : Sys) : Prop := ∃ io t,readerStep s io=some t

/-- The writing task can take a step. -/
def WriterEnabled (opts : OptionsS) (s : Sys) : Prop := ∃ io t,writerStep opts s io=some t

/-- Where the reading task can be without a step of its own. -/
theorem readerEnabled_or (s : Sys) :
    ReaderEnabled s ∨ s.rpc=.ended ∨ (s.rpc=.wait ∧ s.shm.nospace=0) ∨
      (s.rpc.holds=false ∧ s.shm.vars≠none) := by
  unfold ReaderEnabled
  cases hpc : s.rpc with
  | opening => exact .inl ⟨.opened true,by simp [readerStep,hpc]⟩
  | lock =>
    by_cases hv : s.shm.vars=none
    · exact .inl ⟨.tau,by simp [readerStep,hpc,hv]⟩
    · exact .inr (.inr (.inr ⟨rfl,hv⟩))
  | relock n =>
    by_cases hv : s.shm.vars=none
    · exact .inl ⟨.tau,by simp [readerStep,hpc,hv]⟩
    · exact .inr (.inr (.inr ⟨rfl,hv⟩))
  | wait =>
    rcases Nat.eq_zero_or_pos s.shm.nospace with hz|hn
    · exact .inr (.inr (.inl ⟨rfl,hz⟩))
    · exact .inl ⟨.tau,by simp [readerStep,hpc,hn]⟩
  | top =>
    refine .inl ⟨.tau,?_⟩
    simp only [readerStep,hpc]
    split
    · exact ⟨_,rfl⟩
    · split <;> exact ⟨_,rfl⟩
  | woken =>
    refine .inl ⟨.tau,?_⟩
    simp only [readerStep,hpc]
    split <;> exact ⟨_,rfl⟩
  | publish n =>
    refine .inl ⟨.tau,?_⟩
    simp only [readerStep,hpc]
    split
    · split <;> exact ⟨_,rfl⟩
    · exact ⟨_,rfl⟩
  | reading p siz => exact .inl ⟨.eof,by simp [readerStep,hpc]⟩
  | ended => exact .inr (.inl rfl)
  | _ => exact .inl ⟨.tau,by simp [readerStep,hpc]⟩

/-- The epilogue can always go on. -/
theorem epi_enabled (opts : OptionsS) (g : ShrS) (t : Trace) (p : EpiPc) :
    ∃ io r,transferWriterEpi opts io g t p=some r := by
  cases p with
  | top =>
    refine ⟨.tau,?_⟩
    simp only [transferWriterEpi]
    split <;> exact ⟨_,rfl⟩
  | writing p siz pad => exact ⟨.wrote 0,by simp [transferWriterEpi]⟩
  | _ => exact ⟨.tau,by simp [transferWriterEpi]⟩

/-- Where the writing task can be without a step of its own. -/
theorem writerEnabled_or (opts : OptionsS) (s : Sys) :
    WriterEnabled opts s ∨ s.wpc=.ended ∨ (s.wpc=.wait ∧ s.shm.nodata=0) ∨
      (s.wpc.holds=false ∧ s.shm.vars≠none) := by
  unfold WriterEnabled
  cases hpc : s.wpc with
  | opening => exact .inl ⟨.opened true,by simp [writerStep,hpc]⟩
  | lock =>
    by_cases hv : s.shm.vars=none
    · exact .inl ⟨.tau,by simp [writerStep,hpc,hv]⟩
    · exact .inr (.inr (.inr ⟨rfl,hv⟩))
  | relock n =>
    by_cases hv : s.shm.vars=none
    · exact .inl ⟨.tau,by simp [writerStep,hpc,hv]⟩
    · exact .inr (.inr (.inr ⟨rfl,hv⟩))
  | wait =>
    rcases Nat.eq_zero_or_pos s.shm.nodata with hz|hn
    · exact .inr (.inr (.inl ⟨rfl,hz⟩))
    · exact .inl ⟨.tau,by simp [writerStep,hpc,hn]⟩
  | top =>
    refine .inl ⟨.tau,?_⟩
    simp only [writerStep,hpc]
    split
    · exact ⟨_,rfl⟩
    · split <;> exact ⟨_,rfl⟩
  | woken =>
    refine .inl ⟨.tau,?_⟩
    simp only [writerStep,hpc]
    split <;> exact ⟨_,rfl⟩
  | publish n =>
    refine .inl ⟨.tau,?_⟩
    simp only [writerStep,hpc]
    split
    · split <;> exact ⟨_,rfl⟩
    · exact ⟨_,rfl⟩
  | writing p siz => exact .inl ⟨.wrote 0,by simp [writerStep,hpc]⟩
  | chkAbrt =>
    refine .inl ⟨.tau,?_⟩
    simp only [writerStep,hpc]
    split <;> exact ⟨_,rfl⟩
  | epi p =>
    obtain ⟨io,⟨g,t,next⟩,he⟩ := epi_enabled opts s.shm s.tr p
    refine .inl ⟨io,?_⟩
    cases next with
    | inl q => simp [writerStep,hpc,he]
    | inr failed => simp [writerStep,hpc,he]
  | ended => exact .inr (.inl rfl)
  | _ => exact .inl ⟨.tau,by simp [writerStep,hpc]⟩

/-- A task that cannot enter a section faces one that can move. -/
theorem MutexInv.enabled (hi : MutexInv s) (hv : s.shm.vars≠none) :
    ReaderEnabled s ∨ WriterEnabled opts s := by
  rcases hi.other with h|h|h
  · exact absurd h hv
  · have hh := hi.reader.mp h
    rcases readerEnabled_or s with he|he|he|he
    · exact .inl he
    · rw [he] at hh
      cases hh
    · rw [he.1] at hh
      cases hh
    · exact absurd (he.1.symm.trans hh) Bool.false_ne_true
  · have hh := hi.writer.mp h
    rcases writerEnabled_or opts s with he|he|he|he
    · exact .inr he
    · rw [he] at hh
      cases hh
    · rw [he.1] at hh
      cases hh
    · exact absurd (he.1.symm.trans hh) Bool.false_ne_true

/-- Two waiting tasks have a post between them. -/
theorem not_both_wait (hs : StallInv s) (hh : HandInv s) (hr : s.rpc=.wait) (hw : s.wpc=.wait) :
    0<s.shm.nospace ∨ 0<s.shm.nodata := by
  cases hm : s.shm.mwait with
  | false =>
    have ha := hh.reader.answered
    simp only [sideR,hr,hw,hm] at ha
    exact .inl (by simpa using ha)
  | true =>
    cases hv : s.shm.swait with
    | false =>
      have ha := hh.writer.answered
      simp only [sideW,hr,hw,hv] at ha
      exact .inr (by simpa using ha)
    | true =>
      exact (hs.ok.not_both_refuse (hs.apart (by rw [hw]; rfl)) (hs.refR hr hm)
        (hs.refW hw hv)).elim

/-- No reachable state is stuck: unless both tasks have left, one of them can
move; two waiting tasks have a post between them; and a task that has left has
posted for the other. -/
theorem two_task_progress (cfg : Config) {s : Sys}
    (h : Reach (step cfg.opts) (Sys.init cfg.buf) s) :
    ((s.rpc=.ended ∧ s.wpc=.ended) ∨ ReaderEnabled s ∨ WriterEnabled cfg.opts s) ∧
    (s.rpc=.wait → s.wpc=.wait → 0<s.shm.nospace ∨ 0<s.shm.nodata) ∧
    (s.wpc=.ended → s.rpc=.wait → 0<s.shm.nospace) ∧
    (s.rpc=.ended → s.wpc=.wait → 0<s.shm.nodata) := by
  have hh := HandInv.run h
  have hm := MutexInv.run h
  have hboth := not_both_wait (StallInv.run cfg h) hh
  have hr : s.wpc=.ended → s.rpc=.wait → 0<s.shm.nospace := by
    intro hw hr
    have hl := hh.reader.last
    simpa [sideR,hw,hr] using hl
  have hw : s.rpc=.ended → s.wpc=.wait → 0<s.shm.nodata := by
    intro hr hw
    have hl := hh.writer.last
    simpa [sideW,hw,hr] using hl
  refine ⟨?_,hboth,hr,hw⟩
  rcases readerEnabled_or s with he|he|he|he
  · exact .inr (.inl he)
  · rcases writerEnabled_or cfg.opts s with hf|hf|hf|hf
    · exact .inr (.inr hf)
    · exact .inl ⟨he,hf⟩
    · exact absurd (hw he hf.1) (by omega)
    · exact .inr (hm.enabled hf.2)
  · rcases writerEnabled_or cfg.opts s with hf|hf|hf|hf
    · exact .inr (.inr hf)
    · exact absurd (hr hf he.1) (by omega)
    · exact absurd (hboth he.1 hf.1) (by omega)
    · exact .inr (hm.enabled hf.2)
  · exact .inr (hm.enabled he.2)

/-- A reader whose open call fails leaves a post for a waiting writer. -/
theorem two_task_progress_unopened :
    ∃ s,Reach (step (small true false).opts) (Sys.init (small true false).buf) s ∧
      s.rpc=.ended ∧ s.wpc=.wait ∧ 0<s.shm.nodata := by
  obtain ⟨s,hr,hpc⟩ := exec_reach (f:=fun s : Sys => (s.rpc,s.wpc)) (by rfl :
    (exec (step (small true false).opts) (Sys.init (small true false).buf)
      [.writer (.opened true),.writer .tau,.writer .tau,.reader (.opened false),.reader .tau,
       .reader .tau,.reader .tau,.reader .tau,.reader .tau]).map (fun s : Sys => (s.rpc,s.wpc))=
      some (.ended,.wait))
  have hre := congrArg Prod.fst hpc
  have hwe := congrArg Prod.snd hpc
  exact ⟨s,hr,hre,hwe,(two_task_progress (small true false) hr).2.2.2 hre hwe⟩

end Yancat.TwoTask
