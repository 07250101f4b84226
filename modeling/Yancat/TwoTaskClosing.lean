import Yancat.Closing
import Yancat.TwoTaskDelivery

/-!
# The two tasks and their endpoints

`task_reader` and `task_writer` around their transfers: each opens its side and
closes it after the transfer, and a child process closes whatever it still holds
before it ends. Either task has its own endpoints: processes have copies, and
threads share a pair of which each touches its own side only.
-/

namespace Yancat.TwoTaskClosing

open Buffer Setup Shared Transition FailureFlags Fdpack Closing TwoTask
open Options (Dir ModeT)

/-- Both tasks with their endpoints. -/
structure Sess where
  /-- The transfer. -/
  sys : TwoTask.Sys
  /-- The endpoints of the reading task. -/
  rends : Ends
  /-- The endpoints of the writing task. -/
  wends : Ends
  /-- A signal was handled. No program step reads it. -/
  signalled : Bool

/-- Both tasks before their open calls. -/
def Sess.init (buf : BufS) (fdi fdo : FdpackS) : Sess :=
  ⟨TwoTask.Sys.init buf,Ends.init fdi fdo,Ends.init fdi fdo,false⟩

/-- What the reading task closes after a step: its side, unless that could not
be opened, and the rest with its process. -/
def readerCloses (mode : ModeT) (old new : RPc) : List Dir :=
  match new,old with
  | .ended,.releasing _ => cleanupFds mode
  | .ended,_ => .inp::cleanupFds mode
  | _,_ => []

/-- What the writing task closes after a step: its side, unless that could not
be opened, and the rest with its process. -/
def writerCloses (mode : ModeT) (old new : WPc) : List Dir :=
  match new,old with
  | .ended,.releasing _ => cleanupFds mode
  | .ended,_ => .out::cleanupFds mode
  | _,_ => []

/-- Labels of the tasks with their endpoints. -/
inductive Act
  /-- The open of the input, with the result of its system calls. -/
  | ropens (res : BitVec 32)
  /-- The reading task. -/
  | reader (io : Io)
  /-- A close of the reading task. -/
  | rclose (io : CloseIo)
  /-- The open of the output, with the result of its system calls. -/
  | wopens (res : BitVec 32)
  /-- The writing task. -/
  | writer (io : Io)
  /-- A close of the writing task. -/
  | wclose (io : CloseIo)
  /-- The signal handler of a process, starting it when idle. -/
  | signal (role : Role)
  /-- The third party's `release`, starting it when idle. -/
  | relay

/-- One step of the tasks. -/
def step (mode : ModeT) (opts : OptionsS) (s : Sess) : Act → Option Sess
  | .ropens res =>
    let o := s.rends.openSide .inp res
    (readerStep s.sys (.opened o.1)).map fun sys => {s with sys := sys,rends := o.2}
  | .reader io =>
    if s.rends.todo≠[] ∨ opensIo io=true then none
    else
      (readerStep s.sys io).map fun sys =>
        {s with sys := sys,rends := {s.rends with todo := readerCloses mode s.sys.rpc sys.rpc}}
  | .rclose io => (s.rends.closeStep io).map fun ends => {s with rends := ends}
  | .wopens res =>
    let o := s.wends.openSide .out res
    (writerStep opts s.sys (.opened o.1)).map fun sys => {s with sys := sys,wends := o.2}
  | .writer io =>
    if s.wends.todo≠[] ∨ opensIo io=true then none
    else
      (writerStep opts s.sys io).map fun sys =>
        {s with sys := sys,wends := {s.wends with todo := writerCloses mode s.sys.wpc sys.wpc}}
  | .wclose io => (s.wends.closeStep io).map fun ends => {s with wends := ends}
  | .signal role => some {s with sys := signalStep s.sys role,signalled := true}
  | .relay => some {s with sys := relayStep s.sys,signalled := true}

/-- Both tasks have ended and have nothing left to close. -/
def Sess.Ended (s : Sess) : Prop :=
  s.sys.rpc=.ended ∧ s.sys.wpc=.ended ∧ s.rends.todo=[] ∧ s.wends.todo=[]

/-- A call in a close of the output has reported an error. -/
def Sess.unflushed (s : Sess) : Bool := s.rends.unflushed || s.wends.unflushed

/-- The outcomes of one step of the tasks. -/
inductive SessStep (mode : ModeT) (opts : OptionsS) (s : Sess) : Act → Sess → Prop
  /-- The input was opened, or could not be. -/
  | ropens {res : BitVec 32} {ok : Bool} {sys : TwoTask.Sys} {ends : Ends}
    (h : readerStep s.sys (.opened ok)=some sys) (hu : ends.unopened=(s.rends.unopened || !ok))
    (hf : ends.unflushed=s.rends.unflushed) :
    SessStep mode opts s (.ropens res) {s with sys := sys,rends := ends}
  /-- A step of the reading task. -/
  | reader {io : Io} {sys : TwoTask.Sys} (h : readerStep s.sys io=some sys)
    (ho : opensIo io=false) :
    SessStep mode opts s (.reader io)
      {s with sys := sys,rends := {s.rends with todo := readerCloses mode s.sys.rpc sys.rpc}}
  /-- A step of a close of the reading task. -/
  | rclose {io : CloseIo} {ends : Ends} (h : s.rends.closeStep io=some ends) :
    SessStep mode opts s (.rclose io) {s with rends := ends}
  /-- The output was opened, or could not be. -/
  | wopens {res : BitVec 32} {ok : Bool} {sys : TwoTask.Sys} {ends : Ends}
    (h : writerStep opts s.sys (.opened ok)=some sys) (hu : ends.unopened=(s.wends.unopened || !ok))
    (hf : ends.unflushed=s.wends.unflushed) :
    SessStep mode opts s (.wopens res) {s with sys := sys,wends := ends}
  /-- A step of the writing task. -/
  | writer {io : Io} {sys : TwoTask.Sys} (h : writerStep opts s.sys io=some sys)
    (ho : opensIo io=false) :
    SessStep mode opts s (.writer io)
      {s with sys := sys,wends := {s.wends with todo := writerCloses mode s.sys.wpc sys.wpc}}
  /-- A step of a close of the writing task. -/
  | wclose {io : CloseIo} {ends : Ends} (h : s.wends.closeStep io=some ends) :
    SessStep mode opts s (.wclose io) {s with wends := ends}
  /-- A step of a signal handler. -/
  | signal {role : Role} :
    SessStep mode opts s (.signal role) {s with sys := signalStep s.sys role,signalled := true}
  /-- A step of the third party. -/
  | relay : SessStep mode opts s .relay {s with sys := relayStep s.sys,signalled := true}

variable {mode : ModeT} {opts : OptionsS} {s t : Sess} {a : Act}

/-- The executable step does nothing else. -/
theorem step_cases (h : step mode opts s a=some t) : SessStep mode opts s a t := by
  cases a with
  | ropens res =>
    obtain ⟨sys,hs,rfl⟩ := Option.map_eq_some_iff.mp h
    obtain ⟨hu,hf⟩ := s.rends.openSide_flags .inp res
    exact .ropens hs hu hf
  | reader io =>
    unfold step at h
    dsimp only at h
    split at h
    · cases h
    · next hn =>
      obtain ⟨sys,hs,rfl⟩ := Option.map_eq_some_iff.mp h
      exact .reader hs (Bool.eq_false_of_not_eq_true fun ho => hn (.inr ho))
  | rclose io =>
    obtain ⟨ends,he,rfl⟩ := Option.map_eq_some_iff.mp h
    exact .rclose he
  | wopens res =>
    obtain ⟨sys,hs,rfl⟩ := Option.map_eq_some_iff.mp h
    obtain ⟨hu,hf⟩ := s.wends.openSide_flags .out res
    exact .wopens hs hu hf
  | writer io =>
    unfold step at h
    dsimp only at h
    split at h
    · cases h
    · next hn =>
      obtain ⟨sys,hs,rfl⟩ := Option.map_eq_some_iff.mp h
      exact .writer hs (Bool.eq_false_of_not_eq_true fun ho => hn (.inr ho))
  | wclose io =>
    obtain ⟨ends,he,rfl⟩ := Option.map_eq_some_iff.mp h
    exact .wclose he
  | signal role =>
    cases h
    exact .signal
  | relay =>
    cases h
    exact .relay

/-- The transfer runs as it does without its endpoints. -/
theorem project {buf : BufS} {fdi fdo : FdpackS} {ok : Sess → Act → Prop}
    (h : Run (step mode opts) ok (Sess.init buf fdi fdo) s) :
    Reach (TwoTask.step opts) (TwoTask.Sys.init buf) s.sys := by
  refine h.project Sess.sys fun s a t hs => ?_
  cases step_cases hs with
  | ropens hb _ _ => exact .inr ⟨.reader _,hb⟩
  | reader hb _ => exact .inr ⟨.reader _,hb⟩
  | rclose _ => exact .inl rfl
  | wopens hb _ _ => exact .inr ⟨.writer _,hb⟩
  | writer hb _ => exact .inr ⟨.writer _,hb⟩
  | wclose _ => exact .inl rfl
  | @signal role => exact .inr ⟨.signal role,rfl⟩
  | relay => exact .inr ⟨.relay,rfl⟩

/-- Something went wrong that the program notices: an open, a read or a write
has failed for good, or a signal was handled. -/
def Upset (s : Sess) : Prop :=
  s.rends.unopened=true ∨ s.wends.unopened=true ∨ s.signalled=true ∨
    s.sys.tr.rfail=true ∨ s.sys.tr.wfail=true

/-- What went wrong stays wrong. -/
theorem Upset.mono (hu : Upset s) (hr : s.rends.unopened=true → t.rends.unopened=true)
    (hw : s.wends.unopened=true → t.wends.unopened=true)
    (hg : s.signalled=true → t.signalled=true)
    (hrf : s.sys.tr.rfail=true → t.sys.tr.rfail=true)
    (hwf : s.sys.tr.wfail=true → t.sys.tr.wfail=true) : Upset t :=
  hu.imp hr (Or.imp hw (Or.imp hg (Or.imp hrf hwf)))

/-- Where log entries come from. -/
structure Cause (s : Sess) : Prop where
  /-- A log entry has a cause. -/
  logged : Logged s.sys.shm → Upset s
  /-- `release` in the reading task follows a failed open. -/
  rreleasing : ∀ p,s.sys.rpc=.releasing p → s.rends.unopened=true
  /-- `release` in the writing task follows a failed open. -/
  wreleasing : ∀ p,s.sys.wpc=.releasing p → s.wends.unopened=true
  /-- The reading task leaves after a failed read. -/
  rlog : s.sys.rpc=.outLog → s.sys.tr.rfail=true
  /-- The writing task leaves after a failed write. -/
  wlog : s.sys.wpc=.outLog ∨ s.sys.wpc=.errLog → s.sys.tr.wfail=true

/-- Causes after a step of the reading task, whose new log entries are those of
`release` and of a failed read. -/
theorem Cause.reader {io : Io} {sys : TwoTask.Sys} {ends : Ends} (hi : Cause s)
    (h : RStep s.sys io sys) (ho : s.rends.unopened=true → ends.unopened=true)
    (hn : io=.opened false → ends.unopened=true) :
    Cause {s with sys := sys,rends := ends} where
  logged := by
    intro hl
    rcases h.errlog with he|⟨p,hpc⟩|hpc
    · dsimp only [Logged] at hl
      rw [he] at hl
      exact (hi.logged hl).mono ho id id h.rfail_mono h.wfail.trans
    · exact .inl (ho (hi.rreleasing p hpc))
    · exact .inr (.inr (.inr (.inl (h.rfail_mono (hi.rlog hpc)))))
  rreleasing := fun q hq => (h.releasing_of hq).elim hn fun ⟨p,hp⟩ => ho (hi.rreleasing p hp)
  wreleasing := fun q hq => hi.wreleasing q (h.wpc.symm.trans hq)
  rlog := h.outLog_of
  wlog := by
    intro hq
    rw [h.wpc] at hq
    exact h.wfail.trans (hi.wlog hq)

/-- Causes after a step of the writing task, whose new log entries are those of
`release` and of a failed write. -/
theorem Cause.writer {io : Io} {sys : TwoTask.Sys} {ends : Ends} (hi : Cause s)
    (h : WStep opts s.sys io sys) (ho : s.wends.unopened=true → ends.unopened=true)
    (hn : io=.opened false → ends.unopened=true) :
    Cause {s with sys := sys,wends := ends} where
  logged := by
    intro hl
    rcases h.errlog with he|⟨p,hpc⟩|hpc
    · dsimp only [Logged] at hl
      rw [he] at hl
      exact (hi.logged hl).mono id ho id h.rfail.trans h.wfail_mono
    · exact .inr (.inl (ho (hi.wreleasing p hpc)))
    · exact .inr (.inr (.inr (.inr (h.wfail_mono (hi.wlog hpc)))))
  rreleasing := fun q hq => hi.rreleasing q (h.rpc.symm.trans hq)
  wreleasing := fun q hq => (h.releasing_of hq).elim hn fun ⟨p,hp⟩ => ho (hi.wreleasing p hp)
  rlog := fun hq => h.rfail.trans (hi.rlog (h.rpc.symm.trans hq))
  wlog := h.outLog_of

/-- Causes are kept by every step. -/
theorem Cause.step (hi : Cause s) (h : SessStep mode opts s a t) : Cause t := by
  cases h with
  | ropens hb he _ =>
    refine hi.reader (readerStep_cases hb) (fun ho => he.trans (by rw [ho,Bool.true_or])) fun hn => ?_
    cases hn
    exact he.trans (Bool.or_true _)
  | reader hb ho =>
    refine hi.reader (readerStep_cases hb) id fun hn => ?_
    subst hn
    cases ho
  | rclose he =>
    have hu := (Ends.closeStep_flags he).1
    exact ⟨fun hl => (hi.logged hl).mono hu.trans id id id id,
      fun p hp => hu.trans (hi.rreleasing p hp),hi.wreleasing,hi.rlog,hi.wlog⟩
  | wopens hb he _ =>
    refine hi.writer (writerStep_cases hb) (fun ho => he.trans (by rw [ho,Bool.true_or])) fun hn => ?_
    cases hn
    exact he.trans (Bool.or_true _)
  | writer hb ho =>
    refine hi.writer (writerStep_cases hb) id fun hn => ?_
    subst hn
    cases ho
  | wclose he =>
    have hu := (Ends.closeStep_flags he).1
    exact ⟨fun hl => (hi.logged hl).mono id hu.trans id id id,hi.rreleasing,
      fun p hp => hu.trans (hi.wreleasing p hp),hi.rlog,hi.wlog⟩
  | signal =>
    exact ⟨fun _ => .inr (.inr (.inl rfl)),hi.rreleasing,hi.wreleasing,hi.rlog,hi.wlog⟩
  | relay =>
    exact ⟨fun _ => .inr (.inr (.inl rfl)),hi.rreleasing,hi.wreleasing,hi.rlog,hi.wlog⟩

/-- What failed opens and signals leave behind. -/
structure Effect (s : Sess) : Prop where
  /-- A failed open of the input is logged, or is about to be. -/
  runopened : s.rends.unopened=true → Logged s.sys.shm ∨ s.sys.rpc=.releasing (.mark .errlog)
  /-- A failed open of the output is logged, or is about to be. -/
  wunopened : s.wends.unopened=true → Logged s.sys.shm ∨ s.sys.wpc=.releasing (.mark .errlog)
  /-- A signal is logged. -/
  signalled : s.signalled=true → Logged s.sys.shm

/-- The first statement of `release` logs. -/
theorem release_first {slot : ℕ} {g g' : ShrS} {next : Option RelPc} (hs : slot<errlCnt)
    (hr : release slot g (.mark .errlog)=(g',next)) : Logged g' :=
  release_logged (g:=g) (p:=.mark .errlog) hs trivial hr

/-- A failed open of the input is logged by the first statement of `release`. -/
theorem rlogged_or_releasing {sys sys' : TwoTask.Sys} {io : Io} (h : RStep sys io sys')
    (hi : Logged sys.shm ∨ sys.rpc=.releasing (.mark .errlog)) :
    Logged sys'.shm ∨ sys'.rpc=.releasing (.mark .errlog) := by
  rcases hi with hl|hp
  · exact .inl (hl.mono h.raised)
  · cases h with
    | releasing hpc hr =>
      cases hpc.symm.trans hp
      exact .inl (release_first (by decide) hr)
    | released hpc hr =>
      cases hpc.symm.trans hp
      exact .inl (release_first (by decide) hr)
    | retry => exact .inr hp
    | stored => exact .inr hp
    | _ hpc => cases hpc.symm.trans hp

/-- A failed open of the output is logged by the first statement of `release`. -/
theorem wlogged_or_releasing {sys sys' : TwoTask.Sys} {io : Io} (h : WStep opts sys io sys')
    (hi : Logged sys.shm ∨ sys.wpc=.releasing (.mark .errlog)) :
    Logged sys'.shm ∨ sys'.wpc=.releasing (.mark .errlog) := by
  rcases hi with hl|hp
  · exact .inl (hl.mono h.raised)
  · cases h with
    | releasing hpc hr =>
      cases hpc.symm.trans hp
      exact .inl (release_first (by decide) hr)
    | released hpc hr =>
      cases hpc.symm.trans hp
      exact .inl (release_first (by decide) hr)
    | retry => exact .inr hp
    | _ hpc => cases hpc.symm.trans hp

/-- An open of the input that fails leads into `release`. -/
theorem rreleasing_of_unopened {sys sys' : TwoTask.Sys} (h : RStep sys (.opened false) sys') :
    sys'.rpc=.releasing (.mark .errlog) := by
  cases h with
  | unopened => rfl

/-- An open of the output that fails leads into `release`. -/
theorem wreleasing_of_unopened {sys sys' : TwoTask.Sys}
    (h : WStep opts sys (.opened false) sys') : sys'.wpc=.releasing (.mark .errlog) := by
  cases h with
  | unopened => rfl
  | epi _ he => cases he
  | epiFail _ he => cases he
  | epiEnd _ he => cases he

/-- A signal is logged by the first statement of its handler. -/
theorem signal_logged {sys : TwoTask.Sys} (hf : TwoTask.FlagInv sys) (role : Role) :
    Logged (signalStep sys role).shm := by
  obtain ⟨p,g,next,hok,hm,hs⟩ := hf.signal_cases role
  have hl := markStep_logged (errSig_lt role) hok
  rw [hm] at hl
  rw [hs]
  exact hl

/-- A signal is logged by the first statement of the third party. -/
theorem relay_logged {sys : TwoTask.Sys} (hf : TwoTask.FlagInv sys) :
    Logged (relayStep sys).shm := by
  obtain ⟨p,g,next,hok,hr,hs⟩ := hf.relay_cases
  rw [hs]
  exact release_logged (by decide) hok hr

/-- Effects after a step of the reading task. -/
theorem Effect.reader {io : Io} {sys : TwoTask.Sys} {ends : Ends} (hi : Effect s)
    (h : RStep s.sys io sys)
    (hu : ends.unopened=true → s.rends.unopened=true ∨ io=.opened false) :
    Effect {s with sys := sys,rends := ends} where
  runopened := by
    intro ho
    rcases hu ho with hu|rfl
    · exact rlogged_or_releasing h (hi.runopened hu)
    · exact .inr (rreleasing_of_unopened h)
  wunopened := by
    intro ho
    rw [h.wpc]
    exact (hi.wunopened ho).imp_left (·.mono h.raised)
  signalled := fun hg => (hi.signalled hg).mono h.raised

/-- Effects after a step of the writing task. -/
theorem Effect.writer {io : Io} {sys : TwoTask.Sys} {ends : Ends} (hi : Effect s)
    (h : WStep opts s.sys io sys)
    (hu : ends.unopened=true → s.wends.unopened=true ∨ io=.opened false) :
    Effect {s with sys := sys,wends := ends} where
  runopened := by
    intro ho
    rw [h.rpc]
    exact (hi.runopened ho).imp_left (·.mono h.raised)
  wunopened := by
    intro ho
    rcases hu ho with hu|rfl
    · exact wlogged_or_releasing h (hi.wunopened hu)
    · exact .inr (wreleasing_of_unopened h)
  signalled := fun hg => (hi.signalled hg).mono h.raised

/-- Effects are kept by every step. -/
theorem Effect.step (hi : Effect s) (hf : TwoTask.FlagInv s.sys) (h : SessStep mode opts s a t) :
    Effect t := by
  cases h with
  | ropens hb he _ => exact hi.reader (readerStep_cases hb) (unopened_of_or he)
  | reader hb _ => exact hi.reader (readerStep_cases hb) .inl
  | rclose he =>
    exact ⟨fun ho => hi.runopened ((Ends.closeStep_flags he).1.symm.trans ho),hi.wunopened,
      hi.signalled⟩
  | wopens hb he _ => exact hi.writer (writerStep_cases hb) (unopened_of_or he)
  | writer hb _ => exact hi.writer (writerStep_cases hb) .inl
  | wclose he =>
    exact ⟨hi.runopened,fun ho => hi.wunopened ((Ends.closeStep_flags he).1.symm.trans ho),
      hi.signalled⟩
  | @signal role =>
    have hl := signal_logged hf role
    exact ⟨fun _ => .inl hl,fun _ => .inl hl,fun _ => hl⟩
  | relay =>
    have hl := relay_logged hf
    exact ⟨fun _ => .inl hl,fun _ => .inl hl,fun _ => hl⟩

/-- Log entries have a cause in every state of every run. -/
theorem Cause.run {buf : BufS} {fdi fdo : FdpackS} {ok : Sess → Act → Prop}
    (h : Run (TwoTaskClosing.step mode opts) ok (Sess.init buf fdi fdo) s) : Cause s := by
  refine h.invariant ⟨?_,nofun,nofun,nofun,?_⟩ fun _ _ _ hi _ hs => hi.step (step_cases hs)
  · rintro ⟨i,_,hl⟩
    cases hl
  · rintro (hn|hn) <;> cases hn

/-- Effects show in every state of every run. -/
theorem Effect.run {buf : BufS} {fdi fdo : FdpackS} {ok : Sess → Act → Prop}
    (h : Run (TwoTaskClosing.step mode opts) ok (Sess.init buf fdi fdo) s) : Effect s :=
  h.invariant_of (J:=fun s => TwoTask.FlagInv s.sys)
    (fun _ hr => TwoTask.FlagInv.run (project hr)) ⟨nofun,nofun,nofun⟩
    fun _ _ _ hf _ hi _ hs => hi.step hf (step_cases hs)

/-- At the end of the transfer the log has an entry exactly when an open, a read
or a write has failed for good or a signal was handled. What closing has met
makes no difference. -/
theorem logged_iff {buf : BufS} {fdi fdo : FdpackS} {ok : Sess → Act → Prop}
    (h : Run (TwoTaskClosing.step mode opts) ok (Sess.init buf fdi fdo) s)
    (hr : s.sys.rpc=.ended) (hw : s.sys.wpc=.ended) : Logged s.sys.shm ↔ Upset s := by
  have hp := project h
  have he := Effect.run h
  constructor
  · exact (Cause.run h).logged
  · rintro (ho|ho|hg|hf|hf)
    · exact (he.runopened ho).resolve_right (by rw [hr]; nofun)
    · exact (he.wunopened ho).resolve_right (by rw [hw]; nofun)
    · exact he.signalled hg
    · exact ((TwoTask.FlagInv.run hp).rfail hf).resolve_right (by rw [hr]; nofun)
    · exact (WfailLogged.run hp hf).resolve_right (by rw [hw]; rintro (hn|hn) <;> cases hn)

/-- An ended reading task closes its side, unless that could not be opened. -/
theorem readerCloses_own {old : RPc} (h : ∀ p,old≠.releasing p) :
    .inp∈readerCloses mode old .ended := by
  cases old with
  | releasing p => exact absurd rfl (h p)
  | _ => exact List.mem_cons_self

/-- An ended writing task closes its side, unless that could not be opened. -/
theorem writerCloses_own {old : WPc} (h : ∀ p,old≠.releasing p) :
    .out∈writerCloses mode old .ended := by
  cases old with
  | releasing p => exact absurd rfl (h p)
  | _ => exact List.mem_cons_self

/-- An ended reading task closes all that its process holds. -/
theorem readerCloses_all (old : RPc) {d : Dir} (h : d∈cleanupFds mode) :
    d∈readerCloses mode old .ended := by
  cases old with
  | releasing p => exact h
  | _ => exact List.mem_cons_of_mem _ h

/-- An ended writing task closes all that its process holds. -/
theorem writerCloses_all (old : WPc) {d : Dir} (h : d∈cleanupFds mode) :
    d∈writerCloses mode old .ended := by
  cases old with
  | releasing p => exact h
  | _ => exact List.mem_cons_of_mem _ h

/-- An open does not end the reading task. -/
theorem not_ended_of_ropened {sys sys' : TwoTask.Sys} {ok : Bool}
    (h : RStep sys (.opened ok) sys') : sys'.rpc≠.ended := by
  cases h with
  | opened => nofun
  | unopened => nofun

/-- An open does not end the writing task. -/
theorem not_ended_of_wopened {sys sys' : TwoTask.Sys} {ok : Bool}
    (h : WStep opts sys (.opened ok) sys') : sys'.wpc≠.ended := by
  cases h with
  | opened => nofun
  | unopened => nofun
  | epi _ he => cases he
  | epiFail _ he => cases he
  | epiEnd _ he => cases he

/-- Behind an ended task its own endpoint, if it was opened, and all that its
process holds are closed, or are going to be. -/
structure Settles (mode : ModeT) (s : Sess) : Prop where
  /-- The endpoint of the reading task. -/
  rown : s.sys.rpc=.ended → s.rends.unopened=false → s.rends.Settled [.inp]
  /-- The endpoint of the writing task. -/
  wown : s.sys.wpc=.ended → s.wends.unopened=false → s.wends.Settled [.out]
  /-- The process of the reading task. -/
  rall : s.sys.rpc=.ended → s.rends.Settled (cleanupFds mode)
  /-- The process of the writing task. -/
  wall : s.sys.wpc=.ended → s.wends.Settled (cleanupFds mode)

/-- The last step of a task queues its endpoints, and closing settles them. -/
theorem Settles.step (hi : Settles mode s) (hc : Cause s) (h : SessStep mode opts s a t) :
    Settles mode t := by
  obtain ⟨hro,hwo,hra,hwa⟩ := hi
  cases h with
  | ropens hb _ _ =>
    have hs := readerStep_cases hb
    have hn := not_ended_of_ropened hs
    exact ⟨fun hp => absurd hp hn,fun hp => hwo (hs.wpc.symm.trans hp),fun hp => absurd hp hn,
      fun hp => hwa (hs.wpc.symm.trans hp)⟩
  | @reader io sys hb _ =>
    have hs := readerStep_cases hb
    refine ⟨fun hp ho d hd => .inl ?_,fun hp => hwo (hs.wpc.symm.trans hp),
      fun hp d hd => .inl ?_,fun hp => hwa (hs.wpc.symm.trans hp)⟩
    · have hown : .inp∈readerCloses mode s.sys.rpc .ended :=
        readerCloses_own fun p hpc => Bool.false_ne_true (ho.symm.trans (hc.rreleasing p hpc))
      rw [←(hp : sys.rpc=.ended)] at hown
      rw [List.mem_singleton.mp hd]
      exact hown
    · have hall := readerCloses_all s.sys.rpc hd
      rw [←(hp : sys.rpc=.ended)] at hall
      exact hall
  | rclose he =>
    have hu := (Ends.closeStep_flags he).1
    exact ⟨fun hp ho => (hro hp (hu.symm.trans ho)).closeStep he,hwo,
      fun hp => (hra hp).closeStep he,hwa⟩
  | wopens hb _ _ =>
    have hs := writerStep_cases hb
    have hn := not_ended_of_wopened hs
    exact ⟨fun hp => hro (hs.rpc.symm.trans hp),fun hp => absurd hp hn,
      fun hp => hra (hs.rpc.symm.trans hp),fun hp => absurd hp hn⟩
  | @writer io sys hb _ =>
    have hs := writerStep_cases hb
    refine ⟨fun hp => hro (hs.rpc.symm.trans hp),fun hp ho d hd => .inl ?_,
      fun hp => hra (hs.rpc.symm.trans hp),fun hp d hd => .inl ?_⟩
    · have hown : .out∈writerCloses mode s.sys.wpc .ended :=
        writerCloses_own fun p hpc => Bool.false_ne_true (ho.symm.trans (hc.wreleasing p hpc))
      rw [←(hp : sys.wpc=.ended)] at hown
      rw [List.mem_singleton.mp hd]
      exact hown
    · have hall := writerCloses_all s.sys.wpc hd
      rw [←(hp : sys.wpc=.ended)] at hall
      exact hall
  | wclose he =>
    have hu := (Ends.closeStep_flags he).1
    exact ⟨hro,fun hp ho => (hwo hp (hu.symm.trans ho)).closeStep he,hra,
      fun hp => (hwa hp).closeStep he⟩
  | signal => exact ⟨hro,hwo,hra,hwa⟩
  | relay => exact ⟨hro,hwo,hra,hwa⟩

/-- Ended tasks leave no descriptor open, whatever their calls have met: each has
closed the endpoint it has opened, and a process has closed both of its copies. -/
theorem all_closed {buf : BufS} {fdi fdo : FdpackS} {ok : Sess → Act → Prop}
    (h : Run (TwoTaskClosing.step mode opts) ok (Sess.init buf fdi fdo) s) (he : s.Ended) :
    (s.rends.unopened=false → s.rends.fdi.fd=-1) ∧
    (s.wends.unopened=false → s.wends.fdo.fd=-1) ∧
    (mode=.mp → s.rends.fdi.fd=-1 ∧ s.rends.fdo.fd=-1 ∧
      s.wends.fdi.fd=-1 ∧ s.wends.fdo.fd=-1) := by
  have hs : Settles mode s := h.invariant_of (fun _ hr => Cause.run hr)
    ⟨nofun,nofun,nofun,nofun⟩ fun _ _ _ hc _ hi _ hs => hi.step hc (step_cases hs)
  obtain ⟨hr,hw,hrt,hwt⟩ := he
  refine ⟨fun ho => (hs.rown hr ho).closed (d:=.inp) hrt List.mem_cons_self,
    fun ho => (hs.wown hw ho).closed (d:=.out) hwt List.mem_cons_self,?_⟩
  rintro rfl
  have hra := hs.rall hr
  have hwa := hs.wall hw
  exact ⟨hra.closed (d:=.inp) hrt (by decide),hra.closed (d:=.out) hrt (by decide),
    hwa.closed (d:=.inp) hwt (by decide),hwa.closed (d:=.out) hwt (by decide)⟩

end Yancat.TwoTaskClosing
