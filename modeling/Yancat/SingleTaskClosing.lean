import Yancat.Closing
import Yancat.SingleTaskFlags

/-!
# The single process and its endpoints

`task_single` around the transfer: both endpoints are opened, and closed again
after the transfer, the output first. After a failed open of the output only the
input is closed, before `release`. While an endpoint is being closed the process
makes no other step, but a signal may still fall.
-/

namespace Yancat.SingleTaskClosing

open Buffer Setup Shared Transition FailureFlags Fdpack Closing SingleTask
open Options (Dir)

/-- The process with its endpoints. -/
structure Sess where
  /-- The transfer. -/
  sys : SSys
  /-- The endpoints. -/
  ends : Ends
  /-- A signal was handled. No program step reads it. -/
  signalled : Bool

/-- The process before its open calls. -/
def Sess.init (buf : BufS) (fdi fdo : FdpackS) : Sess := ⟨SSys.init buf,Ends.init fdi fdo,false⟩

/-- What is closed after a step from a position: both sides after the last step
of the transfer. -/
def closesAfter : SPc → List Dir
  | .fin _ => [.out,.inp]
  | _ => []

/-- Labels of the process with its endpoints. -/
inductive Act
  /-- An open, with the result of its system calls. -/
  | opens (res : BitVec 32)
  /-- The transfer. -/
  | task (io : Io)
  /-- A close. -/
  | close (io : CloseIo)
  /-- The signal handler, starting it when idle. -/
  | signal

/-- One step of the process. -/
def step (opts : OptionsS) (s : Sess) : Act → Option Sess
  | .opens res =>
    match s.sys.pc with
    | .openIn =>
      let o := s.ends.openSide .inp res
      (taskStep opts s.sys (.opened o.1)).map fun sys => {s with sys := sys,ends := o.2}
    | .openOut =>
      let o := s.ends.openSide .out res
      (taskStep opts s.sys (.opened o.1)).map fun sys =>
        {s with sys := sys,ends := if o.1=true then o.2 else {o.2 with todo := [.inp]}}
    | _ => none
  | .task io =>
    if s.ends.todo≠[] ∨ opensIo io=true then none
    else
      (taskStep opts s.sys io).map fun sys =>
        {s with sys := sys,ends := {s.ends with todo := closesAfter s.sys.pc}}
  | .close io => (s.ends.closeStep io).map fun ends => {s with ends := ends}
  | .signal => some {s with sys := signalStep s.sys,signalled := true}

/-- The task has ended and has nothing left to close. -/
def Sess.Ended (s : Sess) : Prop := s.sys.pc=.ended ∧ s.ends.todo=[]

/-- The outcomes of one step of the process. -/
inductive SessStep (opts : OptionsS) (s : Sess) : Act → Sess → Prop
  /-- An endpoint was opened, or could not be. -/
  | opens {res : BitVec 32} {ok : Bool} {sys : SSys} {ends : Ends}
    (h : taskStep opts s.sys (.opened ok)=some sys) (hu : ends.unopened=(s.ends.unopened || !ok))
    (hf : ends.unflushed=s.ends.unflushed) :
    SessStep opts s (.opens res) {s with sys := sys,ends := ends}
  /-- A step of the transfer. -/
  | task {io : Io} {sys : SSys} (h : taskStep opts s.sys io=some sys) (ho : opensIo io=false) :
    SessStep opts s (.task io)
      {s with sys := sys,ends := {s.ends with todo := closesAfter s.sys.pc}}
  /-- A step of a close. -/
  | close {io : CloseIo} {ends : Ends} (h : s.ends.closeStep io=some ends) :
    SessStep opts s (.close io) {s with ends := ends}
  /-- A step of the signal handler. -/
  | signal : SessStep opts s .signal {s with sys := signalStep s.sys,signalled := true}

variable {opts : OptionsS} {s t : Sess} {a : Act}

/-- The executable step does nothing else. -/
theorem step_cases (h : step opts s a=some t) : SessStep opts s a t := by
  cases a with
  | opens res =>
    unfold step at h
    dsimp only at h
    split at h
    · obtain ⟨sys,hs,rfl⟩ := Option.map_eq_some_iff.mp h
      obtain ⟨hu,hf⟩ := s.ends.openSide_flags .inp res
      exact .opens hs hu hf
    · obtain ⟨sys,hs,rfl⟩ := Option.map_eq_some_iff.mp h
      obtain ⟨hu,hf⟩ := s.ends.openSide_flags .out res
      refine .opens hs ?_ ?_
      · split <;> exact hu
      · split <;> exact hf
    · cases h
  | task io =>
    unfold step at h
    dsimp only at h
    split at h
    · cases h
    · next hn =>
      obtain ⟨sys,hs,rfl⟩ := Option.map_eq_some_iff.mp h
      exact .task hs (Bool.eq_false_of_not_eq_true fun ho => hn (.inr ho))
  | close io =>
    obtain ⟨ends,he,rfl⟩ := Option.map_eq_some_iff.mp h
    exact .close he
  | signal =>
    cases h
    exact .signal

/-- The transfer runs as it does without its endpoints. -/
theorem project {buf : BufS} {fdi fdo : FdpackS} {ok : Sess → Act → Prop}
    (h : Run (step opts) ok (Sess.init buf fdi fdo) s) :
    Reach (SingleTask.step opts) (SSys.init buf) s.sys := by
  refine h.project Sess.sys fun s a t hs => ?_
  cases step_cases hs with
  | opens hb _ _ => exact .inr ⟨.task _,hb⟩
  | task hb _ => exact .inr ⟨.task _,hb⟩
  | close _ => exact .inl rfl
  | signal => exact .inr ⟨.signal,rfl⟩

/-- Something went wrong that the program notices: an open, a read or a write
has failed for good, or a signal was handled. -/
def Upset (s : Sess) : Prop :=
  s.ends.unopened=true ∨ s.signalled=true ∨ s.sys.tr.rfail=true ∨ s.sys.tr.wfail=true

/-- Where log entries come from. -/
structure Cause (s : Sess) : Prop where
  /-- A log entry has a cause. -/
  logged : Logged s.sys.shm → Upset s
  /-- `release` follows a failed open. -/
  releasing : ∀ p,s.sys.pc=.releasing p → s.ends.unopened=true
  /-- A negative result in hand was recorded. -/
  recorded : Recorded s.sys.tr s.sys.pc

/-- What went wrong stays wrong. -/
theorem SessStep.upset (h : SessStep opts s a t) (hu : Upset s) : Upset t := by
  cases h with
  | opens hb he _ =>
    have hs := taskStep_cases hb
    refine hu.imp (fun ho => ?_) (Or.imp_right (Or.imp hs.fails.1 hs.fails.2))
    exact he.trans (by rw [ho,Bool.true_or])
  | task hb _ =>
    have hs := taskStep_cases hb
    exact hu.imp_right (Or.imp_right (Or.imp hs.fails.1 hs.fails.2))
  | close he => exact hu.imp_left (Ends.closeStep_flags he).1.trans
  | signal => exact .inr (.inl rfl)

/-- Causes after a step of the transfer, whose new log entries are those of
`release` and of the final test. -/
theorem Cause.base {io : Io} (hi : Cause s) (h : SStep opts s.sys io t.sys)
    (hup : Upset s → Upset t) (ho : s.ends.unopened=true → t.ends.unopened=true)
    (hn : io=.opened false → t.ends.unopened=true) : Cause t where
  logged := by
    intro hl
    rcases h.errlog with he|⟨p,hpc⟩|hpc
    · unfold Logged at hl
      rw [he] at hl
      exact hup (hi.logged hl)
    · exact .inl (ho (hi.releasing p hpc))
    · have hr := hi.recorded
      rw [hpc] at hr
      exact .inr (.inr ((hr (.inl rfl)).imp h.fails.1 h.fails.2))
  releasing := fun q hq => (h.releasing_of hq).elim hn fun ⟨p,hp⟩ => ho (hi.releasing p hp)
  recorded := h.recorded hi.recorded

/-- Causes are kept by every step. -/
theorem Cause.step (hi : Cause s) (h : SessStep opts s a t) : Cause t := by
  have hup := h.upset
  cases h with
  | opens hb he _ =>
    refine hi.base (t:={s with sys := _,ends := _}) (taskStep_cases hb) hup (fun ho => ?_)
      fun hn => ?_
    · exact he.trans (by rw [ho,Bool.true_or])
    · cases hn
      exact he.trans (Bool.or_true _)
  | task hb ho =>
    refine hi.base (t:={s with sys := _,ends := _}) (taskStep_cases hb) hup id fun hn => ?_
    subst hn
    cases ho
  | close he =>
    exact ⟨fun hl => hup (hi.logged hl),
      fun p hp => (Ends.closeStep_flags he).1.trans (hi.releasing p hp),hi.recorded⟩
  | signal => exact ⟨fun _ => .inr (.inl rfl),hi.releasing,hi.recorded⟩

/-- What a failed open and a signal leave behind. -/
structure Effect (s : Sess) : Prop where
  /-- A failed open is logged, or is about to be. -/
  unopened : s.ends.unopened=true → Logged s.sys.shm ∨ s.sys.pc=.releasing .errlog
  /-- A signal is logged. -/
  signalled : s.signalled=true → Logged s.sys.shm

/-- A failed open is logged by the first statement of `release`. -/
theorem logged_or_releasing {sys sys' : SSys} {io : Io} (h : SStep opts sys io sys')
    (hi : Logged sys.shm ∨ sys.pc=.releasing .errlog) :
    Logged sys'.shm ∨ sys'.pc=.releasing .errlog := by
  rcases hi with hl|hp
  · exact .inl (hl.mono h.raised)
  · cases h with
    | releasing hpc hr =>
      cases hpc.symm.trans hp
      cases hr
      exact .inl (Logged.log _ (by decide))
    | released hpc hr =>
      cases hpc.symm.trans hp
      cases hr
    | rretry => exact .inr hp
    | wretry => exact .inr hp
    | stored => exact .inr hp
    | _ hpc => cases hpc.symm.trans hp

/-- The signal handler has logged with its first statement. -/
theorem signalStep_logged {sys : SSys} (hf : SingleTask.FlagInv sys) :
    Logged (signalStep sys).shm := markStep_logged (errSig_lt .arbiter) hf.handler

/-- An open that fails leads into `release`. -/
theorem releasing_of_unopened {sys sys' : SSys} (h : SStep opts sys (.opened false) sys') :
    sys'.pc=.releasing .errlog := by
  cases h with
  | unopenedIn => rfl
  | unopenedOut => rfl
  | epi _ he => cases he
  | epiEnd _ he => cases he

/-- Effects are kept by every step. -/
theorem Effect.step (hi : Effect s) (hf : SingleTask.FlagInv s.sys) (h : SessStep opts s a t) :
    Effect t := by
  cases h with
  | opens hb he _ =>
    have hs := taskStep_cases hb
    refine ⟨fun ho => ?_,fun hg => (hi.signalled hg).mono hs.raised⟩
    rcases unopened_of_or he ho with hu|hn
    · exact logged_or_releasing hs (hi.unopened hu)
    · rw [hn] at hs
      exact .inr (releasing_of_unopened hs)
  | task hb _ =>
    have hs := taskStep_cases hb
    exact ⟨fun ho => logged_or_releasing hs (hi.unopened ho),
      fun hg => (hi.signalled hg).mono hs.raised⟩
  | close he =>
    exact ⟨fun ho => hi.unopened ((Ends.closeStep_flags he).1.symm.trans ho),hi.signalled⟩
  | signal =>
    have hl := signalStep_logged hf
    exact ⟨fun _ => .inl hl,fun _ => hl⟩

/-- Log entries have a cause in every state of every run. -/
theorem Cause.run {buf : BufS} {fdi fdo : FdpackS} {ok : Sess → Act → Prop}
    (h : Run (SingleTaskClosing.step opts) ok (Sess.init buf fdi fdo) s) : Cause s := by
  refine h.invariant ⟨?_,nofun,?_⟩ fun _ _ _ hi _ hs => hi.step (step_cases hs)
  · rintro ⟨i,_,hl⟩
    cases hl
  · rintro (hn|hn) <;> cases hn

/-- Effects show in every state of every run. -/
theorem Effect.run {buf : BufS} {fdi fdo : FdpackS} {ok : Sess → Act → Prop}
    (h : Run (SingleTaskClosing.step opts) ok (Sess.init buf fdi fdo) s) : Effect s :=
  h.invariant_of (J:=fun s => SingleTask.FlagInv s.sys)
    (fun _ hr => SingleTask.FlagInv.run (project hr)) ⟨nofun,nofun⟩
    fun _ _ _ hf _ hi _ hs => hi.step hf (step_cases hs)

/-- At the end of the transfer the log has an entry exactly when an open, a read
or a write has failed for good or a signal was handled. What closing has met
makes no difference. -/
theorem logged_iff {buf : BufS} {fdi fdo : FdpackS} {ok : Sess → Act → Prop}
    (h : Run (SingleTaskClosing.step opts) ok (Sess.init buf fdi fdo) s)
    (hpc : s.sys.pc=.ended) : Logged s.sys.shm ↔ Upset s := by
  have hf := SingleTask.FlagInv.run (project h)
  have he := Effect.run h
  constructor
  · exact (Cause.run h).logged
  · rintro (ho|hg|hr|hw)
    · exact (he.unopened ho).resolve_right (by rw [hpc]; nofun)
    · exact he.signalled hg
    · exact (hf.rfail hr).resolve_right (by rw [hpc]; exact Bool.false_ne_true)
    · exact (hf.wfail hw).resolve_right (by rw [hpc]; exact Bool.false_ne_true)

end Yancat.SingleTaskClosing
