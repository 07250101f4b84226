import Yancat.ExitStatus
import Yancat.TwoTaskClosing

/-!
# The main process around two tasks

One round of `main` outside single process mode: the tasks are started, waited
for, and judged by the error log, and the environment is torn down. The main
process runs beside the tasks, so every statement of its own is a step, up to
the single entries of the log. After a start that failed it tears the
environment down at once.
-/

namespace Yancat.Arbiter

open Buffer Setup Shared Transition FailureFlags Fdpack Closing ExitStatus
open TwoTaskClosing (Sess SessStep Upset)
open Options (Dir ModeT)

/-- The modes with two tasks. -/
abbrev TaskMode := {mode : ModeT // mode≠.sp}

/-- Position of the main process. -/
inductive MPc
  /-- In `setup_proc`, with the tasks that are still to be started. -/
  | starting (todo : List Role)
  /-- In `release`, after a failed start. -/
  | releasing (p : RelPc)
  /-- In `reap_procs` or `reap_threads`, with the tasks that are still to be
  looked at. -/
  | reaping (todo : List Role)
  /-- At an entry of the log, with the verdict so far. -/
  | verdict (i : ℕ) (ret : ℤ)
  /-- At `cleanup_env`. -/
  | cleanup (ret : ℤ)
  /-- Behind `cleanup_env`, the environment is gone. -/
  | returned (ret : ℤ)
  deriving DecidableEq

/-- The order of starts in `setup_proc`: the signalling thread must be first. -/
def startOrder : ModeT → List Role
  | .mp => [.reader,.writer]
  | .mt => [.sigrelay,.reader,.writer]
  | .sp => []

/-- The order of `reap_procs` and of `reap_threads`. -/
def reapOrder : ModeT → List Role
  | .mp => [.arbiter,.reader,.writer,.crcer,.sigrelay]
  | .mt => [.reader,.writer,.sigrelay]
  | .sp => []

/-- The program in a round. -/
structure Prog where
  /-- The tasks with their endpoints. -/
  sess : Sess
  /-- The main process. -/
  pc : MPc
  /-- The tasks with a process or thread number. -/
  started : List Role
  /-- A start has failed. No program step reads it. -/
  unstarted : Bool

/-- The environment is set up and no task is started. -/
def Prog.init (mode : ModeT) (buf : BufS) (fdi fdo : FdpackS) : Prog :=
  ⟨Sess.init buf fdi fdo,.starting (startOrder mode),[],false⟩

/-- A task has left its function, and with it its process or thread. -/
def Left (s : Sess) : Role → Prop
  | .reader => s.sys.rpc=.ended ∧ s.rends.todo=[]
  | .writer => s.sys.wpc=.ended ∧ s.wends.todo=[]
  | _ => True

instance (s : Sess) : DecidablePred (Left s)
  | .reader => inferInstanceAs (Decidable (_ ∧ _))
  | .writer => inferInstanceAs (Decidable (_ ∧ _))
  | .arbiter => .isTrue trivial
  | .crcer => .isTrue trivial
  | .sigrelay => .isTrue trivial

/-- One step of the main process. The start of a task takes its outcome from the
environment. -/
def mainStep (mode : ModeT) (s : Prog) (ok : Bool) : Option Prog :=
  match s.pc with
  | .starting [] => some {s with pc := .reaping (reapOrder mode)}
  | .starting (r::rest) =>
    if ok=true then some {s with started := s.started++[r],pc := .starting rest}
    else some {s with pc := .releasing (.mark .errlog),unstarted := true}
  | .releasing p =>
    let r := release (errIni+Role.arbiter.idx) s.sess.sys.shm p
    some {s with
      sess.sys.shm := r.1
      pc := match r.2 with | some q => .releasing q | none => .cleanup (-1)}
  | .reaping [] => some {s with pc := .verdict 0 0}
  | .reaping (r::rest) =>
    if r∉s.started then some {s with pc := .reaping rest}
    -- the signalling thread never ends by itself, it is cancelled wherever it is
    else if r=.sigrelay then some {s with started := s.started.erase r,pc := .reaping rest}
    else if Left s.sess r then some {s with pc := .reaping rest} else none
  | .verdict i ret =>
    if i<errlCnt then
      some {s with pc := .verdict (i+1) (if s.sess.sys.shm.errlog i=true then -1 else ret)}
    else some {s with pc := .cleanup ret}
  | .cleanup ret => some {s with pc := .returned ret}
  | .returned _ => none

/-- Whoever makes a step of the tasks is there to make it. Signals are handled by
processes, and between threads by the signalling thread. -/
def Prog.Runs (mode : ModeT) (s : Prog) : TwoTaskClosing.Act → Prop
  | .ropens _ | .reader _ | .rclose _ => .reader∈s.started
  | .wopens _ | .writer _ | .wclose _ => .writer∈s.started
  | .signal role => mode=.mp ∧ (role=.arbiter ∨ role∈s.started ∧ ¬Left s.sess role)
  | .relay => .sigrelay∈s.started

instance (mode : ModeT) (s : Prog) : DecidablePred (s.Runs mode)
  | .ropens _ | .reader _ | .rclose _ => inferInstanceAs (Decidable (_∈_))
  | .wopens _ | .writer _ | .wclose _ => inferInstanceAs (Decidable (_∈_))
  | .signal _ => inferInstanceAs (Decidable (_ ∧ _))
  | .relay => inferInstanceAs (Decidable (_∈_))

/-- Labels of a round. -/
inductive Act
  /-- The main process, with the outcome of a start. -/
  | main (ok : Bool)
  /-- The tasks, their endpoints and the signal handlers. -/
  | sess (a : TwoTaskClosing.Act)

/-- One step of a round. -/
def step (mode : ModeT) (opts : OptionsS) (s : Prog) : Act → Option Prog
  | .main ok => mainStep mode s ok
  | .sess a =>
    if s.Runs mode a then (TwoTaskClosing.step mode opts s.sess a).map fun t => {s with sess := t}
    else none

/-- The outcomes of one step of the main process. -/
inductive MainStep (mode : ModeT) (s : Prog) : Bool → Prog → Prop
  /-- All tasks are started. -/
  | all {ok : Bool} (hpc : s.pc=.starting []) :
    MainStep mode s ok {s with pc := .reaping (reapOrder mode)}
  /-- A task is started. -/
  | start {r : Role} {rest : List Role} (hpc : s.pc=.starting (r::rest)) :
    MainStep mode s true {s with started := s.started++[r],pc := .starting rest}
  /-- A task cannot be started. -/
  | fail {r : Role} {rest : List Role} (hpc : s.pc=.starting (r::rest)) :
    MainStep mode s false {s with pc := .releasing (.mark .errlog),unstarted := true}
  /-- A statement of `release`. -/
  | releasing {ok : Bool} {p q : RelPc} {g : ShrS} (hpc : s.pc=.releasing p)
    (hr : release (errIni+Role.arbiter.idx) s.sess.sys.shm p=(g,some q)) :
    MainStep mode s ok {s with sess.sys.shm := g,pc := .releasing q}
  /-- The last statement of `release`. -/
  | released {ok : Bool} {p : RelPc} {g : ShrS} (hpc : s.pc=.releasing p)
    (hr : release (errIni+Role.arbiter.idx) s.sess.sys.shm p=(g,none)) :
    MainStep mode s ok {s with sess.sys.shm := g,pc := .cleanup (-1)}
  /-- All tasks were looked at. -/
  | reaped {ok : Bool} (hpc : s.pc=.reaping []) : MainStep mode s ok {s with pc := .verdict 0 0}
  /-- A task that was not started. -/
  | skip {ok : Bool} {r : Role} {rest : List Role} (hpc : s.pc=.reaping (r::rest))
    (hn : r∉s.started) : MainStep mode s ok {s with pc := .reaping rest}
  /-- The signalling thread is cancelled. -/
  | cancel {ok : Bool} {rest : List Role} (hpc : s.pc=.reaping (.sigrelay::rest)) :
    MainStep mode s ok {s with started := s.started.erase .sigrelay,pc := .reaping rest}
  /-- A task has left. -/
  | join {ok : Bool} {r : Role} {rest : List Role} (hpc : s.pc=.reaping (r::rest))
    (hr : r≠.sigrelay) (hl : Left s.sess r) : MainStep mode s ok {s with pc := .reaping rest}
  /-- An entry of the log. -/
  | entry {ok : Bool} {i : ℕ} {ret : ℤ} (hpc : s.pc=.verdict i ret) (hi : i<errlCnt) :
    MainStep mode s ok
      {s with pc := .verdict (i+1) (if s.sess.sys.shm.errlog i=true then -1 else ret)}
  /-- The verdict. -/
  | judged {ok : Bool} {i : ℕ} {ret : ℤ} (hpc : s.pc=.verdict i ret) (hi : errlCnt ≤ i) :
    MainStep mode s ok {s with pc := .cleanup ret}
  /-- The environment is torn down. -/
  | cleanup {ok : Bool} {ret : ℤ} (hpc : s.pc=.cleanup ret) :
    MainStep mode s ok {s with pc := .returned ret}

variable {mode : ModeT} {opts : OptionsS} {s t : Prog}

/-- The executable main process does nothing else. -/
theorem mainStep_cases {ok : Bool} (h : mainStep mode s ok=some t) : MainStep mode s ok t := by
  cases hpc : s.pc with
  | starting todo =>
    cases todo with
    | nil =>
      simp only [mainStep,hpc,Option.some.injEq] at h
      subst h
      exact .all hpc
    | cons r rest =>
      simp only [mainStep,hpc] at h
      cases ok with
      | true =>
        cases h
        exact .start hpc
      | false =>
        cases h
        exact .fail hpc
  | releasing p =>
    simp only [mainStep,hpc,Option.some.injEq] at h
    subst h
    cases hr : release (errIni+Role.arbiter.idx) s.sess.sys.shm p with
    | mk g next =>
      cases next with
      | some q => exact .releasing hpc hr
      | none => exact .released hpc hr
  | reaping todo =>
    cases todo with
    | nil =>
      simp only [mainStep,hpc,Option.some.injEq] at h
      subst h
      exact .reaped hpc
    | cons r rest =>
      simp only [mainStep,hpc] at h
      split at h
      · next hn =>
        cases h
        exact .skip hpc hn
      · split at h
        · next he =>
          cases h
          subst he
          exact .cancel hpc
        · next hr =>
          split at h
          · next hl =>
            cases h
            exact .join hpc hr hl
          · cases h
  | verdict i ret =>
    simp only [mainStep,hpc] at h
    split at h
    · next hi =>
      cases h
      exact .entry hpc hi
    · next hi =>
      cases h
      exact .judged hpc (not_lt.mp hi)
  | cleanup ret =>
    simp only [mainStep,hpc,Option.some.injEq] at h
    subst h
    exact .cleanup hpc
  | returned ret =>
    simp only [mainStep,hpc] at h
    cases h

/-- The steps of the tasks are those of a session that someone makes. -/
theorem sess_cases {a : TwoTaskClosing.Act} (h : step mode opts s (.sess a)=some t) :
    s.Runs mode a ∧ ∃ u,TwoTaskClosing.step mode opts s.sess a=some u ∧ t={s with sess := u} := by
  unfold step at h
  dsimp only at h
  split at h
  · next hr =>
    obtain ⟨u,hu,rfl⟩ := Option.map_eq_some_iff.mp h
    exact ⟨hr,u,hu,rfl⟩
  · cases h

/-- An ended reading task makes no step. -/
theorem rstep_ne_ended {sys sys' : TwoTask.Sys} {io : Io} (h : TwoTask.RStep sys io sys') :
    sys.rpc≠.ended := by
  intro he
  cases h with
  | stored hpc _ => cases he.symm.trans hpc
  | retry hpc _ => cases he.symm.trans hpc
  | _ hpc => cases he.symm.trans hpc

/-- An ended writing task makes no step. -/
theorem wstep_ne_ended {sys sys' : TwoTask.Sys} {io : Io} (h : TwoTask.WStep opts sys io sys') :
    sys.wpc≠.ended := by
  intro he
  cases h with
  | retry hpc _ => cases he.symm.trans hpc
  | _ hpc => cases he.symm.trans hpc

/-- Nothing is closed from an empty queue. -/
theorem closeStep_todo {e e' : Ends} {io : CloseIo} (h : e.closeStep io=some e') : e.todo≠[] := by
  intro he
  unfold Ends.closeStep at h
  rw [he] at h
  cases h

/-- A task that has left has left for good. -/
theorem Left.step {u v : Sess} {r : Role} (hl : Left u r) (h : SessStep mode opts u a v) :
    Left v r := by
  cases r with
  | reader =>
    obtain ⟨hpc,htodo⟩ := hl
    cases h with
    | ropens hb _ _ => exact absurd hpc (rstep_ne_ended (TwoTask.readerStep_cases hb))
    | reader hb _ => exact absurd hpc (rstep_ne_ended (TwoTask.readerStep_cases hb))
    | rclose he => exact absurd htodo (closeStep_todo he)
    | wopens hb _ _ => exact ⟨(TwoTask.writerStep_cases hb).rpc.trans hpc,htodo⟩
    | writer hb _ => exact ⟨(TwoTask.writerStep_cases hb).rpc.trans hpc,htodo⟩
    | _ => exact ⟨hpc,htodo⟩
  | writer =>
    obtain ⟨hpc,htodo⟩ := hl
    cases h with
    | wopens hb _ _ => exact absurd hpc (wstep_ne_ended (TwoTask.writerStep_cases hb))
    | writer hb _ => exact absurd hpc (wstep_ne_ended (TwoTask.writerStep_cases hb))
    | wclose he => exact absurd htodo (closeStep_todo he)
    | ropens hb _ _ => exact ⟨(TwoTask.readerStep_cases hb).wpc.trans hpc,htodo⟩
    | reader hb _ => exact ⟨(TwoTask.readerStep_cases hb).wpc.trans hpc,htodo⟩
    | _ => exact ⟨hpc,htodo⟩
  | _ => trivial

/-- Nobody but the main process is left. -/
structure Reaped (u : Sess) (started : List Role) : Prop where
  /-- The signalling thread was cancelled, or there is none. -/
  relay : .sigrelay∉started
  /-- The reading task has left. -/
  reader : Left u .reader
  /-- The writing task has left. -/
  writer : Left u .writer

/-- What a position of the main process knows of the tasks. -/
def Placed (mode : ModeT) (s : Prog) : MPc → Prop
  | .starting todo => s.unstarted=false ∧ s.started++todo=startOrder mode
  | .releasing _ => s.unstarted=true
  | .reaping todo =>
    s.unstarted=false ∧ (∀ r∈startOrder mode,r∈s.started ∨ r=.sigrelay) ∧
      s.started.Nodup ∧ (.sigrelay∈s.started → .sigrelay∈todo) ∧
      ∀ r∈startOrder mode,r∉todo → Left s.sess r
  | .verdict _ _ => s.unstarted=false ∧ Reaped s.sess s.started
  | .cleanup ret => s.unstarted=true ∧ ret=-1 ∨ s.unstarted=false ∧ Reaped s.sess s.started
  | .returned ret => s.unstarted=true ∧ ret=-1 ∨ s.unstarted=false ∧ Reaped s.sess s.started

/-- Nobody makes a step any more but the main process, which may still handle
signals when it is a process of its own. -/
theorem Reaped.alone {a : TwoTaskClosing.Act} (hi : Reaped s.sess s.started)
    (h : step mode opts s (.sess a)=some t) :
    mode=.mp ∧ a=.signal .arbiter ∧
      t={s with sess := {s.sess with
        sys := TwoTask.signalStep s.sess.sys .arbiter,signalled := true}} := by
  obtain ⟨hr,u,hu,rfl⟩ := sess_cases h
  obtain ⟨hrpc,hrtodo⟩ := hi.reader
  obtain ⟨hwpc,hwtodo⟩ := hi.writer
  cases TwoTaskClosing.step_cases hu with
  | ropens hb _ _ => exact absurd hrpc (rstep_ne_ended (TwoTask.readerStep_cases hb))
  | reader hb _ => exact absurd hrpc (rstep_ne_ended (TwoTask.readerStep_cases hb))
  | rclose he => exact absurd hrtodo (closeStep_todo he)
  | wopens hb _ _ => exact absurd hwpc (wstep_ne_ended (TwoTask.writerStep_cases hb))
  | writer hb _ => exact absurd hwpc (wstep_ne_ended (TwoTask.writerStep_cases hb))
  | wclose he => exact absurd hwtodo (closeStep_todo he)
  | @signal role =>
    obtain ⟨hm,rfl|⟨hs,hn⟩⟩ := hr
    · exact ⟨hm,rfl,rfl⟩
    · cases role with
      | reader => exact absurd hi.reader hn
      | writer => exact absurd hi.writer hn
      | _ => exact absurd trivial hn
  | relay => exact absurd hr hi.relay

/-- Both tasks are started in every mode that has them. -/
theorem started_tasks (hm : mode≠.sp) : .reader∈startOrder mode ∧ .writer∈startOrder mode := by
  cases mode with
  | sp => exact absurd rfl hm
  | _ => decide

/-- What is started is started once, and looked at. -/
theorem startOrder_sound (mode : ModeT) :
    (startOrder mode).Nodup ∧ ∀ r∈startOrder mode,r∈reapOrder mode := by
  cases mode <;> decide

/-- A task that was passed over was not started, and one that has left is passed
over with the others. -/
theorem left_of_rest {u : Sess} {rest order : List Role} {r : Role}
    (hall : ∀ q∈order,q∉r::rest → Left u q) (hr : r∈order → Left u r) :
    ∀ q∈order,q∉rest → Left u q := by
  intro q hq hn
  by_cases he : q=r
  · subst he
    exact hr hq
  · exact hall q hq (List.not_mem_cons_of_ne_of_not_mem he hn)

/-- The main process knows what its position says. -/
theorem Placed.main {ok : Bool} (hm : mode≠.sp) (hi : Placed mode s s.pc)
    (h : MainStep mode s ok t) : Placed mode t t.pc := by
  cases h with
  | all hpc =>
    rw [hpc] at hi
    obtain ⟨hu,ho⟩ := hi
    obtain ⟨hd,hmem⟩ := startOrder_sound mode
    rw [List.append_nil] at ho
    refine ⟨hu,fun r hr => .inl (ho ▸ hr),ho ▸ hd,fun hs => hmem _ (ho ▸ hs),fun r hr hn => ?_⟩
    exact absurd (hmem r hr) hn
  | start hpc =>
    rw [hpc] at hi
    exact ⟨hi.1,(List.append_assoc _ _ _).trans hi.2⟩
  | fail hpc => exact rfl
  | releasing hpc hr =>
    rw [hpc] at hi
    exact hi
  | released hpc hr =>
    rw [hpc] at hi
    exact .inl ⟨hi,rfl⟩
  | reaped hpc =>
    rw [hpc] at hi
    obtain ⟨hu,_,_,hs,hl⟩ := hi
    obtain ⟨hr,hw⟩ := started_tasks hm
    exact ⟨hu,fun hn => List.not_mem_nil (hs hn),hl _ hr List.not_mem_nil,
      hl _ hw List.not_mem_nil⟩
  | @skip _ r rest hpc hn =>
    rw [hpc] at hi
    obtain ⟨hu,ho,hd,hs,hl⟩ := hi
    refine ⟨hu,ho,hd,fun hm => ?_,left_of_rest hl fun hr => ?_⟩
    · exact (List.mem_cons.mp (hs hm)).resolve_left fun he => hn (he ▸ hm)
    · rcases ho r hr with hm|rfl
      · exact absurd hm hn
      · exact trivial
  | cancel hpc =>
    rw [hpc] at hi
    obtain ⟨hu,ho,hd,_,hl⟩ := hi
    refine ⟨hu,fun r hr => ?_,hd.erase _,fun hm => ?_,left_of_rest hl fun _ => trivial⟩
    · by_cases he : r=.sigrelay
      · exact .inr he
      · exact .inl ((List.mem_erase_of_ne he).mpr ((ho r hr).resolve_right he))
    · exact absurd rfl (hd.mem_erase_iff.mp hm).1
  | join hpc hr hleft =>
    rw [hpc] at hi
    obtain ⟨hu,ho,hd,hs,hl⟩ := hi
    refine ⟨hu,ho,hd,fun hm => ?_,left_of_rest hl fun _ => hleft⟩
    exact (List.mem_cons.mp (hs hm)).resolve_left hr.symm
  | entry hpc hi' =>
    rw [hpc] at hi
    exact hi
  | judged hpc _ =>
    rw [hpc] at hi
    exact .inr hi
  | cleanup hpc =>
    rw [hpc] at hi
    exact hi

/-- The tasks do not change what the main process knows of them. -/
theorem Placed.sess {a : TwoTaskClosing.Act} (hi : Placed mode s s.pc)
    (h : step mode opts s (.sess a)=some t) : Placed mode t t.pc := by
  obtain ⟨_,u,hu,rfl⟩ := sess_cases h
  have hleft : ∀ r,Left s.sess r → Left u r := fun r hl => hl.step (TwoTaskClosing.step_cases hu)
  have hreaped : Reaped s.sess s.started → Reaped u s.started := fun hr =>
    ⟨hr.relay,hleft _ hr.reader,hleft _ hr.writer⟩
  change Placed mode _ s.pc
  cases hpc : s.pc with
  | reaping todo =>
    rw [hpc] at hi
    obtain ⟨hu,ho,hd,hs,hl⟩ := hi
    exact ⟨hu,ho,hd,hs,fun r hr hn => hleft r (hl r hr hn)⟩
  | verdict i ret =>
    rw [hpc] at hi
    exact hi.imp_right hreaped
  | cleanup ret =>
    rw [hpc] at hi
    exact hi.imp_right (And.imp_right hreaped)
  | returned ret =>
    rw [hpc] at hi
    exact hi.imp_right (And.imp_right hreaped)
  | _ =>
    rw [hpc] at hi
    exact hi

/-- In every state of every run the main process knows what its position says. -/
theorem Placed.run {buf : BufS} {fdi fdo : FdpackS} {ok : Prog → Act → Prop} (hm : mode≠.sp)
    (h : Run (step mode opts) ok (Prog.init mode buf fdi fdo) s) : Placed mode s s.pc := by
  have h0 : Placed mode (Prog.init mode buf fdi fdo) (.starting (startOrder mode)) :=
    ⟨rfl,List.nil_append _⟩
  refine h.invariant (I:=fun s => Placed mode s s.pc) h0 fun s a t hi _ hs => ?_
  cases a with
  | main ok => exact hi.main hm (mainStep_cases hs)
  | sess a => exact hi.sess hs

/-- Unless a start has failed, the main process leaves the tasks alone. -/
theorem project {buf : BufS} {fdi fdo : FdpackS} {ok : Prog → Act → Prop}
    (h : Run (step mode opts) ok (Prog.init mode buf fdi fdo) s) (hu : s.unstarted=false) :
    Reach (TwoTaskClosing.step mode opts) (Sess.init buf fdi fdo) s.sess ∧
      ∀ p,s.pc≠.releasing p := by
  revert hu
  refine h.invariant (I:=fun s => s.unstarted=false →
    Reach (TwoTaskClosing.step mode opts) (Sess.init buf fdi fdo) s.sess ∧ ∀ p,s.pc≠.releasing p)
    (fun _ => ⟨.refl,nofun⟩) fun s a t hi _ hs hu => ?_
  cases a with
  | main ok =>
    cases mainStep_cases hs with
    | fail hpc => cases hu
    | releasing hpc hr => exact absurd hpc ((hi hu).2 _)
    | released hpc hr => exact absurd hpc ((hi hu).2 _)
    | _ => exact ⟨(hi hu).1,nofun⟩
  | sess a =>
    obtain ⟨_,u,ht,rfl⟩ := sess_cases hs
    exact ⟨.tail (hi hu).1 trivial ht,(hi hu).2⟩

/-- What has happened since the tasks were reaped: at most a signal. -/
structure Since (u v : Sess) : Prop where
  /-- Log entries stay. -/
  errlog : ∀ i,u.sys.shm.errlog i=true → v.sys.shm.errlog i=true
  /-- Nothing is moved. -/
  tr : v.sys.tr=u.sys.tr
  /-- The endpoints of the reading task stay. -/
  rends : v.rends=u.rends
  /-- The endpoints of the writing task stay. -/
  wends : v.wends=u.wends
  /-- What was signalled stays signalled. -/
  signalled : u.signalled=true → v.signalled=true

/-- What a verdict is about: the tasks as they were reaped, and the entries that
were looked at. -/
structure Judges (u v : Sess) (i : ℕ) (ret : ℤ) : Prop where
  /-- At most a signal came later. -/
  since : Since u v
  /-- No entry is missed. -/
  sees : ∀ k,k < i → u.sys.shm.errlog k=true → ret=-1
  /-- A verdict is one of two numbers. -/
  either : ret=0 ∨ ret=-1
  /-- A negative one is due to an entry. -/
  logged : ret=-1 → Logged v.sys.shm

/-- There was a state of the tasks in which both had left and that a verdict is
about. -/
def HasJudged (mode : ModeT) (opts : OptionsS) (start v : Sess) (i : ℕ) (ret : ℤ) : Prop :=
  ∃ u,Reach (TwoTaskClosing.step mode opts) start u ∧ Left u .reader ∧ Left u .writer ∧
    Judges u v i ret

/-- What a position of the main process says of the verdict. -/
def Judged (mode : ModeT) (opts : OptionsS) (start : Sess) (s : Prog) : MPc → Prop
  | .verdict i ret => HasJudged mode opts start s.sess i ret
  | .cleanup ret => s.unstarted=false → HasJudged mode opts start s.sess errlCnt ret
  | .returned ret => s.unstarted=false → HasJudged mode opts start s.sess errlCnt ret
  | _ => True

variable {start : Sess}

/-- An entry of the log is taken into account. -/
theorem Judges.entry {u v : Sess} {i : ℕ} {ret : ℤ} (h : Judges u v i ret) (hi : i<errlCnt) :
    Judges u v (i+1) (if v.sys.shm.errlog i=true then -1 else ret) := by
  by_cases hl : v.sys.shm.errlog i=true
  · rw [if_pos hl]
    exact ⟨h.since,fun _ _ _ => rfl,.inr rfl,fun _ => ⟨i,hi,hl⟩⟩
  · rw [if_neg hl]
    refine ⟨h.since,fun k hk hu => ?_,h.either,h.logged⟩
    rcases Nat.lt_succ_iff_lt_or_eq.mp hk with hlt|rfl
    · exact h.sees k hlt hu
    · exact absurd (h.since.errlog k hu) hl

/-- A verdict is not changed by a signal that comes later. -/
theorem Judges.signal {u v : Sess} {i : ℕ} {ret : ℤ} (h : Judges u v i ret) (role : Role) :
    Judges u {v with sys := TwoTask.signalStep v.sys role,signalled := true} i ret := by
  have hr : Raised v.sys.shm (TwoTask.signalStep v.sys role).shm :=
    markStep_raised _ _ _
  obtain ⟨he,ht,hre,hwe,_⟩ := h.since
  exact ⟨⟨fun k hk => hr.errlog k (he k hk),ht,hre,hwe,fun _ => rfl⟩,h.sees,h.either,
    fun hret => (h.logged hret).mono hr⟩

/-- The main process judges as its position says. -/
theorem Judged.main {ok : Bool} (hi : Judged mode opts start s s.pc) (hp : Placed mode s s.pc)
    (hp' : Placed mode t t.pc)
    (hr : s.unstarted=false → Reach (TwoTaskClosing.step mode opts) start s.sess)
    (h : MainStep mode s ok t) : Judged mode opts start t t.pc := by
  cases h with
  | released hpc _ =>
    rw [hpc] at hp
    intro hu
    exact absurd (hu.symm.trans hp) Bool.false_ne_true
  | reaped hpc =>
    obtain ⟨hu,_,hrd,hw⟩ := hp'
    exact ⟨s.sess,hr hu,hrd,hw,⟨fun _ => id,rfl,rfl,rfl,id⟩,nofun,.inl rfl,nofun⟩
  | entry hpc hlt =>
    rw [hpc] at hi
    obtain ⟨u,hu,hrd,hw,hj⟩ := hi
    exact ⟨u,hu,hrd,hw,hj.entry hlt⟩
  | judged hpc hle =>
    rw [hpc] at hi
    obtain ⟨u,hu,hrd,hw,hj⟩ := hi
    exact fun _ => ⟨u,hu,hrd,hw,hj.since,fun k hk => hj.sees k (hk.trans_le hle),hj.either,hj.logged⟩
  | cleanup hpc =>
    rw [hpc] at hi
    exact hi
  | _ => trivial

/-- The tasks do not change a verdict. -/
theorem Judged.sess {a : TwoTaskClosing.Act} (hi : Judged mode opts start s s.pc)
    (hp : Placed mode s s.pc) (h : step mode opts s (.sess a)=some t) :
    Judged mode opts start t t.pc := by
  have hlater : ∀ i ret,Reaped s.sess s.started → HasJudged mode opts start s.sess i ret →
      t.pc=s.pc ∧ t.unstarted=s.unstarted ∧ HasJudged mode opts start t.sess i ret := by
    intro i ret hreap ⟨u,hu,hrd,hw,hj⟩
    obtain ⟨_,_,rfl⟩ := hreap.alone h
    exact ⟨rfl,rfl,u,hu,hrd,hw,hj.signal .arbiter⟩
  have hpc : t.pc=s.pc ∧ t.unstarted=s.unstarted := by
    obtain ⟨_,u,_,rfl⟩ := sess_cases h
    exact ⟨rfl,rfl⟩
  rw [hpc.1]
  cases hs : s.pc with
  | verdict i ret =>
    rw [hs] at hi hp
    exact (hlater i ret hp.2 hi).2.2
  | cleanup ret =>
    rw [hs] at hi hp
    intro hu
    rw [hpc.2] at hu
    have hreap := hp.resolve_left fun hn => Bool.false_ne_true (hu.symm.trans hn.1)
    exact (hlater errlCnt ret hreap.2 (hi hu)).2.2
  | returned ret =>
    rw [hs] at hi hp
    intro hu
    rw [hpc.2] at hu
    have hreap := hp.resolve_left fun hn => Bool.false_ne_true (hu.symm.trans hn.1)
    exact (hlater errlCnt ret hreap.2 (hi hu)).2.2
  | _ => trivial

/-- In every state of every run the main process judges as its position says. -/
theorem Judged.run {buf : BufS} {fdi fdo : FdpackS} {ok : Prog → Act → Prop} (hm : mode≠.sp)
    (h : Run (step mode opts) ok (Prog.init mode buf fdi fdo) s) :
    Judged mode opts (Sess.init buf fdi fdo) s s.pc := by
  have hall : Placed mode s s.pc ∧ (s.unstarted=false →
      Reach (TwoTaskClosing.step mode opts) (Sess.init buf fdi fdo) s.sess) ∧
      Judged mode opts (Sess.init buf fdi fdo) s s.pc := by
    induction h with
    | refl => exact ⟨⟨rfl,List.nil_append _⟩,fun _ => .refl,trivial⟩
    | @tail s t a hr ha hs ih =>
      obtain ⟨hp,hre,hj⟩ := ih
      have hrun := hr.tail ha hs
      have hp' := Placed.run hm hrun
      refine ⟨hp',fun hu => (project hrun hu).1,?_⟩
      cases a with
      | main ok => exact hj.main hp hp' hre (mainStep_cases hs)
      | sess a => exact hj.sess hp hs
  exact hall.2.2

/-- A file that is not open yet. -/
def plainFile (dir : Dir) : FdpackS := ⟨.fdfile ['f'],-1,dir,false⟩

/-- The reading task is started and at its first `Pm` when the next start fails. -/
def failedStart (mode : ModeT) : List Act :=
  ((startOrder mode).dropLast.map fun _ => .main true)++[.sess (.ropens 3),.main false]++
    List.replicate 6 (.main true)

/-- A reading task at its first `Pm` takes a free mutex, wherever the main process
is. -/
theorem reader_locks (hruns : .reader∈s.started) (htodo : s.sess.rends.todo=[])
    (hpc : s.sess.sys.rpc=.lock) (hv : s.sess.sys.shm.vars=none) :
    ∃ t,step mode opts s (.sess (.reader .tau))=some t ∧ t.sess.sys.shm.vars=some .reader := by
  obtain ⟨sys,hsys,hlock⟩ : ∃ sys,TwoTask.readerStep s.sess.sys .tau=some sys ∧
      sys.shm.vars=some .reader :=
    ⟨{s.sess.sys with shm.vars := some .reader,rpc := .top},
      by simp only [TwoTask.readerStep,hpc,if_pos hv],rfl⟩
  have hn : ¬(s.sess.rends.todo≠[] ∨ opensIo .tau=true) :=
    fun h => h.elim (fun hne => hne htodo) Bool.false_ne_true
  have hr : s.Runs mode (.reader .tau) := hruns
  refine ⟨{s with
    sess.sys := sys
    sess.rends.todo := TwoTaskClosing.readerCloses mode s.sess.sys.rpc sys.rpc},?_,hlock⟩
  rw [step,if_pos hr,TwoTaskClosing.step,if_neg hn,hsys]
  rfl

/-- While no start has failed, nobody but a signal handler of the main process
touches the environment once the log is judged, and none at all between threads.
After a failed start the environment may be torn down under a running task. -/
theorem torn_down_alone (mode : TaskMode) (opts : OptionsS) (buf : BufS) :
    (∀ fdi fdo s,Reach (step mode.1 opts) (Prog.init mode.1 buf fdi fdo) s → s.unstarted=false →
      (∃ i ret,s.pc=.verdict i ret) ∨ (∃ ret,s.pc=.cleanup ret) ∨ (∃ ret,s.pc=.returned ret) →
      ∀ a t,step mode.1 opts s (.sess a)=some t → mode.1=.mp ∧ a=.signal .arbiter) ∧
    ∃ fdi fdo s,Reach (step mode.1 opts) (Prog.init mode.1 buf fdi fdo) s ∧ s.unstarted=true ∧
      s.pc=.returned (-1) ∧
      ∃ io t,step mode.1 opts s (.sess (.reader io))=some t ∧ s.sess.sys.shm.vars=none ∧
        t.sess.sys.shm.vars=some .reader := by
  refine ⟨fun fdi fdo s h hu hpc a t hs => ?_,plainFile .inp,plainFile .out,?_⟩
  · have hp := Placed.run mode.2 h
    have hreap : Reaped s.sess s.started := by
      rcases hpc with ⟨i,ret,hpc⟩|⟨ret,hpc⟩|⟨ret,hpc⟩
      · rw [hpc] at hp
        exact hp.2
      · rw [hpc] at hp
        exact (hp.resolve_left fun hn => Bool.false_ne_true (hu.symm.trans hn.1)).2
      · rw [hpc] at hp
        exact (hp.resolve_left fun hn => Bool.false_ne_true (hu.symm.trans hn.1)).2
    obtain ⟨hm,ha,_⟩ := hreap.alone hs
    exact ⟨hm,ha⟩
  · obtain ⟨mode,hm⟩ := mode
    obtain ⟨s,hr,hf⟩ := exec_reach (f:=fun s : Prog => ((s.pc,s.unstarted,s.started),
        s.sess.sys.rpc,s.sess.rends.todo,s.sess.sys.shm.vars))
      (b:=((.returned (-1),true,(startOrder mode).dropLast),.lock,[],none)) (by
        cases mode with
        | sp => exact absurd rfl hm
        | _ => rfl :
      (exec (step mode opts) (Prog.init mode buf (plainFile .inp) (plainFile .out))
        (failedStart mode)).map _=some _)
    have hpc := congrArg (fun x => x.1.1) hf
    have hu := congrArg (fun x => x.1.2.1) hf
    have hstart := congrArg (fun x => x.1.2.2) hf
    have hrpc := congrArg (fun x => x.2.1) hf
    have htodo := congrArg (fun x => x.2.2.1) hf
    have hv := congrArg (fun x => x.2.2.2) hf
    dsimp only at hpc hu hstart hrpc htodo hv
    have hruns : .reader∈s.started := by
      rw [hstart]
      cases mode with
      | sp => exact absurd rfl hm
      | _ => decide
    have hlocks : ∃ t,step mode opts s (.sess (.reader .tau))=some t ∧
        t.sess.sys.shm.vars=some .reader := reader_locks hruns htodo hrpc hv
    obtain ⟨t,ht,hlock⟩ := hlocks
    exact ⟨s,hr,hu,hpc,.tau,t,ht,hv,hlock⟩

/-- An open, a read or a write has failed for good. -/
def Failed (s : Sess) : Prop :=
  s.rends.unopened=true ∨ s.wends.unopened=true ∨ s.sys.tr.rfail=true ∨ s.sys.tr.wfail=true

/-- The tasks as they were reaped had failed if they have. -/
theorem Since.upset {u v : Sess} (h : Since u v) (hf : Failed v) : Upset u := by
  unfold Failed at hf
  rw [h.rends,h.wends,h.tr] at hf
  exact hf.imp_right (Or.imp_right .inr)

/-- The result of a round. After a failed start it is negative. Otherwise it is
zero or minus one: no failure is missed, a negative result is due to a failure
or a signal, and with zero the transfer is complete. What the tasks have opened
they have closed either way. -/
theorem round_status (mode : TaskMode) (cfg : Config) (fdi fdo : FdpackS) (s : Prog) (ret : ℤ)
    (h : Reach (step mode.1 cfg.opts) (Prog.init mode.1 cfg.buf fdi fdo) s)
    (hpc : s.pc=.returned ret) :
    (s.unstarted=true → ret=-1) ∧
    (s.unstarted=false →
      (ret=0 ∨ ret=-1) ∧ (Failed s.sess → ret=-1) ∧ (ret=-1 → Upset s.sess) ∧
      (ret=0 → cfg.opts.rline=false → Complete cfg.opts s.sess.sys.tr) ∧
      (s.sess.rends.unopened=false → s.sess.rends.fdi.fd=-1) ∧
      (s.sess.wends.unopened=false → s.sess.wends.fdo.fd=-1) ∧
      (mode.1=.mp → s.sess.rends.fdi.fd=-1 ∧ s.sess.rends.fdo.fd=-1 ∧
        s.sess.wends.fdi.fd=-1 ∧ s.sess.wends.fdo.fd=-1)) := by
  have hp := Placed.run mode.2 h
  have hj := Judged.run mode.2 h
  rw [hpc] at hp hj
  refine ⟨fun hu => ?_,fun hu => ?_⟩
  · exact (hp.resolve_right fun hn => Bool.false_ne_true (hn.1.symm.trans hu)).2
  · obtain ⟨u,hru,hrd,hw,hjud⟩ := hj hu
    obtain ⟨hrs,_⟩ := project h hu
    have hlog : Logged u.sys.shm → ret=-1 := fun ⟨i,hi,hl⟩ => hjud.sees i hi hl
    have hupset : Upset u → ret=-1 := fun hup =>
      hlog ((TwoTaskClosing.logged_iff hru hrd.1 hw.1).mpr hup)
    have hclosed := TwoTaskClosing.all_closed hru ⟨hrd.1,hw.1,hrd.2,hw.2⟩
    rw [←hjud.since.rends,←hjud.since.wends] at hclosed
    refine ⟨hjud.either,fun hf => hupset (hjud.since.upset hf),fun hret => ?_,fun hz hb => ?_,
      hclosed⟩
    · exact (TwoTaskClosing.Cause.run hrs).logged (hjud.logged hret)
    · rw [hjud.since.tr]
      refine two_complete cfg hb (TwoTaskClosing.project hru) hrd.1 hw.1 fun hl => ?_
      exact absurd (hz.symm.trans (hlog hl)) (by decide)

/-- Both files are opened, two bytes are moved, and both are closed. -/
def quietTasks : List TwoTaskClosing.Act :=
  [.ropens 3]++
  ([.tau,.tau,.tau,.data [1,2],.tau,.tau,.tau,.tau,.tau,.eof,.tau,.tau] : List Io).map .reader++
  ([.tau,.close none] : List CloseIo).map .rclose++
  [.wopens 4]++
  ([.tau,.tau,.tau,.tau,.tau,.tau,.tau,.wrote 2,.tau,.tau,.tau] : List Io).map .writer++
  ([.tau,.close none] : List CloseIo).map .wclose

/-- A round of two threads in which all goes well. -/
theorem round_status_zero :
    ∃ s,Reach (step .mt (small false false).opts)
      (Prog.init .mt (small false false).buf (plainFile .inp) (plainFile .out)) s ∧
      Complete (small false false).opts s.sess.sys.tr ∧ s.sess.wends.fdo.fd=-1 := by
  obtain ⟨s,hs,hf⟩ := exec_reach
    (f:=fun s : Prog => (s.pc,s.unstarted,s.sess.wends.unopened)) (by rfl :
    (exec (step .mt (small false false).opts)
      (Prog.init .mt (small false false).buf (plainFile .inp) (plainFile .out))
      (List.replicate 4 (.main true)++quietTasks.map .sess++
        List.replicate 18 (.main true))).map
      (fun s => (s.pc,s.unstarted,s.sess.wends.unopened))=some (.returned 0,false,false))
  have hpc := congrArg Prod.fst hf
  have hu := congrArg (fun x => x.2.1) hf
  have ho := congrArg (fun x => x.2.2) hf
  have hall := (round_status ⟨.mt,by decide⟩ (small false false) (plainFile .inp)
    (plainFile .out) s 0 hs hpc).2 hu
  exact ⟨s,hs,hall.2.2.2.1 rfl rfl,hall.2.2.2.2.2.1 ho⟩

end Yancat.Arbiter
