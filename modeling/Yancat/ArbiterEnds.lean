import Yancat.Arbiter
import Yancat.TwoTaskEnds

/-!
# The main process returns

The main process waits for its tasks, and the tasks come to an end. A rank over
the statements of all of them, the calls of a close included, bounds the length
of a round, and as long as the main process has not returned somebody can go on:
itself, a task, or a close.
-/

namespace Yancat.Arbiter

open Buffer Setup Shared Transition Fdpack Closing
open TwoTask (relLeft release_left release_ne relLeft_pos)
open TwoTaskClosing (Sess readerCloses writerCloses)
open Options (Dir ModeT)

/-- Every start succeeds, and the tasks are fed. -/
def feeds (bytes : ℕ) (s : Prog) : Act → Prop
  | .main ok => ok=true
  | .sess (.reader io) => TwoTask.feeds bytes s.sess.sys (.reader io)
  | .sess (.writer io) => TwoTask.feeds bytes s.sess.sys (.writer io)
  | _ => True

/-- The calls of a close that are behind. -/
@[simp] def callsBehind : ClosePc → ℕ
  | .enter => 0
  | .fsync => 1
  | .close => 2

/-- The calls to come in the closes of a task. -/
def closesLeft (e : Ends) : ℕ := 3*e.todo.length-callsBehind e.pc

/-- The statements to come in the main process. -/
@[simp] def MPc.left : MPc → ℕ
  | .starting todo => todo.length+21
  | .releasing p => relLeft p+1
  | .reaping todo => todo.length+15
  | .verdict i _ => errlCnt-i+2
  | .cleanup _ => 1
  | .returned _ => 0

/-- Where everybody is. -/
def Prog.places (s : Prog) :
    (TwoTask.RPc×TwoTask.WPc)×(List Dir×ClosePc)×(List Dir×ClosePc)×MPc :=
  (s.sess.sys.pcs,(s.sess.rends.todo,s.sess.rends.pc),(s.sess.wends.todo,s.sess.wends.pc),s.pc)

/-- What is left of a round. A statement of a task outweighs the closes that may
follow it. -/
def Prog.rank (bytes : ℕ) (s : Prog) : ℕ :=
  10*s.sess.sys.rank bytes+closesLeft s.sess.rends+closesLeft s.sess.wends+s.pc.left

variable {mode : ModeT} {opts : OptionsS} {s t : Prog} {bytes : ℕ}

/-- The calls of a short queue of closes. -/
theorem closesLeft_queue (e : Ends) {todo : List Dir} (h : todo.length≤3) (d : ℕ) :
    closesLeft {e with todo := todo}≤d+9 := by
  unfold closesLeft
  dsimp only
  omega

/-- A task queues at most three closes, and none before it has ended. -/
theorem readerCloses_spec (mode : ModeT) (old new : TwoTask.RPc) :
    (readerCloses mode old new).length≤3 ∧ (new≠.ended → readerCloses mode old new=[]) := by
  have hc : (cleanupFds mode).length≤2 := by cases mode <;> decide
  constructor
  · unfold readerCloses
    split
    · exact hc.trans (by decide)
    · exact Nat.succ_le_succ hc
    · exact Nat.zero_le _
  · intro hn
    cases new with
    | ended => exact absurd rfl hn
    | _ => rfl

/-- A task queues at most three closes, and none before it has ended. -/
theorem writerCloses_spec (mode : ModeT) (old new : TwoTask.WPc) :
    (writerCloses mode old new).length≤3 ∧ (new≠.ended → writerCloses mode old new=[]) := by
  have hc : (cleanupFds mode).length≤2 := by cases mode <;> decide
  constructor
  · unfold writerCloses
    split
    · exact hc.trans (by decide)
    · exact Nat.succ_le_succ hc
    · exact Nat.zero_le _
  · intro hn
    cases new with
    | ended => exact absurd rfl hn
    | _ => rfl

/-- An open does not touch the queue of closes. -/
theorem openSide_queue (e : Ends) (dir : Dir) (res : BitVec 32) :
    (e.openSide dir res).2.todo=e.todo ∧ (e.openSide dir res).2.pc=e.pc := by
  unfold Ends.openSide
  split
  · cases dir <;> exact ⟨rfl,rfl⟩
  · exact ⟨rfl,rfl⟩

/-- A close that goes on has made a call, unless that was interrupted. -/
theorem closeWith_behind {sync : Bool} {fd fd' : FdpackS} {p q : ClosePc} {io : CloseIo}
    (h : closeWith sync fd p io=some (fd',.inl q)) :
    callsBehind p<callsBehind q ∨ q=p := by
  cases p with
  | enter =>
    cases io with
    | tau =>
      unfold closeWith at h
      dsimp only at h
      split at h
      · cases h
      · split at h
        · cases h
          exact .inl (by decide)
        · cases h
          exact .inl (by decide)
    | _ => cases h
  | fsync =>
    cases io with
    | fsync err =>
      cases h
      exact .inl (by decide)
    | _ => cases h
  | close =>
    cases io with
    | close err =>
      cases err with
      | none => cases h
      | some e =>
        unfold closeWith at h
        dsimp only at h
        split at h
        · cases h
          exact .inr rfl
        · cases h
    | _ => cases h

/-- A step of a close leaves fewer calls to come, unless it stays where it is. -/
theorem closesLeft_step {e e' : Ends} {io : CloseIo} (h : e.closeStep io=some e') :
    closesLeft e'<closesLeft e ∨ e'.todo=e.todo ∧ e'.pc=e.pc := by
  have hb : ∀ p : ClosePc,callsBehind p≤2 := fun p => by cases p <;> decide
  unfold Ends.closeStep at h
  split at h
  · cases h
  · next dir rest htodo =>
    obtain ⟨sync,hsync⟩ := fdClose_eq (e.pack dir)
    have hpc := hb e.pc
    split at h
    · cases h
    · next fd q hc =>
      cases h
      rw [hsync] at hc
      have htodo' : (e.setPack dir fd).todo=e.todo := by cases dir <;> rfl
      rcases closeWith_behind hc with hlt|rfl
      · have hq := hb q
        refine .inl ?_
        simp only [closesLeft,htodo',htodo,List.length_cons]
        omega
      · exact .inr ⟨htodo',rfl⟩
    · next fd r hc =>
      cases h
      refine .inl ?_
      simp only [closesLeft,htodo,List.length_cons,callsBehind.eq_1]
      omega

/-- A close that is not over can go on. -/
theorem closeWith_on (sync : Bool) (fd : FdpackS) (p : ClosePc) :
    ∃ io fd' r,closeWith sync fd p io=some (fd',r) ∧ r≠.inl p := by
  cases p with
  | enter =>
    by_cases hn : fd.fd.toInt<0
    · exact ⟨.tau,_,_,if_pos hn,nofun⟩
    · cases sync with
      | true => exact ⟨.tau,_,_,(if_neg hn).trans (if_pos rfl),nofun⟩
      | false => exact ⟨.tau,_,_,(if_neg hn).trans (if_neg Bool.false_ne_true),nofun⟩
  | fsync => exact ⟨.fsync none,_,_,rfl,nofun⟩
  | close => exact ⟨.close none,_,_,rfl,nofun⟩

/-- A task that has closes left can go on with them. -/
theorem closes_on {e : Ends} (h : e.todo≠[]) :
    ∃ io e',e.closeStep io=some e' ∧ (e'.todo,e'.pc)≠(e.todo,e.pc) := by
  obtain ⟨dir,rest,htodo⟩ := List.exists_cons_of_ne_nil h
  obtain ⟨sync,hsync⟩ := fdClose_eq (e.pack dir)
  obtain ⟨io,fd,r,hc,hr⟩ := closeWith_on sync (e.pack dir) e.pc
  rw [←hsync] at hc
  cases r with
  | inl q =>
    have hs : e.closeStep io=
        some {e.setPack dir fd with pc := q,unflushed := e.unflushed || e.reports io} := by
      simp only [Ends.closeStep,htodo,hc]
    exact ⟨io,_,hs,fun he => hr (congrArg Sum.inl (congrArg Prod.snd he))⟩
  | inr v =>
    have hs : e.closeStep io=some {e.setPack dir fd with
        pc := .enter
        todo := rest
        unflushed := e.unflushed || e.reports io} := by
      simp only [Ends.closeStep,htodo,hc]
    refine ⟨io,_,hs,fun he => ?_⟩
    have hl : rest=dir::rest := (congrArg Prod.fst he).trans htodo
    exact List.cons_ne_self dir rest hl.symm

/-- Every statement of the main process leaves less of it. -/
theorem MainStep.left_lt {ok : Bool} (h : MainStep mode s ok t) : t.pc.left<s.pc.left := by
  cases h with
  | all hpc =>
    have hl : (reapOrder mode).length≤5 := by cases mode <;> decide
    simp only [hpc,MPc.left,List.length_nil]
    omega
  | start hpc => simp only [hpc,MPc.left,List.length_cons,Nat.lt_succ_self]
  | fail hpc =>
    simp only [hpc,MPc.left,relLeft]
    omega
  | releasing hpc hr =>
    rw [hpc]
    exact Nat.succ_lt_succ (release_left hr)
  | released hpc hr =>
    rw [hpc]
    exact Nat.succ_lt_succ (relLeft_pos _)
  | reaped hpc =>
    simp only [hpc,MPc.left]
    decide
  | entry hpc hi =>
    simp only [hpc,MPc.left]
    omega
  | judged hpc hi =>
    simp only [hpc,MPc.left]
    omega
  | cleanup hpc => simp [hpc]
  | _ hpc => simp only [hpc,MPc.left,List.length_cons,Nat.lt_succ_self]

/-- The main process moves nothing of the tasks. -/
theorem MainStep.sess_rank {ok : Bool} (h : MainStep mode s ok t) (bytes : ℕ) :
    t.sess.sys.rank bytes=s.sess.sys.rank bytes ∧ t.sess.rends=s.sess.rends ∧
      t.sess.wends=s.sess.wends := by
  cases h <;> exact ⟨rfl,rfl,rfl⟩

/-- With every start successful the tasks run as they do without the main
process, and it never comes to `release`. -/
theorem fed {cfg : Config} {fdi fdo : FdpackS}
    (h : Run (step mode cfg.opts) (feeds bytes) (Prog.init mode cfg.buf fdi fdo) s) :
    Run (TwoTask.step cfg.opts) (TwoTask.feeds bytes) (TwoTask.Sys.init cfg.buf) s.sess.sys ∧
      s.unstarted=false ∧ ∀ p,s.pc≠.releasing p := by
  refine h.invariant (I:=fun s => Run (TwoTask.step cfg.opts) (TwoTask.feeds bytes)
    (TwoTask.Sys.init cfg.buf) s.sess.sys ∧ s.unstarted=false ∧ ∀ p,s.pc≠.releasing p)
    ⟨.refl,rfl,nofun⟩ fun s a t hi ha hs => ?_
  obtain ⟨hrun,hu,hp⟩ := hi
  cases a with
  | main ok =>
    cases mainStep_cases hs with
    | fail hpc => exact absurd ha Bool.false_ne_true
    | releasing hpc hr => exact absurd hpc (hp _)
    | released hpc hr => exact absurd hpc (hp _)
    | _ => exact ⟨hrun,hu,nofun⟩
  | sess a =>
    obtain ⟨_,u,ht,rfl⟩ := sess_cases hs
    refine ⟨?_,hu,hp⟩
    cases TwoTaskClosing.step_cases ht with
    | @ropens _ ok _ _ hb _ _ => exact hrun.tail (a:=.reader (.opened ok)) trivial hb
    | @reader io _ hb _ => exact hrun.tail (a:=.reader io) ha hb
    | rclose _ => exact hrun
    | @wopens _ ok _ _ hb _ _ => exact hrun.tail (a:=.writer (.opened ok)) trivial hb
    | @writer io _ hb _ => exact hrun.tail (a:=.writer io) ha hb
    | wclose _ => exact hrun
    | @signal role => exact hrun.tail (a:=.signal role) trivial rfl
    | relay => exact hrun.tail (a:=.relay) trivial rfl

/-- What is left of a round, apart from the reading task and its closes. -/
theorem rank_of_reader {sys : TwoTask.Sys} {ends : Ends}
    (h : 10*sys.rank bytes+closesLeft ends<
      10*s.sess.sys.rank bytes+closesLeft s.sess.rends) :
    Prog.rank bytes {s with sess.sys := sys,sess.rends := ends}<s.rank bytes := by
  simp only [Prog.rank]
  omega

/-- What is left of a round, apart from the writing task and its closes. -/
theorem rank_of_writer {sys : TwoTask.Sys} {ends : Ends}
    (h : 10*sys.rank bytes+closesLeft ends<
      10*s.sess.sys.rank bytes+closesLeft s.sess.wends) :
    Prog.rank bytes {s with sess.sys := sys,sess.wends := ends}<s.rank bytes := by
  simp only [Prog.rank]
  omega

/-- A statement outweighs the closes that it queues. -/
theorem outweighs {m n c d : ℕ} (h : m<n) (hc : c≤d+9) : 10*m+c<10*n+d := by
  omega

/-- Nothing was left undone by a step that stays where it is. -/
theorem closesLeft_eq {e e' : Ends} (ht : e'.todo=e.todo) (hp : e'.pc=e.pc) :
    closesLeft e'=closesLeft e := by
  unfold closesLeft
  rw [ht,hp]

/-- Everybody stays where he is. -/
theorem stays_at {u : Sess} (hpcs : u.sys.pcs=s.sess.sys.pcs)
    (hrt : u.rends.todo=s.sess.rends.todo) (hrp : u.rends.pc=s.sess.rends.pc)
    (hwt : u.wends.todo=s.sess.wends.todo) (hwp : u.wends.pc=s.sess.wends.pc)
    (hr : u.sys.rank bytes=s.sess.sys.rank bytes) :
    Prog.places {s with sess := u}=s.places ∧ Prog.rank bytes {s with sess := u}=s.rank bytes := by
  simp only [Prog.places,Prog.rank,hpcs,hrt,hrp,hwt,hwp,hr,closesLeft_eq hrt hrp,
    closesLeft_eq hwt hwp,and_self]

/-- Every step leaves less of the round to do, or leaves everybody where he is. -/
theorem rank_step {cfg : Config} {fdi fdo : FdpackS} {a : Act}
    (h : Run (step mode cfg.opts) (feeds bytes) (Prog.init mode cfg.buf fdi fdo) s)
    (ha : feeds bytes s a) (hs : step mode cfg.opts s a=some t) :
    t.rank bytes<s.rank bytes ∨ t.places=s.places ∧ t.rank bytes=s.rank bytes := by
  obtain ⟨hrun,_,_⟩ := fed h
  cases a with
  | main ok =>
    have hm := mainStep_cases hs
    obtain ⟨hr,hre,hwe⟩ := hm.sess_rank bytes
    have hl := hm.left_lt
    refine .inl ?_
    simp only [Prog.rank,hr,hre,hwe]
    omega
  | sess a =>
    obtain ⟨_,u,ht,rfl⟩ := sess_cases hs
    have hbase : ∀ {b : TwoTask.Act} {sys : TwoTask.Sys},TwoTask.feeds bytes s.sess.sys b →
        TwoTask.step cfg.opts s.sess.sys b=some sys →
        sys.rank bytes<s.sess.sys.rank bytes ∨
          sys.pcs=s.sess.sys.pcs ∧ sys.rank bytes=s.sess.sys.rank bytes := by
      intro b sys hf hb
      by_cases hm : sys.pcs=s.sess.sys.pcs
      · exact .inr ⟨hm,TwoTask.rank_eq hb hm⟩
      · exact .inl (TwoTask.rank_lt cfg hrun hf hb hm)
    cases a with
    | ropens res =>
      obtain ⟨sys,hb,rfl⟩ := Option.map_eq_some_iff.mp ht
      obtain ⟨hq,hp⟩ := openSide_queue s.sess.rends .inp res
      rcases hbase (b:=.reader (.opened _)) trivial hb with hlt|⟨hm,hr⟩
      · exact .inl (rank_of_reader (outweighs hlt (by rw [closesLeft_eq hq hp]; omega)))
      · exact .inr (stays_at hm hq hp rfl rfl hr)
    | reader io =>
      unfold TwoTaskClosing.step at ht
      dsimp only at ht
      split at ht
      · cases ht
      · next hn =>
        obtain ⟨sys,hb,rfl⟩ := Option.map_eq_some_iff.mp ht
        obtain ⟨hlen,hnil⟩ := readerCloses_spec mode s.sess.sys.rpc sys.rpc
        rcases hbase (b:=.reader io) ha hb with hlt|⟨hm,hr⟩
        · exact .inl (rank_of_reader (outweighs hlt (closesLeft_queue _ hlen _)))
        · have hne : sys.rpc≠.ended := by
            rw [show sys.rpc=s.sess.sys.rpc from congrArg Prod.fst hm]
            exact rstep_ne_ended (TwoTask.readerStep_cases hb)
          have htodo : s.sess.rends.todo=[] := by_contra fun hne => hn (.inl hne)
          exact .inr (stays_at hm ((hnil hne).trans htodo.symm) rfl rfl rfl hr)
    | rclose io =>
      obtain ⟨ends,he,rfl⟩ := Option.map_eq_some_iff.mp ht
      rcases closesLeft_step he with hlt|⟨hq,hp⟩
      · exact .inl (rank_of_reader (Nat.add_lt_add_left hlt _))
      · exact .inr (stays_at rfl hq hp rfl rfl rfl)
    | wopens res =>
      obtain ⟨sys,hb,rfl⟩ := Option.map_eq_some_iff.mp ht
      obtain ⟨hq,hp⟩ := openSide_queue s.sess.wends .out res
      rcases hbase (b:=.writer (.opened _)) trivial hb with hlt|⟨hm,hr⟩
      · exact .inl (rank_of_writer (outweighs hlt (by rw [closesLeft_eq hq hp]; omega)))
      · exact .inr (stays_at hm rfl rfl hq hp hr)
    | writer io =>
      unfold TwoTaskClosing.step at ht
      dsimp only at ht
      split at ht
      · cases ht
      · next hn =>
        obtain ⟨sys,hb,rfl⟩ := Option.map_eq_some_iff.mp ht
        obtain ⟨hlen,hnil⟩ := writerCloses_spec mode s.sess.sys.wpc sys.wpc
        rcases hbase (b:=.writer io) ha hb with hlt|⟨hm,hr⟩
        · exact .inl (rank_of_writer (outweighs hlt (closesLeft_queue _ hlen _)))
        · have hne : sys.wpc≠.ended := by
            rw [show sys.wpc=s.sess.sys.wpc from congrArg Prod.snd hm]
            exact wstep_ne_ended (TwoTask.writerStep_cases hb)
          have htodo : s.sess.wends.todo=[] := by_contra fun hne => hn (.inl hne)
          exact .inr (stays_at hm rfl rfl ((hnil hne).trans htodo.symm) rfl hr)
    | wclose io =>
      obtain ⟨ends,he,rfl⟩ := Option.map_eq_some_iff.mp ht
      rcases closesLeft_step he with hlt|⟨hq,hp⟩
      · exact .inl (rank_of_writer (Nat.add_lt_add_left hlt _))
      · exact .inr (stays_at rfl rfl rfl hq hp rfl)
    | signal role =>
      cases ht
      exact .inr (stays_at rfl rfl rfl rfl rfl rfl)
    | relay =>
      cases ht
      exact .inr (stays_at rfl rfl rfl rfl rfl rfl)

/-- A position of the main process is not reached twice in a row. -/
theorem MainStep.moves {ok : Bool} (h : MainStep mode s ok t) : t.places≠s.places := by
  intro he
  have hpc : t.pc=s.pc := congrArg (fun x => x.2.2.2) he
  have hl := h.left_lt
  rw [hpc] at hl
  exact absurd hl (lt_irrefl _)

/-- Where an open can return, it can return either way. -/
theorem ropens_on {sys : TwoTask.Sys} {ok : Bool} (h : TwoTask.readerStep sys (.opened ok)≠none)
    (res : Bool) : ∃ t,TwoTask.readerStep sys (.opened res)=some t ∧ t.rpc≠sys.rpc := by
  obtain ⟨t,ht⟩ := Option.ne_none_iff_exists'.mp h
  have hpc : sys.rpc=.opening := by
    cases TwoTask.readerStep_cases ht with
    | opened hpc => exact hpc
    | unopened hpc => exact hpc
  cases res with
  | true =>
    refine ⟨{sys with rpc := .lock},by simp only [TwoTask.readerStep,hpc],fun he => ?_⟩
    cases he.trans hpc
  | false =>
    refine ⟨{sys with rpc := .releasing (.mark .errlog)},by simp only [TwoTask.readerStep,hpc],
      fun he => ?_⟩
    cases he.trans hpc

/-- Where an open can return, it can return either way. -/
theorem wopens_on {sys : TwoTask.Sys} {ok : Bool}
    (h : TwoTask.writerStep opts sys (.opened ok)≠none) (res : Bool) :
    ∃ t,TwoTask.writerStep opts sys (.opened res)=some t ∧ t.wpc≠sys.wpc := by
  obtain ⟨t,ht⟩ := Option.ne_none_iff_exists'.mp h
  have hpc : sys.wpc=.opening := by
    cases TwoTask.writerStep_cases ht with
    | opened hpc => exact hpc
    | unopened hpc => exact hpc
    | epi _ he => cases he
    | epiFail _ he => cases he
    | epiEnd _ he => cases he
  cases res with
  | true =>
    refine ⟨{sys with wpc := .lock},by simp only [TwoTask.writerStep,hpc],fun he => ?_⟩
    cases he.trans hpc
  | false =>
    refine ⟨{sys with wpc := .releasing (.mark .errlog)},by simp only [TwoTask.writerStep,hpc],
      fun he => ?_⟩
    cases he.trans hpc

/-- A reading task that can go on can go on with its endpoints. -/
theorem reader_on {io : Io} {sys : TwoTask.Sys} (hr : .reader∈s.started)
    (htodo : s.sess.rends.todo=[]) (hf : TwoTask.feeds bytes s.sess.sys (.reader io))
    (hs : TwoTask.readerStep s.sess.sys io=some sys) (hm : sys.rpc≠s.sess.sys.rpc) :
    ∃ a t,feeds bytes s a ∧ step mode opts s a=some t ∧ t.places≠s.places := by
  by_cases ho : opensIo io=true
  · obtain ⟨ok,rfl⟩ : ∃ ok,io=.opened ok := by
      cases io with
      | opened ok => exact ⟨ok,rfl⟩
      | _ => cases ho
    have hn : TwoTask.readerStep s.sess.sys (.opened ok)≠none := by
      rw [hs]
      exact Option.some_ne_none _
    obtain ⟨t,ht,hne⟩ := ropens_on hn (s.sess.rends.openSide .inp 0).1
    have hruns : s.Runs mode (.ropens 0) := hr
    refine ⟨.sess (.ropens 0),
      {s with sess.sys := t,sess.rends := (s.sess.rends.openSide .inp 0).2},trivial,?_,fun hp => ?_⟩
    · rw [step,if_pos hruns,TwoTaskClosing.step,ht]
      rfl
    · exact hne (congrArg (fun x => x.1.1) hp)
  · have hn : ¬(s.sess.rends.todo≠[] ∨ opensIo io=true) :=
      fun h => h.elim (fun hne => hne htodo) ho
    have hruns : s.Runs mode (.reader io) := hr
    refine ⟨.sess (.reader io),{s with
      sess.sys := sys
      sess.rends.todo := readerCloses mode s.sess.sys.rpc sys.rpc},hf,?_,fun hp => ?_⟩
    · rw [step,if_pos hruns,TwoTaskClosing.step,if_neg hn,hs]
      rfl
    · exact hm (congrArg (fun x => x.1.1) hp)

/-- A writing task that can go on can go on with its endpoints. -/
theorem writer_on {io : Io} {sys : TwoTask.Sys} (hw : .writer∈s.started)
    (htodo : s.sess.wends.todo=[]) (hf : TwoTask.feeds bytes s.sess.sys (.writer io))
    (hs : TwoTask.writerStep opts s.sess.sys io=some sys) (hm : sys.wpc≠s.sess.sys.wpc) :
    ∃ a t,feeds bytes s a ∧ step mode opts s a=some t ∧ t.places≠s.places := by
  by_cases ho : opensIo io=true
  · obtain ⟨ok,rfl⟩ : ∃ ok,io=.opened ok := by
      cases io with
      | opened ok => exact ⟨ok,rfl⟩
      | _ => cases ho
    have hn : TwoTask.writerStep opts s.sess.sys (.opened ok)≠none := by
      rw [hs]
      exact Option.some_ne_none _
    obtain ⟨t,ht,hne⟩ := wopens_on hn (s.sess.wends.openSide .out 0).1
    have hruns : s.Runs mode (.wopens 0) := hw
    refine ⟨.sess (.wopens 0),
      {s with sess.sys := t,sess.wends := (s.sess.wends.openSide .out 0).2},trivial,?_,fun hp => ?_⟩
    · rw [step,if_pos hruns,TwoTaskClosing.step,ht]
      rfl
    · exact hne (congrArg (fun x => x.1.2) hp)
  · have hn : ¬(s.sess.wends.todo≠[] ∨ opensIo io=true) :=
      fun h => h.elim (fun hne => hne htodo) ho
    have hruns : s.Runs mode (.writer io) := hw
    refine ⟨.sess (.writer io),{s with
      sess.sys := sys
      sess.wends.todo := writerCloses mode s.sess.sys.wpc sys.wpc},hf,?_,fun hp => ?_⟩
    · rw [step,if_pos hruns,TwoTaskClosing.step,if_neg hn,hs]
      rfl
    · exact hm (congrArg (fun x => x.1.2) hp)

/-- As long as a started task has not left, some task can go on. -/
theorem tasks_on {cfg : Config} {fdi fdo : FdpackS}
    (h : Run (step mode cfg.opts) (feeds bytes) (Prog.init mode cfg.buf fdi fdo) s)
    (hr : .reader∈s.started) (hw : .writer∈s.started)
    (hn : ¬(Left s.sess .reader ∧ Left s.sess .writer)) :
    ∃ a t,feeds bytes s a ∧ step mode cfg.opts s a=some t ∧ t.places≠s.places := by
  obtain ⟨hrun,_,_⟩ := fed h
  by_cases hrt : s.sess.rends.todo=[]
  · by_cases hwt : s.sess.wends.todo=[]
    · have ho : ¬s.sess.sys.Over := fun ho => hn ⟨⟨ho.1,hrt⟩,⟨ho.2,hwt⟩⟩
      obtain ⟨a,sys,hf,hs,hm⟩ := TwoTask.moves_on cfg hrun ho bytes
      cases a with
      | reader io =>
        refine reader_on hr hrt hf hs fun he => hm ?_
        have hwpc := (TwoTask.readerStep_cases hs).wpc
        exact Prod.ext he hwpc
      | writer io =>
        refine writer_on hw hwt hf hs fun he => hm ?_
        have hrpc := (TwoTask.writerStep_cases hs).rpc
        exact Prod.ext hrpc he
      | signal role =>
        cases hs
        exact absurd rfl hm
      | relay =>
        cases hs
        exact absurd rfl hm
    · obtain ⟨io,ends,he,hm⟩ := closes_on hwt
      refine ⟨.sess (.wclose io),{s with sess.wends := ends},trivial,?_,fun hp => ?_⟩
      · have hruns : s.Runs mode (.wclose io) := hw
        rw [step,if_pos hruns,TwoTaskClosing.step,he]
        rfl
      · exact hm (congrArg (fun x => x.2.2.1) hp)
  · obtain ⟨io,ends,he,hm⟩ := closes_on hrt
    refine ⟨.sess (.rclose io),{s with sess.rends := ends},trivial,?_,fun hp => ?_⟩
    · have hruns : s.Runs mode (.rclose io) := hr
      rw [step,if_pos hruns,TwoTaskClosing.step,he]
      rfl
    · exact hm (congrArg (fun x => x.2.1) hp)

/-- The main process can go on, unless it waits for a task that has not left or
has returned. -/
theorem main_on (mode : ModeT) (s : Prog) :
    (∃ t,mainStep mode s true=some t) ∨ (∃ r rest,s.pc=.reaping (r::rest) ∧ ¬Left s.sess r) ∨
      ∃ ret,s.pc=.returned ret := by
  cases hpc : s.pc with
  | starting todo => cases todo <;> exact .inl ⟨_,by simp only [mainStep,hpc]; rfl⟩
  | releasing p => exact .inl ⟨_,by simp only [mainStep,hpc]; rfl⟩
  | reaping todo =>
    cases todo with
    | nil => exact .inl ⟨_,by simp only [mainStep,hpc]; rfl⟩
    | cons r rest =>
      by_cases hl : Left s.sess r
      · refine .inl (Option.ne_none_iff_exists'.mp ?_)
        simp only [mainStep,hpc,if_pos hl]
        split
        · exact Option.some_ne_none _
        · split <;> exact Option.some_ne_none _
      · exact .inr (.inl ⟨r,rest,rfl,hl⟩)
  | verdict i ret =>
    refine .inl (Option.ne_none_iff_exists'.mp ?_)
    simp only [mainStep,hpc]
    split <;> exact Option.some_ne_none _
  | cleanup ret => exact .inl ⟨_,by simp only [mainStep,hpc]; rfl⟩
  | returned ret => exact .inr (.inr ⟨ret,rfl⟩)

/-- Until the main process has returned, somebody can go on. -/
theorem goes_on (hmode : mode≠.sp) {cfg : Config} {fdi fdo : FdpackS}
    (h : Run (step mode cfg.opts) (feeds bytes) (Prog.init mode cfg.buf fdi fdo) s)
    (hn : ¬∃ ret,s.pc=.returned ret) :
    ∃ a t,feeds bytes s a ∧ step mode cfg.opts s a=some t ∧ t.places≠s.places := by
  rcases main_on mode s with ⟨t,ht⟩|⟨r,rest,hpc,hl⟩|hret
  · exact ⟨.main true,t,rfl,ht,(mainStep_cases ht).moves⟩
  · have hp := Placed.run hmode h
    rw [hpc] at hp
    obtain ⟨hr,hw⟩ := started_tasks hmode
    refine tasks_on h ((hp.2.1 _ hr).resolve_right nofun) ((hp.2.1 _ hw).resolve_right nofun)
      fun hall => hl ?_
    cases r with
    | reader => exact hall.1
    | writer => exact hall.2
    | _ => trivial
  · exact absurd hret hn

/-- A round comes to an end in every interleaving of the main process, the tasks
and the signals. When every start succeeds and the tasks are fed with at most
`bytes` bytes, they go from one statement or call to another at most
`280*bytes+334` times, somebody can go on until the main process has returned, and
it returns in every run that does not rest for ever where it is. -/
theorem main_returns (mode : TaskMode) (cfg : Config) (fdi fdo : FdpackS) (bytes : ℕ) :
    (∀ n s,CountedRun (step mode.1 cfg.opts) (feeds bytes) Prog.places
        (Prog.init mode.1 cfg.buf fdi fdo) n s → n≤280*bytes+334) ∧
    (∀ s,Run (step mode.1 cfg.opts) (feeds bytes) (Prog.init mode.1 cfg.buf fdi fdo) s →
      (¬∃ ret,s.pc=.returned ret) →
      ∃ a t,feeds bytes s a ∧ step mode.1 cfg.opts s a=some t ∧ t.places≠s.places) ∧
    ∀ g,Endless (step mode.1 cfg.opts) (feeds bytes) (Prog.init mode.1 cfg.buf fdi fdo) g →
      (∀ i,(¬∃ ret,(g i).pc=.returned ret) → ∃ j≥i,(g (j+1)).places≠(g j).places) →
      ∃ i ret,(g i).pc=.returned ret := by
  have hranked : Ranked (step mode.1 cfg.opts) (feeds bytes) Prog.places
      (Prog.init mode.1 cfg.buf fdi fdo) (Prog.rank bytes) := by
    refine ⟨fun s a t h ha hs => ?_,fun s a t h ha hs hm => ?_⟩
    · exact (rank_step h ha hs).elim le_of_lt fun he => he.2.le
    · exact (rank_step h ha hs).resolve_right fun he => hm he.1
  refine ⟨fun n s h => ?_,fun s h hn => goes_on mode.2 h hn,fun g hg hfair => ?_⟩
  · have hb := h.bounded hranked
    have hlen : (startOrder mode.1).length≤3 := by cases mode.1 <;> decide
    have hinit : (Prog.init mode.1 cfg.buf fdi fdo).rank bytes=
        10*(10*bytes+12+(18*bytes+19))+0+0+((startOrder mode.1).length+21) := rfl
    omega
  · exact hg.reaches (P:=fun s => ∃ ret,s.pc=.returned ret) hranked hfair

end Yancat.Arbiter
