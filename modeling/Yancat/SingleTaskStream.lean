import Yancat.Epilogue
import Yancat.FailureFlags
import Yancat.SingleTask

/-!
# The stream through the single process

The position of the process determines where both sides of the buffer are, and
every step is made of their moves. The epilogue is entered unless a write has
failed, and is left early only by a failing write, so a run whose writes
succeed ends with an empty buffer.
-/

namespace Yancat.SingleTask

open Crc Buffer Setup Shared Transition FailureFlags ByteStream

/-- The reading side's position in its current transfer. -/
def SPc.rphase : SPc → RPhase
  | .rfetch siz _ => .granted siz
  | .reading p siz _ => .fetched p siz
  | .rcommit n _ => .got n
  | .rpublish n _ => .stored n
  | .epi _ _ => .closed
  | .fin _ => .closed
  | .ended => .closed
  | _ => .idle

/-- The writing side's position in its current transfer. -/
def SPc.wphase : SPc → WPhase
  | .wfetch siz _ => .granted siz
  | .writing p siz _ => .fetched p siz 0
  | .wcommit n _ => .wrote n 0
  | .wpublish n _ => .counted n 0
  | .epi _ p => EpiPc.phase p
  | _ => .idle

/-- The process is in its epilogue or past it. -/
def SPc.drains : SPc → Bool
  | .epi _ _ => true
  | .fin _ => true
  | .ended => true
  | _ => false

/-- What the stream depends on. -/
def SSys.view (s : SSys) : View :=
  ⟨s.shm.buf,s.tr,s.pc.rphase,s.pc.wphase,s.pc.drains⟩

/-- A call outcome in which a write accepts all it was offered. -/
def SPc.full : SPc → Io → Bool
  | .writing _ siz _,.wrote n => n=siz
  | .epi _ p,io => p.full io
  | _,.werr _ => false
  | _,_ => true

/-- A step in which a write accepts all it was offered. -/
def fullWrites (s : SSys) : Act → Prop
  | .task io => s.pc.full io=true
  | .signal => True

variable {opts : OptionsS} {full : Bool} {s t : SSys} {io : Io} {a : Act}

/-- The signal handler leaves the buffer alone. -/
theorem signalStep_buf (s : SSys) : (signalStep s).shm.buf=s.shm.buf := by
  obtain ⟨_,_,_,hg⟩ := markStep_frame (errSig+Role.arbiter.idx) s.shm (s.hnd.getD .errlog)
  have hb := congrArg ShrS.buf hg
  exact hb

/-- A step of the transfer is made of moves. -/
theorem SStep.moves (h : SStep opts s io t) (hf : full=true → s.pc.full io=true) :
    Moves opts full s.view t.view := by
  unfold SSys.view
  cases h with
  | releasing hpc hr =>
    obtain ⟨_,_,_,hg⟩ := markStep_frame (errIni+Role.arbiter.idx) s.shm _
    rw [hr] at hg
    cases hg
    rw [hpc]
    exact .refl
  | released hpc hr =>
    obtain ⟨_,_,_,hg⟩ := markStep_frame (errIni+Role.arbiter.idx) s.shm _
    rw [hr] at hg
    cases hg
    rw [hpc]
    exact .head .close (.single .leave)
  | rskip hpc hz =>
    rw [hpc]
    exact .single .canR
  | rgrant hpc hz hc =>
    rw [hpc]
    exact .single (.grantR hz)
  | rfetch hpc =>
    rw [hpc]
    exact .single .fetchR
  | @stored p siz cnt i b hpc hi =>
    have hle : i+[b].length ≤ siz := hi
    dsimp only
    rw [hpc]
    exact .single (.stored hle)
  | data hpc hpos hle =>
    rw [hpc]
    exact .single (.data hpos hle)
  | eof hpc =>
    rw [hpc]
    exact .head .abandonR (.single .note)
  | rretry hpc he => exact .refl
  | rfail hpc he =>
    rw [hpc]
    exact .head .abandonR (.single .note)
  | rcommit hpc =>
    rw [hpc]
    exact .single .commitR
  | rpublish hpc =>
    rw [hpc]
    exact .single .commitRf
  | wskip hpc hz =>
    rw [hpc]
    exact .single .canW
  | wgrant hpc hz hc =>
    rw [hpc]
    exact .single (.grantW hz)
  | wfetch hpc =>
    rw [hpc]
    exact .single .fetchW
  | @wrote p siz cnt n hpc hn =>
    rw [hpc] at hf ⊢
    exact .single (.wrote (z:=0) hn (le_refl 0) (fun h => absurd h (lt_irrefl 0))
      fun h => of_decide_eq_true (hf h))
  | wretry hpc he => exact .refl
  | wfail hpc he =>
    rw [hpc] at hf ⊢
    have hn : full=false := Bool.eq_false_of_not_eq_true fun h => Bool.false_ne_true (hf h)
    exact .head (.abandonW hn) (.single .note)
  | wcommit hpc =>
    rw [hpc]
    exact .single (.commitW (z:=0))
  | wpublish hpc =>
    rw [hpc]
    exact .single (.commitWf (z:=0))
  | skip hpc =>
    rw [hpc]
    exact .head .close (.single .leave)
  | enter hpc =>
    rw [hpc]
    exact .head .close (.single .leave)
  | epi hpc he =>
    rw [hpc] at hf ⊢
    exact he.moves hf
  | epiEnd hpc he =>
    rw [hpc] at hf ⊢
    exact he.moves hf
  | _ hpc =>
    rw [hpc]
    exact .refl

/-- A run of the process is made of moves. -/
theorem view_moves {buf : BufS} {ok : SSys → Act → Prop}
    (hf : full=true → ∀ s a,ok s a → fullWrites s a)
    (h : Run (step opts) ok (SSys.init buf) s) : Moves opts full (.init buf) s.view := by
  refine h.invariant (I:=fun s => Moves opts full (.init buf) s.view) .refl fun s a t hi ha hs =>
    hi.trans ?_
  cases a with
  | task io => exact (taskStep_cases hs).moves fun hn => hf hn s _ ha
  | signal =>
    cases hs
    unfold SSys.view
    rw [signalStep_buf]
    exact .refl

/-- The stream invariant holds in every state of every run with a block-mode
reader. -/
theorem view_data (cfg : Config) (hb : cfg.opts.rline=false) {ok : SSys → Act → Prop}
    (h : Run (step cfg.opts) ok (SSys.init cfg.buf) s) :
    s.tr.cin ≤ s.tr.inp.length ∧
      StreamInv cfg.opts s.shm.buf (flow s.tr) s.pc.rphase s.pc.wphase :=
  have hm : Moves cfg.opts false (.init cfg.buf) s.view := view_moves nofun h
  have hi := DataInv.moves cfg (.inl hb) hm
  ⟨hi.cin_le,hi.stream⟩

/-- What a position knows of the buffer it leaves behind. -/
def SDrains (buf : BufS) (wfail : Bool) : SPc → Prop
  | .openIn => fill buf=0
  | .openOut => fill buf=0
  | .releasing _ => fill buf=0
  | .out _ wneg => wneg=true → wfail=true
  | .epi _ p => EpiDrains buf p
  | .fin _ => wfail=false → fill buf=0
  | .ended => wfail=false → fill buf=0
  | _ => True

/-- The draining invariant: the process ends with an empty buffer unless a
write has failed. -/
structure DrainInv (s : SSys) : Prop where
  /-- The geometry. -/
  ok : BufOk s.shm.buf
  /-- The position. -/
  drains : SDrains s.shm.buf s.tr.wfail s.pc

/-- The draining invariant is kept by the transfer. -/
theorem DrainInv.task_step (hi : DrainInv s) (h : SStep opts s io t) : DrainInv t := by
  obtain ⟨hok,hd⟩ := hi
  cases h with
  | releasing hpc hr =>
    obtain ⟨_,_,_,hg⟩ := markStep_frame (errIni+Role.arbiter.idx) s.shm _
    rw [hr] at hg
    cases hg
    rw [hpc] at hd
    exact ⟨hok,hd⟩
  | released hpc hr =>
    obtain ⟨_,_,_,hg⟩ := markStep_frame (errIni+Role.arbiter.idx) s.shm _
    rw [hr] at hg
    cases hg
    rw [hpc] at hd
    exact ⟨hok,fun _ => hd⟩
  | openedIn hpc =>
    rw [hpc] at hd
    exact ⟨hok,hd⟩
  | unopenedIn hpc =>
    rw [hpc] at hd
    exact ⟨hok,hd⟩
  | openedOut hpc => exact ⟨hok,trivial⟩
  | unopenedOut hpc =>
    rw [hpc] at hd
    exact ⟨hok,hd⟩
  | stop hpc hdone => exact ⟨hok,nofun⟩
  | rskip hpc hz => exact ⟨hok.canR,trivial⟩
  | rgrant hpc hz hc => exact ⟨hok.canR,trivial⟩
  | rfetch hpc => exact ⟨(bufFetchR_moved _ _).ok hok,trivial⟩
  | @stored p siz cnt i b hpc hi =>
    refine ⟨(storeAt_moved _ _ _).ok hok,?_⟩
    change SDrains _ _ s.pc
    rw [hpc]
    trivial
  | data hpc hpos hle => exact ⟨(storeAt_moved _ _ _).ok hok,trivial⟩
  | eof hpc => exact ⟨hok,nofun⟩
  | rretry hpc he => exact ⟨hok,hd⟩
  | rfail hpc he => exact ⟨hok,nofun⟩
  | rcommit hpc => exact ⟨(bufCommitR_moved _ _).ok hok,trivial⟩
  | rpublish hpc => exact ⟨hok.commitRf _,trivial⟩
  | wskip hpc hz => exact ⟨hok.canW,trivial⟩
  | wgrant hpc hz hc => exact ⟨hok.canW,trivial⟩
  | wfetch hpc => exact ⟨(bufFetchW_moved _ _).ok hok,trivial⟩
  | wretry hpc he => exact ⟨hok,hd⟩
  | wfail hpc he => exact ⟨hok,fun _ => rfl⟩
  | wcommit hpc => exact ⟨(bufCommitW_moved _ _).ok hok,trivial⟩
  | wpublish hpc => exact ⟨hok.commitWf _,trivial⟩
  | skip hpc =>
    rw [hpc] at hd
    exact ⟨hok,fun hw => absurd ((hd rfl).symm.trans hw) (by decide)⟩
  | enter hpc => exact ⟨hok,trivial⟩
  | epi hpc he =>
    rw [hpc] at hd
    exact ⟨he.ok hok,he.draining hok hd⟩
  | epiEnd hpc he =>
    rw [hpc] at hd
    refine ⟨he.ok hok,fun hw => he.draining hok hd ?_⟩
    exact (Bool.or_eq_false_iff.mp (he.wfail.symm.trans hw)).2
  | log hpc =>
    rw [hpc] at hd
    exact ⟨hok,hd⟩
  | clean hpc =>
    rw [hpc] at hd
    exact ⟨hok,hd⟩
  | _ hpc => exact ⟨hok,trivial⟩

/-- The draining invariant holds in every state of every run. -/
theorem DrainInv.run (cfg : Config) {ok : SSys → Act → Prop}
    (h : Run (step opts) ok (SSys.init cfg.buf) s) : DrainInv s := by
  refine h.invariant ⟨cfg.ok,cfg.fill_zero⟩ fun s a t hi _ hs => ?_
  cases a with
  | task io => exact hi.task_step (taskStep_cases hs)
  | signal =>
    cases hs
    refine ⟨by rw [signalStep_buf]; exact hi.ok,?_⟩
    rw [signalStep_buf]
    exact hi.drains

/-- Nothing disturbs the process: its calls succeed and no signal arrives. -/
def undisturbed (_ : SSys) : Act → Prop
  | .task io => io.calm=true
  | .signal => False

/-- Opens and writes succeed and no signal arrives. -/
def onlyReadsFail (_ : SSys) : Act → Prop
  | .task io => io.delivers=true
  | .signal => False

instance onlyReadsFail.decidable : ∀ s a,Decidable (onlyReadsFail s a)
  | _,.task io => inferInstanceAs (Decidable (io.delivers=true))
  | _,.signal => inferInstanceAs (Decidable False)

/-- Where calls succeed, opens and writes do. -/
theorem undisturbed_onlyReadsFail (s : SSys) (a : Act) (h : undisturbed s a) :
    onlyReadsFail s a := by
  cases a with
  | task io => exact Io.calm_delivers h
  | signal => exact h

/-- Where writes succeed, none is recorded as failed. -/
theorem wfail_step (hw : s.tr.wfail=false) (hd : io.delivers=true) (h : SStep opts s io t) :
    t.tr.wfail=false := by
  cases h with
  | wfail hpc he => cases hd
  | epi hpc he =>
    have hq : _=(s.tr.wfail || false) := he.wfail
    rw [hw] at hq
    exact hq
  | @epiEnd rneg failed p io g t hpc he =>
    have hq : t.wfail=(s.tr.wfail || failed) := he.wfail
    cases failed with
    | true => cases he.failed.symm.trans hd
    | false =>
      rw [hw] at hq
      exact hq
  | _ => exact hw

/-- Where opens and writes succeed, no write is ever recorded as failed. -/
theorem wfail_run {buf : BufS} {ok : SSys → Act → Prop}
    (hok : ∀ s a,ok s a → onlyReadsFail s a) (h : Run (step opts) ok (SSys.init buf) s) :
    s.tr.wfail=false := by
  refine h.invariant (I:=fun s => s.tr.wfail=false) rfl fun s a t hi ha hs => ?_
  cases a with
  | task io => exact wfail_step hi (hok s _ ha) (taskStep_cases hs)
  | signal => exact (hok s _ ha).elim

end Yancat.SingleTask
