import Yancat.SingleTaskStream

/-!
# Flags and positions of the single process

The loops are left on the end of the input, on a failed call or on a signal.
What the process still knows of the reason decides whether it logs.
-/

namespace Yancat.SingleTask

open Buffer Setup Shared Transition FailureFlags

/-- The sign of the last read result, as far as the position still has it. -/
def SPc.rneg : SPc → Bool
  | .out rneg _ => rneg
  | .epi rneg _ => rneg
  | .fin neg => neg
  | _ => false

/-- The sign of the last write result, as far as the position still has it. -/
def SPc.wneg : SPc → Bool
  | .out _ wneg => wneg
  | .fin neg => neg
  | _ => false

/-- Why the loops were left: the input has ended, something was logged, or a
call has failed. -/
def Left (g : ShrS) (t : Trace) (neg : Bool) : Prop := t.eof=true ∨ Logged g ∨ neg=true

/-- What a position knows. -/
def PcFlags (g : ShrS) (t : Trace) : SPc → Prop
  | .releasing p => MarkOk g p
  | .out rneg wneg => Left g t (rneg || wneg)
  | .epi rneg _ => Left g t rneg
  | .fin neg => Left g t neg
  | .ended => Left g t false
  | _ => True

/-- The flag invariant of the process. -/
structure FlagInv (s : SSys) : Prop where
  /-- Every abort is logged. -/
  abrt : s.shm.abrt=true → Logged s.shm
  /-- `done` is only raised by a failure. -/
  done : s.shm.done=true → Logged s.shm
  /-- A failed read is logged, or is about to be. -/
  rfail : s.tr.rfail=true → Logged s.shm ∨ s.pc.rneg=true
  /-- A failed write is logged, or is about to be. -/
  wfail : s.tr.wfail=true → Logged s.shm ∨ s.pc.wneg=true
  /-- The position. -/
  pc : PcFlags s.shm s.tr s.pc
  /-- The signal handler. -/
  hnd : ∀ p,s.hnd=some p → MarkOk s.shm p

variable {opts : OptionsS} {s t : SSys} {g g' : ShrS} {io : Io} {a : Act}

/-- Positions keep what they know. -/
theorem PcFlags.mono {tr : Trace} {pc : SPc} (h : PcFlags g tr pc) (hr : Raised g g') :
    PcFlags g' tr pc := by
  have hleft : ∀ neg,Left g tr neg → Left g' tr neg :=
    fun _ hl => hl.imp_right (Or.imp_left (·.mono hr))
  cases pc with
  | releasing p => exact MarkOk.mono h hr
  | out rneg wneg => exact hleft _ h
  | epi rneg p => exact hleft _ h
  | fin neg => exact hleft _ h
  | ended => exact hleft _ h
  | _ => trivial

/-- A step that leaves the flags alone needs only its new position. -/
theorem FlagInv.quiet (hi : FlagInv s) (hr : Raised s.shm t.shm) (ha : t.shm.abrt=s.shm.abrt)
    (hd : t.shm.done=s.shm.done) (hh : t.hnd=s.hnd)
    (hrf : t.tr.rfail=true → Logged t.shm ∨ t.pc.rneg=true)
    (hwf : t.tr.wfail=true → Logged t.shm ∨ t.pc.wneg=true) (hpc : PcFlags t.shm t.tr t.pc) :
    FlagInv t where
  abrt := fun h => (hi.abrt (ha ▸ h)).mono hr
  done := fun h => (hi.done (hd ▸ h)).mono hr
  rfail := hrf
  wfail := hwf
  pc := hpc
  hnd := fun p hp => (hi.hnd p (hh ▸ hp)).mono hr

/-- Inside the loops no failure is open, so a step that leaves the flags, the
handler and the recorded failures alone needs only its new position. -/
theorem FlagInv.loop (hi : FlagInv s) {pc : SPc} (hpc : s.pc=pc)
    (hn : pc.rneg=false ∧ pc.wneg=false)
    (hg : t.shm.errlog=s.shm.errlog ∧ t.shm.abrt=s.shm.abrt ∧ t.shm.done=s.shm.done)
    (hs : t.hnd=s.hnd ∧ t.tr.rfail=s.tr.rfail ∧ t.tr.wfail=s.tr.wfail)
    (hk : PcFlags t.shm t.tr t.pc) : FlagInv t := by
  subst hpc
  have hr : Raised s.shm t.shm := .of_eq hg.1 hg.2.1 hg.2.2
  refine hi.quiet hr hg.2.1 hg.2.2 hs.1 (fun h => .inl ?_) (fun h => .inl ?_) hk
  · have hl := hi.rfail (hs.2.1 ▸ h)
    rw [hn.1] at hl
    exact (hl.resolve_right Bool.false_ne_true).mono hr
  · have hl := hi.wfail (hs.2.2 ▸ h)
    rw [hn.2] at hl
    exact (hl.resolve_right Bool.false_ne_true).mono hr

/-- The flag invariant is kept by the transfer. -/
theorem FlagInv.task_step (hi : FlagInv s) (h : SStep opts s io t) : FlagInv t := by
  have hk := hi.pc
  have hrf := hi.rfail
  have hwf := hi.wfail
  cases h with
  | @releasing p q g hpc hr =>
    rw [hpc] at hk hrf hwf
    have hm := markStep_raised (errIni+Role.arbiter.idx) s.shm p
    have ho : Ordered s.shm (markStep (errIni+Role.arbiter.idx) s.shm p).1 := markStep_ordered hk
    have hn := markStep_next (q:=q) (by decide : errIni+Role.arbiter.idx<errlCnt) hk
    rw [hr] at hm ho hn
    refine ⟨fun ha => ?_,fun hd => ?_,fun hf => ?_,fun hf => ?_,hn rfl,
      fun p hp => (hi.hnd p hp).mono hm⟩
    · exact ((ho.abrt ha).elim hi.abrt id).mono hm
    · exact ((ho.done hd).elim hi.done hi.abrt).mono hm
    · exact .inl (((hrf hf).resolve_right Bool.false_ne_true).mono hm)
    · exact .inl (((hwf hf).resolve_right Bool.false_ne_true).mono hm)
  | @released p g hpc hr =>
    rw [hpc] at hk
    have hm := markStep_raised (errIni+Role.arbiter.idx) s.shm p
    have hl : (markStep (errIni+Role.arbiter.idx) s.shm p).2=none → _ := markStep_last hk
    rw [hr] at hm hl
    have hlog := (hl rfl).1
    exact ⟨fun _ => hlog,fun _ => hlog,fun _ => .inl hlog,fun _ => .inl hlog,.inr (.inl hlog),
      fun p hp => (hi.hnd p hp).mono hm⟩
  | unopenedIn hpc =>
    exact hi.loop hpc ⟨rfl,rfl⟩ ⟨rfl,rfl,rfl⟩ ⟨rfl,rfl,rfl⟩ trivial
  | unopenedOut hpc =>
    exact hi.loop hpc ⟨rfl,rfl⟩ ⟨rfl,rfl,rfl⟩ ⟨rfl,rfl,rfl⟩ trivial
  | stop hpc hd =>
    exact hi.loop hpc ⟨rfl,rfl⟩ ⟨rfl,rfl,rfl⟩ ⟨rfl,rfl,rfl⟩
      (.inr (.inl (hi.done hd)))
  | stored hpc hlt =>
    exact hi.loop hpc ⟨rfl,rfl⟩ ⟨rfl,rfl,rfl⟩ ⟨rfl,rfl,rfl⟩
      (hk.mono (.of_eq rfl rfl rfl))
  | eof hpc =>
    exact hi.loop hpc ⟨rfl,rfl⟩ ⟨rfl,rfl,rfl⟩ ⟨rfl,rfl,rfl⟩
      (.inl rfl)
  | rretry hpc he => exact hi
  | wretry hpc he => exact hi
  | rfail hpc he =>
    rw [hpc] at hwf
    exact hi.quiet (.of_eq rfl rfl rfl) rfl rfl rfl (fun _ => .inr rfl) hwf (.inr (.inr rfl))
  | wfail hpc he =>
    rw [hpc] at hrf
    exact hi.quiet (.of_eq rfl rfl rfl) rfl rfl rfl hrf (fun _ => .inr rfl) (.inr (.inr rfl))
  | skip hpc =>
    exact hi.quiet (.of_eq rfl rfl rfl) rfl rfl rfl (fun _ => .inr rfl) (fun _ => .inr rfl)
      (.inr (.inr rfl))
  | enter hpc =>
    rw [hpc] at hk hrf hwf
    refine hi.quiet (.of_eq rfl rfl rfl) rfl rfl rfl hrf hwf ?_
    exact hk.imp_right (Or.imp_right fun h => (Bool.or_false _).symm.trans h)
  | @epi rneg p q io g t hpc he =>
    rw [hpc] at hk hrf hwf
    obtain ⟨⟨h1,h2,h3⟩,heof,hfail⟩ := he.flags
    have hm : Raised s.shm g := .of_eq h1 h2 h3
    have hw : t.wfail=s.tr.wfail := he.wfail.trans (Bool.or_false _)
    have hl : PcFlags g t (.epi rneg q) := by
      have := PcFlags.mono hk hm
      exact this.imp_left (heof.trans ·)
    exact hi.quiet hm h2 h3 rfl (fun h => (hrf (hfail ▸ h)).imp_left (·.mono hm))
      (fun h => (hwf (hw ▸ h)).imp_left (·.mono hm)) hl
  | @epiEnd rneg failed p io g t hpc he =>
    rw [hpc] at hk hrf hwf
    obtain ⟨⟨h1,h2,h3⟩,heof,hfail⟩ := he.flags
    have hm : Raised s.shm g := .of_eq h1 h2 h3
    have hw : t.wfail=(s.tr.wfail || failed) := he.wfail
    refine hi.quiet hm h2 h3 rfl (fun h => ?_) (fun h => ?_) ?_
    · refine (hrf (hfail ▸ h)).imp (·.mono hm) fun hn => ?_
      change (rneg || failed)=true
      rw [show rneg=true from hn,Bool.true_or]
    · rw [hw] at h
      rcases Bool.or_eq_true_iff.mp h with h|h
      · exact .inl (((hwf h).resolve_right Bool.false_ne_true).mono hm)
      · right
        change (rneg || failed)=true
        rw [h,Bool.or_true]
    · rcases hk with hk|hk|hk
      · exact .inl (heof.trans hk)
      · exact .inr (.inl (hk.mono hm))
      · right
        right
        rw [hk,Bool.true_or]
  | log hpc =>
    have hl := Logged.log s.shm (by decide : errErr+Role.arbiter.idx<errlCnt)
    exact hi.quiet (.log s.shm _) rfl rfl rfl (fun _ => .inl hl) (fun _ => .inl hl)
      (.inr (.inl hl))
  | clean hpc =>
    rw [hpc] at hk hrf hwf
    exact hi.quiet (.of_eq rfl rfl rfl) rfl rfl rfl hrf hwf hk
  | _ hpc =>
    exact hi.loop hpc ⟨rfl,rfl⟩ ⟨rfl,rfl,rfl⟩ ⟨rfl,rfl,rfl⟩ trivial

/-- The signal handler is where it may be. -/
theorem FlagInv.handler (hi : FlagInv s) : MarkOk s.shm (s.hnd.getD .errlog) := by
  cases hp : s.hnd with
  | none => trivial
  | some p => exact hi.hnd p hp

/-- The flag invariant is kept by the signal handler. -/
theorem FlagInv.signal_step (hi : FlagInv s) : FlagInv (signalStep s) := by
  have hok := hi.handler
  have hm := markStep_raised (errSig+Role.arbiter.idx) s.shm (s.hnd.getD .errlog)
  have ho : Ordered s.shm (signalStep s).shm := markStep_ordered hok
  have hn := fun q => markStep_next (q:=q) (errSig_lt .arbiter) hok
  exact {
    abrt := fun ha => ((ho.abrt ha).elim hi.abrt id).mono hm
    done := fun hd => ((ho.done hd).elim hi.done hi.abrt).mono hm
    rfail := fun h => (hi.rfail h).imp_left (·.mono hm)
    wfail := fun h => (hi.wfail h).imp_left (·.mono hm)
    pc := hi.pc.mono hm
    hnd := fun p hp => hn p hp}

/-- The flag invariant holds before the first step. -/
theorem FlagInv.init (buf : BufS) : FlagInv (SSys.init buf) where
  abrt := nofun
  done := nofun
  rfail := nofun
  wfail := nofun
  pc := trivial
  hnd := nofun

/-- The flag invariant holds in every state of every run. -/
theorem FlagInv.run {buf : BufS} {ok : SSys → Act → Prop}
    (h : Run (SingleTask.step opts) ok (SSys.init buf) s) : FlagInv s := by
  refine h.invariant (.init buf) fun s a t hi _ hs => ?_
  cases a with
  | task io => exact hi.task_step (taskStep_cases hs)
  | signal =>
    cases hs
    exact hi.signal_step

/-- The transfer raises flags. -/
theorem SStep.raised (h : SStep opts s io t) : Raised s.shm t.shm := by
  cases h with
  | @releasing p q g hpc hr =>
    have hm := markStep_raised (errIni+Role.arbiter.idx) s.shm p
    rw [hr] at hm
    exact hm
  | @released p g hpc hr =>
    have hm := markStep_raised (errIni+Role.arbiter.idx) s.shm p
    rw [hr] at hm
    exact hm
  | epi _ he =>
    obtain ⟨⟨h1,h2,h3⟩,_⟩ := he.flags
    exact .of_eq h1 h2 h3
  | epiEnd _ he =>
    obtain ⟨⟨h1,h2,h3⟩,_⟩ := he.flags
    exact .of_eq h1 h2 h3
  | log => exact .log s.shm _
  | _ => exact .of_eq rfl rfl rfl

/-- The log is written to by `release` and by the final test. -/
theorem SStep.errlog (h : SStep opts s io t) :
    t.shm.errlog=s.shm.errlog ∨ (∃ p,s.pc=.releasing p) ∨ s.pc=.fin true := by
  cases h with
  | releasing hpc _ => exact .inr (.inl ⟨_,hpc⟩)
  | released hpc _ => exact .inr (.inl ⟨_,hpc⟩)
  | log hpc => exact .inr (.inr hpc)
  | epi _ he => exact .inl he.flags.1.1
  | epiEnd _ he => exact .inl he.flags.1.1
  | _ => exact .inl rfl

/-- Only a failed open leads into `release`. -/
theorem SStep.releasing_of (h : SStep opts s io t) {q : MarkPc} (hq : t.pc=.releasing q) :
    io=.opened false ∨ ∃ p,s.pc=.releasing p := by
  cases h with
  | unopenedIn => exact .inl rfl
  | unopenedOut => exact .inl rfl
  | releasing hpc _ => exact .inr ⟨_,hpc⟩
  | rretry => exact .inr ⟨_,hq⟩
  | wretry => exact .inr ⟨_,hq⟩
  | stored => exact .inr ⟨_,hq⟩
  | _ => cases hq

/-- A recorded failure stays recorded. -/
theorem SStep.fails (h : SStep opts s io t) :
    (s.tr.rfail=true → t.tr.rfail=true) ∧ (s.tr.wfail=true → t.tr.wfail=true) := by
  cases h with
  | rfail => exact ⟨fun _ => rfl,id⟩
  | wfail => exact ⟨id,fun _ => rfl⟩
  | epi _ he =>
    obtain ⟨_,_,hf⟩ := he.flags
    exact ⟨hf.trans,(he.wfail.trans (Bool.or_false _)).trans⟩
  | epiEnd _ he =>
    obtain ⟨_,_,hf⟩ := he.flags
    exact ⟨hf.trans,fun hw => he.wfail.trans (by rw [hw,Bool.true_or])⟩
  | _ => exact ⟨id,id⟩

/-- A negative result in hand was recorded as a failure. -/
def Recorded (t : Trace) (pc : SPc) : Prop :=
  pc.rneg=true ∨ pc.wneg=true → t.rfail=true ∨ t.wfail=true

/-- Negative results are recorded where they arise. -/
theorem SStep.recorded (h : SStep opts s io t) (hi : Recorded s.tr s.pc) :
    Recorded t.tr t.pc := by
  have hf := h.fails
  have hkeep : s.tr.rfail=true ∨ s.tr.wfail=true → t.tr.rfail=true ∨ t.tr.wfail=true :=
    Or.imp hf.1 hf.2
  cases h with
  | rfail => exact fun _ => .inl rfl
  | wfail => exact fun _ => .inr rfl
  | rretry => exact hi
  | wretry => exact hi
  | stored => exact hi
  | skip hpc =>
    rw [hpc] at hi
    exact fun _ => hkeep (hi (.inr rfl))
  | enter hpc =>
    rw [hpc] at hi
    exact fun hn => hkeep (hi (.inl (hn.resolve_right Bool.false_ne_true)))
  | epi hpc _ =>
    rw [hpc] at hi
    exact fun hn => hkeep (hi hn)
  | @epiEnd rneg failed p io g t hpc he =>
    rw [hpc] at hi
    intro hn
    have hor : (rneg || failed)=true := hn.elim id id
    rcases Bool.or_eq_true_iff.mp hor with hr|hw
    · exact hkeep (hi (.inl hr))
    · exact .inr (he.wfail.trans (by rw [hw]; exact Bool.or_true _))
  | _ => exact fun hn => (hn.elim Bool.false_ne_true Bool.false_ne_true).elim

end Yancat.SingleTask
