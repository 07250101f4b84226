import Yancat.Epilogue
import Yancat.FailureFlags
import Yancat.TwoTaskSteps

/-!
# Flags and positions of the two tasks

Every position of either task, of a signal handler and of the third party is
related to the failure flags and to the recorded outcome of the calls. The
main consequence is the meaning of `done` without `abrt`: the reading task has
left its loop, and nothing but the writing task moves the buffer any more.
-/

namespace Yancat.TwoTask

open Buffer Setup Shared Transition FailureFlags

/-- The reading task has left its loop for good and has raised `done`. -/
def RPc.closed : RPc → Bool
  | .outPost => true
  | .ended => true
  | _ => false

/-- What a position of the reading task knows. -/
def ReaderFlags (g : ShrS) (t : Trace) : RPc → Prop
  | .releasing p => RelOk g p
  | .outAbrt => Logged g
  | .outDone => g.abrt=true ∨ t.eof=true
  | .outPost => g.done=true ∧ (g.abrt=true ∨ t.eof=true)
  | .ended => g.done=true ∧ (g.abrt=true ∨ t.eof=true)
  | _ => True

/-- What a position of the writing task knows. -/
def WriterFlags (g : ShrS) (rpc : RPc) : WPc → Prop
  | .releasing p => RelOk g p
  | .outAbrt => Logged g
  | .outDone => Logged g ∧ g.abrt=true
  | .outPost => g.done=true
  | .chkAbrt => g.done=true
  | .epi _ => g.done=true ∧ rpc.closed=true
  | .errLog => g.done=true ∧ rpc.closed=true
  | .ended => g.done=true ∧ (Logged g ∨ rpc.closed=true)
  | _ => True

/-- The flag invariant. -/
structure FlagInv (s : Sys) : Prop where
  /-- Every abort is logged. -/
  abrt : s.shm.abrt=true → Logged s.shm
  /-- `done` without `abrt` is the reader's. -/
  done : s.shm.done=true → s.shm.abrt=true ∨ s.rpc.closed=true
  /-- A failed read is logged, or is about to be. -/
  rfail : s.tr.rfail=true → Logged s.shm ∨ s.rpc=.outLog
  /-- The reading task. -/
  reader : ReaderFlags s.shm s.tr s.rpc
  /-- The writing task. -/
  writer : WriterFlags s.shm s.rpc s.wpc
  /-- The signal handlers. -/
  hnd : ∀ role p,s.hnd role=some p → MarkOk s.shm p
  /-- The third party. -/
  relay : ∀ p,s.relay=some p → RelOk s.shm p

variable {opts : OptionsS} {s t : Sys} {g g' : ShrS} {io : Io} {a : Act}

/-- Reader positions keep what they know. -/
theorem ReaderFlags.mono {tr : Trace} {rpc : RPc} (h : ReaderFlags g tr rpc)
    (hr : Raised g g') : ReaderFlags g' tr rpc := by
  cases rpc with
  | releasing p => exact RelOk.mono h hr
  | outAbrt => exact Logged.mono h hr
  | outDone => exact h.imp_left hr.abrt
  | outPost => exact ⟨hr.done h.1,h.2.imp_left hr.abrt⟩
  | ended => exact ⟨hr.done h.1,h.2.imp_left hr.abrt⟩
  | _ => trivial

/-- Writer positions keep what they know. -/
theorem WriterFlags.mono {rpc rpc' : RPc} {wpc : WPc} (h : WriterFlags g rpc wpc)
    (hr : Raised g g') (hc : rpc.closed=true → rpc'.closed=true) :
    WriterFlags g' rpc' wpc := by
  cases wpc with
  | releasing p => exact RelOk.mono h hr
  | outAbrt => exact Logged.mono h hr
  | outDone => exact ⟨h.1.mono hr,hr.abrt h.2⟩
  | outPost => exact hr.done h
  | chkAbrt => exact hr.done h
  | epi p => exact ⟨hr.done h.1,hc h.2⟩
  | errLog => exact ⟨hr.done h.1,hc h.2⟩
  | ended => exact ⟨hr.done h.1,h.2.imp (·.mono hr) hc⟩
  | _ => trivial

/-- The two closed positions. -/
theorem RPc.closed_iff {rpc : RPc} : rpc.closed=true ↔ rpc=.outPost ∨ rpc=.ended := by
  cases rpc <;> simp [RPc.closed]

/-- A closed reader has one statement left. -/
theorem RStep.of_closed (h : RStep s io t) (hc : s.rpc.closed=true) :
    io=.tau ∧ t={s with shm := {s.shm with nodata := s.shm.nodata+1},rpc := .ended} := by
  have hs := RPc.closed_iff.mp hc
  cases h with
  | outPost hpc => exact ⟨rfl,rfl⟩
  | _ hpc => rcases hs with hs|hs <;> cases hpc.symm.trans hs

/-- A closed reader stays closed. -/
theorem RStep.closed (h : RStep s io t) (hc : s.rpc.closed=true) : t.rpc.closed=true := by
  obtain ⟨_,rfl⟩ := h.of_closed hc
  rfl

/-- Reading steps raise flags, in order. -/
theorem RStep.raised (h : RStep s io t) : Raised s.shm t.shm := by
  cases h with
  | releasing _ hr => exact release_raised hr
  | released _ hr => exact release_raised hr
  | outLog => exact .log s.shm _
  | outAbrt => exact ⟨fun _ h => h,fun _ => rfl,id⟩
  | outDone => exact ⟨fun _ h => h,id,fun _ => rfl⟩
  | _ => exact .of_eq rfl rfl rfl

/-- Writing steps raise flags. -/
theorem WStep.raised (h : WStep opts s io t) : Raised s.shm t.shm := by
  cases h with
  | releasing _ hr => exact release_raised hr
  | released _ hr => exact release_raised hr
  | outLog => exact .log s.shm _
  | outAbrt => exact ⟨fun _ h => h,fun _ => rfl,id⟩
  | outDone => exact ⟨fun _ h => h,id,fun _ => rfl⟩
  | errLog => exact .log s.shm _
  | epi _ he =>
    obtain ⟨⟨h1,h2,h3⟩,_⟩ := he.flags
    exact .of_eq h1 h2 h3
  | epiFail _ he =>
    obtain ⟨⟨h1,h2,h3⟩,_⟩ := he.flags
    exact .of_eq h1 h2 h3
  | epiEnd _ he =>
    obtain ⟨⟨h1,h2,h3⟩,_⟩ := he.flags
    exact .of_eq h1 h2 h3
  | _ => exact .of_eq rfl rfl rfl

/-- The flag invariant after a reading step, from the parts that moved. -/
theorem FlagInv.ofReader (hi : FlagInv s) (h : RStep s io t)
    (hab : t.shm.abrt=true → s.shm.abrt=true ∨ Logged t.shm)
    (hdo : t.shm.done=true → s.shm.done=true ∨ t.shm.abrt=true ∨ t.rpc.closed=true)
    (hrf : t.tr.rfail=true → Logged t.shm ∨ t.rpc=.outLog)
    (hrd : ReaderFlags t.shm t.tr t.rpc) : FlagInv t := by
  have hr := h.raised
  have hrest : t.wpc=s.wpc ∧ t.hnd=s.hnd ∧ t.relay=s.relay := by
    cases h <;> exact ⟨rfl,rfl,rfl⟩
  obtain ⟨hw,hh,hl⟩ := hrest
  refine ⟨fun ha => ?_,fun hd => ?_,hrf,hrd,?_,?_,?_⟩
  · rcases hab ha with ha|ha
    · exact (hi.abrt ha).mono hr
    · exact ha
  · rcases hdo hd with hd|hd
    · exact (hi.done hd).imp hr.abrt h.closed
    · exact hd
  · rw [hw]
    exact hi.writer.mono hr h.closed
  · intro role p hp
    rw [hh] at hp
    exact (hi.hnd role p hp).mono hr
  · intro p hp
    rw [hl] at hp
    exact (hi.relay p hp).mono hr

/-- A reading step that leaves the flags alone needs only its new position. -/
theorem FlagInv.quietReader (hi : FlagInv s) (h : RStep s io t)
    (ha : t.shm.abrt=s.shm.abrt) (hd : t.shm.done=s.shm.done) (hf : t.tr.rfail=s.tr.rfail)
    (hn : s.rpc≠.outLog) (hrd : ReaderFlags t.shm t.tr t.rpc) : FlagInv t := by
  refine hi.ofReader h (fun hab => .inl (by rwa [←ha])) (fun hdo => .inl (by rwa [←hd])) ?_ hrd
  intro hrf
  rw [hf] at hrf
  exact .inl (((hi.rfail hrf).resolve_right hn).mono h.raised)

/-- Before the reader leaves, `done` comes from a failure. -/
theorem FlagInv.aborted (hi : FlagInv s) (hd : s.shm.done=true) (hc : s.rpc.closed=false) :
    s.shm.abrt=true :=
  (hi.done hd).resolve_right (by rw [hc]; exact Bool.false_ne_true)

/-- The flag invariant is kept by the reading task. -/
theorem FlagInv.reader_step (hi : FlagInv s) (h : RStep s io t) : FlagInv t := by
  have hrd := hi.reader
  have hs := h
  cases h with
  | releasing hpc hr =>
    rw [hpc] at hrd
    have ho := release_ordered hrd hr
    have hlog : Logged s.shm → Logged _ := fun hl => hl.mono (release_raised hr)
    refine hi.ofReader hs (fun ha => (ho.abrt ha).imp_right hlog)
      (fun hd => (ho.done hd).imp_right fun ha => .inl ((release_raised hr).abrt ha)) ?_
      (release_next (by decide) hrd hr)
    intro hf
    exact .inl (hlog ((hi.rfail hf).resolve_right (by rw [hpc]; nofun)))
  | released hpc hr =>
    rw [hpc] at hrd
    obtain ⟨hl,ha,hd⟩ := release_last hrd hr
    exact hi.ofReader hs (fun _ => .inr hl) (fun _ => .inr (.inl ha)) (fun _ => .inl hl)
      ⟨hd,.inl ha⟩
  | stop hpc hd =>
    have ha := hi.aborted hd (by rw [hpc]; rfl)
    exact hi.quietReader hs rfl rfl rfl (by rw [hpc]; nofun) (.inl ha)
  | quit hpc hd =>
    have ha := hi.aborted hd (by rw [hpc]; rfl)
    exact hi.quietReader hs rfl rfl rfl (by rw [hpc]; nofun) (.inl ha)
  | stored hpc hi' => exact hi.quietReader hs rfl rfl rfl (by rw [hpc]; nofun) (hrd.mono hs.raised)
  | retry hpc he => exact hi
  | eof hpc => exact hi.quietReader hs rfl rfl rfl (by rw [hpc]; nofun) (.inr rfl)
  | fail hpc he => exact hi.ofReader hs .inl .inl (fun _ => .inr rfl) trivial
  | outLog hpc =>
    have hl := Logged.log s.shm (by decide : errErr+Role.reader.idx<errlCnt)
    exact hi.ofReader hs .inl .inl (fun _ => .inl hl) hl
  | outAbrt hpc =>
    rw [hpc] at hrd
    exact hi.ofReader hs (fun _ => .inr hrd) .inl (fun _ => .inl hrd) (.inl rfl)
  | outDone hpc =>
    rw [hpc] at hrd
    refine hi.ofReader hs .inl (fun _ => .inr (.inr rfl)) ?_ ⟨rfl,hrd⟩
    intro hf
    exact .inl ((hi.rfail hf).resolve_right (by rw [hpc]; nofun))
  | outPost hpc =>
    rw [hpc] at hrd
    exact hi.quietReader hs rfl rfl rfl (by rw [hpc]; nofun) hrd
  | _ hpc => exact hi.quietReader hs rfl rfl rfl (by rw [hpc]; nofun) trivial

/-- The flag invariant after a step beside the reading task. -/
theorem FlagInv.beside (hi : FlagInv s) (hr : Raised s.shm t.shm) (hrpc : t.rpc=s.rpc)
    (he : t.tr.eof=s.tr.eof) (hf : t.tr.rfail=s.tr.rfail)
    (hab : t.shm.abrt=true → s.shm.abrt=true ∨ Logged t.shm)
    (hdo : t.shm.done=true → s.shm.done=true ∨ t.shm.abrt=true)
    (hw : WriterFlags t.shm t.rpc t.wpc)
    (hh : ∀ role p,t.hnd role=some p → MarkOk t.shm p)
    (hl : ∀ p,t.relay=some p → RelOk t.shm p) : FlagInv t := by
  refine ⟨fun ha => ?_,fun hd => ?_,fun hfail => ?_,?_,hw,hh,hl⟩
  · rcases hab ha with ha|ha
    · exact (hi.abrt ha).mono hr
    · exact ha
  · rcases hdo hd with hd|hd
    · rw [hrpc]
      exact (hi.done hd).imp_left hr.abrt
    · exact .inl hd
  · rw [hf] at hfail
    rw [hrpc]
    exact (hi.rfail hfail).imp_left (·.mono hr)
  · have hrd := hi.reader.mono hr
    rw [hrpc]
    cases hpc : s.rpc with
    | releasing p => rw [hpc] at hrd; exact hrd
    | outAbrt => rw [hpc] at hrd; exact hrd
    | outDone => rw [hpc] at hrd; exact hrd.imp_right (he.trans ·)
    | outPost => rw [hpc] at hrd; exact hrd.imp_right (Or.imp_right (he.trans ·))
    | ended => rw [hpc] at hrd; exact hrd.imp_right (Or.imp_right (he.trans ·))
    | _ => trivial

/-- The flag invariant is kept by the writing task. -/
theorem FlagInv.writer_step (hi : FlagInv s) (h : WStep opts s io t) : FlagInv t := by
  have hr := h.raised
  have hw := hi.writer
  have hh : ∀ role p,s.hnd role=some p → MarkOk t.shm p :=
    fun role p hp => (hi.hnd role p hp).mono hr
  have hl : ∀ p,s.relay=some p → RelOk t.shm p := fun p hp => (hi.relay p hp).mono hr
  have hwm := hw.mono hr id
  cases h with
  | releasing hpc hrel =>
    rw [hpc] at hw
    have ho := release_ordered hw hrel
    exact hi.beside hr rfl rfl rfl (fun ha => (ho.abrt ha).imp_right (·.mono hr))
      (fun hd => (ho.done hd).imp_right hr.abrt) (release_next (by decide) hw hrel) hh hl
  | released hpc hrel =>
    rw [hpc] at hw
    obtain ⟨h1,h2,h3⟩ := release_last hw hrel
    exact hi.beside hr rfl rfl rfl (fun _ => .inr h1) (fun _ => .inr h2) ⟨h3,.inl h1⟩ hh hl
  | stop hpc hd => exact hi.beside hr rfl rfl rfl .inl .inl hd hh hl
  | quit hpc hd => exact hi.beside hr rfl rfl rfl .inl .inl hd hh hl
  | retry hpc he => exact hi
  | outLog hpc =>
    exact hi.beside hr rfl rfl rfl .inl .inl (Logged.log s.shm (by decide)) hh hl
  | outAbrt hpc =>
    rw [hpc] at hw
    exact hi.beside hr rfl rfl rfl (fun _ => .inr hw) .inl ⟨hw,rfl⟩ hh hl
  | outDone hpc =>
    rw [hpc] at hw
    exact hi.beside hr rfl rfl rfl .inl (fun _ => .inr hw.2) rfl hh hl
  | outPost hpc =>
    rw [hpc] at hw
    exact hi.beside hr rfl rfl rfl .inl .inl hw hh hl
  | skip hpc ha =>
    rw [hpc] at hw
    exact hi.beside hr rfl rfl rfl .inl .inl ⟨hw,.inl (hi.abrt ha)⟩ hh hl
  | enter hpc ha =>
    rw [hpc] at hw
    have hc := (hi.done hw).resolve_left (by rw [ha]; exact Bool.false_ne_true)
    exact hi.beside hr rfl rfl rfl .inl .inl ⟨hw,hc⟩ hh hl
  | epi hpc he =>
    obtain ⟨⟨_,ha,hd⟩,heof,hfail⟩ := he.flags
    rw [hpc] at hwm
    exact hi.beside hr rfl heof hfail (fun h => .inl (ha ▸ h)) (fun h => .inl (hd ▸ h)) hwm hh hl
  | epiFail hpc he =>
    obtain ⟨⟨_,ha,hd⟩,heof,hfail⟩ := he.flags
    rw [hpc] at hwm
    exact hi.beside hr rfl heof hfail (fun h => .inl (ha ▸ h)) (fun h => .inl (hd ▸ h)) hwm hh hl
  | epiEnd hpc he =>
    obtain ⟨⟨_,ha,hd⟩,heof,hfail⟩ := he.flags
    rw [hpc] at hwm
    exact hi.beside hr rfl heof hfail (fun h => .inl (ha ▸ h)) (fun h => .inl (hd ▸ h))
      ⟨hwm.1,.inr hwm.2⟩ hh hl
  | errLog hpc =>
    rw [hpc] at hw
    have hlog := Logged.log s.shm (by decide : errErr+Role.writer.idx<errlCnt)
    exact hi.beside hr rfl rfl rfl .inl .inl ⟨hw.1,.inl hlog⟩ hh hl
  | _ hpc => exact hi.beside hr rfl rfl rfl .inl .inl trivial hh hl

/-- A signal handler makes one assignment of a failure mark that is due. -/
theorem FlagInv.signal_cases (hi : FlagInv s) (role : Role) :
    ∃ p g next,MarkOk s.shm p ∧ markStep (errSig+role.idx) s.shm p=(g,next) ∧
      signalStep s role={s with shm := g,hnd := Function.update s.hnd role next} := by
  refine ⟨(s.hnd role).getD .errlog,_,_,?_,rfl,rfl⟩
  cases hp : s.hnd role with
  | none => trivial
  | some p => exact hi.hnd role p hp

/-- The third party makes one statement of `release` that is due. -/
theorem FlagInv.relay_cases (hi : FlagInv s) :
    ∃ p g next,RelOk s.shm p ∧ release (errSig+Role.arbiter.idx) s.shm p=(g,next) ∧
      relayStep s={s with shm := g,relay := next} := by
  refine ⟨s.relay.getD (.mark .errlog),_,_,?_,rfl,rfl⟩
  cases hp : s.relay with
  | none => trivial
  | some p => exact hi.relay p hp

/-- The flag invariant is kept by the signal handlers. -/
theorem FlagInv.signal_step (hi : FlagInv s) (role : Role) : FlagInv (signalStep s role) := by
  obtain ⟨p,g,next,hok,hm,hs⟩ := hi.signal_cases role
  have hr := markStep_raised (errSig+role.idx) s.shm p
  have ho : Ordered s.shm (markStep (errSig+role.idx) s.shm p).1 := markStep_ordered hok
  have hn := fun q => markStep_next (q:=q) (errSig_lt role) hok
  rw [hm] at hr ho hn
  rw [hs]
  refine hi.beside hr rfl rfl rfl (fun ha => (ho.abrt ha).imp_right (·.mono hr))
    (fun hd => (ho.done hd).imp_right hr.abrt) (hi.writer.mono hr id) ?_
    (fun q hq => (hi.relay q hq).mono hr)
  intro other q hq
  dsimp only at hq
  by_cases he : other=role
  · subst he
    rw [Function.update_self] at hq
    exact hn q hq
  · rw [Function.update_of_ne he] at hq
    exact (hi.hnd other q hq).mono hr

/-- The flag invariant is kept by the third party. -/
theorem FlagInv.relay_step (hi : FlagInv s) : FlagInv (relayStep s) := by
  obtain ⟨p,g,next,hok,hrel,hs⟩ := hi.relay_cases
  have hr := release_raised hrel
  have ho := release_ordered hok hrel
  rw [hs]
  refine hi.beside hr rfl rfl rfl (fun ha => (ho.abrt ha).imp_right (·.mono hr))
    (fun hd => (ho.done hd).imp_right hr.abrt) (hi.writer.mono hr id)
    (fun role q hq => (hi.hnd role q hq).mono hr) ?_
  intro q hq
  cases hq
  exact release_next (by decide) hok hrel

/-- The steps beside the two tasks. -/
def Act.aside : Act → Bool
  | .reader _ => false
  | .writer _ => false
  | _ => true

/-- A step beside the two tasks changes flags and posts semaphores, the
latter only after `done`. -/
theorem FlagInv.aside (hi : FlagInv s) (h : step opts s a=some t) (ha : a.aside=true) :
    ∃ errlog abrt done nodata nospace hnd relay,
      t={s with
        shm := {s.shm with
          errlog := errlog
          abrt := abrt
          done := done
          nodata := nodata
          nospace := nospace}
        hnd := hnd
        relay := relay} ∧
      s.shm.nodata≤nodata ∧ s.shm.nospace≤nospace ∧ (s.shm.done=true → done=true) ∧
      (s.shm.done=true ∨ nodata=s.shm.nodata ∧ nospace=s.shm.nospace) := by
  cases a with
  | reader io => cases ha
  | writer io => cases ha
  | signal role =>
    cases h
    obtain ⟨p,g,next,hok,hm,hs⟩ := hi.signal_cases role
    obtain ⟨errlog,abrt,done,hg⟩ := markStep_frame (errSig+role.idx) s.shm p
    have hr := markStep_raised (errSig+role.idx) s.shm p
    rw [hm] at hg hr
    subst hg
    exact ⟨errlog,abrt,done,s.shm.nodata,s.shm.nospace,_,s.relay,hs,le_refl _,le_refl _,hr.done,
      .inr ⟨rfl,rfl⟩⟩
  | relay =>
    cases h
    obtain ⟨p,g,next,hok,hrel,hs⟩ := hi.relay_cases
    cases release_cases hok hrel with
    | mark _ _ hd => exact ⟨_,_,_,_,_,s.hnd,_,hs,le_refl _,le_refl _,hd,.inr ⟨rfl,rfl⟩⟩
    | nodata hd => exact ⟨_,_,_,_,_,s.hnd,_,hs,Nat.le_succ _,le_refl _,id,.inl hd⟩
    | nospace hd => exact ⟨_,_,_,_,_,s.hnd,_,hs,le_refl _,Nat.le_succ _,id,.inl hd⟩

/-- The flag invariant is kept by every step. -/
theorem FlagInv.step (hi : FlagInv s) (h : step opts s a=some t) : FlagInv t := by
  cases a with
  | reader io => exact hi.reader_step (readerStep_cases h)
  | writer io => exact hi.writer_step (writerStep_cases h)
  | signal role =>
    cases h
    exact hi.signal_step role
  | relay =>
    cases h
    exact hi.relay_step

/-- The flag invariant holds before the first step. -/
theorem FlagInv.init (buf : BufS) : FlagInv (Sys.init buf) where
  abrt := nofun
  done := nofun
  rfail := nofun
  reader := trivial
  writer := trivial
  hnd := nofun
  relay := nofun

/-- The flag invariant holds in every state of every run. -/
theorem FlagInv.run {buf : BufS} {ok : Sys → Act → Prop}
    (h : Run (TwoTask.step opts) ok (Sys.init buf) s) : FlagInv s :=
  h.invariant (.init buf) fun _ _ _ hi _ hs => hi.step hs

/-- Writing steps do not move the reading task. -/
theorem WStep.rpc (h : WStep opts s io t) : t.rpc=s.rpc := by
  cases h <;> rfl

/-- Reading steps do not move the writing task. -/
theorem RStep.wpc (h : RStep s io t) : t.wpc=s.wpc := by
  cases h <;> rfl

/-- Reading steps record no failed write. -/
theorem RStep.wfail (h : RStep s io t) : t.tr.wfail=s.tr.wfail := by
  cases h <;> rfl

/-- Writing steps record no failed read. -/
theorem WStep.rfail (h : WStep opts s io t) : t.tr.rfail=s.tr.rfail := by
  cases h with
  | epi hpc he => exact he.flags.2.2
  | epiFail hpc he => exact he.flags.2.2
  | epiEnd hpc he => exact he.flags.2.2
  | _ => rfl

/-- A closed reader stays closed in every later state. -/
theorem closed_run {ok : Sys → Act → Prop} (h : Run (step opts) ok s t)
    (hc : s.rpc.closed=true) : t.rpc.closed=true := by
  induction h with
  | refl => exact hc
  | @tail u v a _ _ hv ih =>
    cases a with
    | reader io => exact (readerStep_cases hv).closed ih
    | writer io =>
      rw [(writerStep_cases hv).rpc]
      exact ih
    | signal role =>
      cases hv
      exact ih
    | relay =>
      cases hv
      exact ih

/-- The reading task writes to the log in `release` and after a failed read. -/
theorem RStep.errlog (h : RStep s io t) :
    t.shm.errlog=s.shm.errlog ∨ (∃ p,s.rpc=.releasing p) ∨ s.rpc=.outLog := by
  cases h with
  | releasing hpc _ => exact .inr (.inl ⟨_,hpc⟩)
  | released hpc _ => exact .inr (.inl ⟨_,hpc⟩)
  | outLog hpc => exact .inr (.inr hpc)
  | _ => exact .inl rfl

/-- The writing task writes to the log in `release`, after a failed write and
after a failed epilogue. -/
theorem WStep.errlog (h : WStep opts s io t) :
    t.shm.errlog=s.shm.errlog ∨ (∃ p,s.wpc=.releasing p) ∨ s.wpc=.outLog ∨ s.wpc=.errLog := by
  cases h with
  | releasing hpc _ => exact .inr (.inl ⟨_,hpc⟩)
  | released hpc _ => exact .inr (.inl ⟨_,hpc⟩)
  | outLog hpc => exact .inr (.inr (.inl hpc))
  | errLog hpc => exact .inr (.inr (.inr hpc))
  | epi _ he => exact .inl he.flags.1.1
  | epiFail _ he => exact .inl he.flags.1.1
  | epiEnd _ he => exact .inl he.flags.1.1
  | _ => exact .inl rfl

/-- Only a failed open leads the reading task into `release`. -/
theorem RStep.releasing_of (h : RStep s io t) {q : RelPc} (hq : t.rpc=.releasing q) :
    io=.opened false ∨ ∃ p,s.rpc=.releasing p := by
  cases h with
  | unopened => exact .inl rfl
  | releasing hpc _ => exact .inr ⟨_,hpc⟩
  | retry => exact .inr ⟨_,hq⟩
  | stored => exact .inr ⟨_,hq⟩
  | _ => cases hq

/-- Only a failed open leads the writing task into `release`. -/
theorem WStep.releasing_of (h : WStep opts s io t) {q : RelPc} (hq : t.wpc=.releasing q) :
    io=.opened false ∨ ∃ p,s.wpc=.releasing p := by
  cases h with
  | unopened => exact .inl rfl
  | releasing hpc _ => exact .inr ⟨_,hpc⟩
  | retry => exact .inr ⟨_,hq⟩
  | _ => cases hq

/-- A failed read that is about to be logged was recorded. -/
theorem RStep.outLog_of (h : RStep s io t) (hq : t.rpc=.outLog) : t.tr.rfail=true := by
  cases h with
  | fail => rfl
  | retry hpc _ => cases hpc.symm.trans hq
  | stored hpc _ => cases hpc.symm.trans hq
  | _ => cases hq

/-- A failed write that is about to be logged was recorded. -/
theorem WStep.outLog_of (h : WStep opts s io t) (hq : t.wpc=.outLog ∨ t.wpc=.errLog) :
    t.tr.wfail=true := by
  cases h with
  | fail => rfl
  | epiFail _ he => exact he.wfail.trans (Bool.or_true _)
  | retry hpc _ => rcases hq with hq|hq <;> cases hpc.symm.trans hq
  | _ => rcases hq with hq|hq <;> cases hq

/-- A read that was recorded as failed stays so under the reading task. -/
theorem RStep.rfail_mono (h : RStep s io t) (hf : s.tr.rfail=true) : t.tr.rfail=true := by
  cases h with
  | fail => rfl
  | _ => exact hf

/-- A write that was recorded as failed stays so under the writing task. -/
theorem WStep.wfail_mono (h : WStep opts s io t) (hf : s.tr.wfail=true) : t.tr.wfail=true := by
  cases h with
  | fail => rfl
  | epi _ he => exact (he.wfail.trans (Bool.or_false _)).trans hf
  | epiFail _ he => exact he.wfail.trans (Bool.or_true _)
  | epiEnd _ he => exact (he.wfail.trans (Bool.or_false _)).trans hf
  | _ => exact hf

/-- A failed write is logged, or is about to be. -/
def WfailLogged (s : Sys) : Prop :=
  s.tr.wfail=true → Logged s.shm ∨ s.wpc=.outLog ∨ s.wpc=.errLog

/-- A failed write that was logged or is about to be stays so under the writing
task. -/
theorem WfailLogged.writer_step (hi : WfailLogged s) (h : WStep opts s io t) :
    WfailLogged t := by
  have hr := h.raised
  have hkeep : t.tr.wfail=s.tr.wfail → s.wpc≠.outLog → s.wpc≠.errLog → WfailLogged t :=
    fun he h1 h2 hw => .inl (((hi (he.symm.trans hw)).resolve_right (by tauto)).mono hr)
  cases h with
  | outLog => exact fun _ => .inl (Logged.log s.shm (by decide))
  | errLog => exact fun _ => .inl (Logged.log s.shm (by decide))
  | fail => exact fun _ => .inr (.inl rfl)
  | epiFail => exact fun _ => .inr (.inr rfl)
  | retry => exact hi
  | epi hpc he =>
    exact hkeep (he.wfail.trans (Bool.or_false _)) (by rw [hpc]; nofun) (by rw [hpc]; nofun)
  | epiEnd hpc he =>
    exact hkeep (he.wfail.trans (Bool.or_false _)) (by rw [hpc]; nofun) (by rw [hpc]; nofun)
  | _ hpc => exact hkeep rfl (by rw [hpc]; nofun) (by rw [hpc]; nofun)

/-- What the writing task knows of its failures outlives every step. -/
theorem WfailLogged.step (hi : WfailLogged s) (h : step opts s a=some t) : WfailLogged t := by
  cases a with
  | reader io =>
    have hs := readerStep_cases h
    intro hw
    rw [hs.wpc]
    exact (hi (hs.wfail.symm.trans hw)).imp_left (·.mono hs.raised)
  | writer io => exact hi.writer_step (writerStep_cases h)
  | signal role =>
    cases h
    exact fun hw => (hi hw).imp_left (·.mono (markStep_raised _ _ _))
  | relay =>
    cases h
    exact fun hw => (hi hw).imp_left (·.mono (release_raised rfl))

/-- Failed writes are logged, or about to be, in every state of every run. -/
theorem WfailLogged.run {buf : BufS} {ok : Sys → Act → Prop}
    (h : Run (TwoTask.step opts) ok (Sys.init buf) s) : WfailLogged s :=
  h.invariant nofun fun _ _ _ hi _ hs => hi.step hs

/-- While the writing task is inside its epilogue, and ever after, the reading
task has left its loop: all it can still do is post its semaphore, and no step
of anyone else touches the buffer object. -/
theorem epilogue_alone (cfg : Config) {s : Sys} {p : EpiPc}
    (h : Reach (step cfg.opts) (Sys.init cfg.buf) s) (hp : s.wpc=.epi p) :
    s.rpc.closed=true ∧ ∀ t,Reach (step cfg.opts) s t →
      t.rpc.closed=true ∧
      (∀ io u,step cfg.opts t (.reader io)=some u →
        u={t with shm := {t.shm with nodata := t.shm.nodata+1},rpc := .ended}) ∧
      (∀ a u,step cfg.opts t a=some u → (∀ io,a≠.writer io) → u.shm.buf=t.shm.buf) := by
  have hc : s.rpc.closed=true := by
    have hw := (FlagInv.run h).writer
    rw [hp] at hw
    exact hw.2
  refine ⟨hc,fun t ht => ?_⟩
  have htc := closed_run ht hc
  have hread : ∀ io u,step cfg.opts t (.reader io)=some u →
      u={t with shm := {t.shm with nodata := t.shm.nodata+1},rpc := .ended} :=
    fun io u hu => ((readerStep_cases hu).of_closed htc).2
  refine ⟨htc,hread,fun a u hu ha => ?_⟩
  cases a with
  | reader io => rw [hread io u hu]
  | writer io => exact absurd rfl (ha io)
  | _ =>
    obtain ⟨_,_,_,_,_,_,_,rfl,_⟩ := (FlagInv.run (h.trans ht)).aside hu rfl
    rfl

/-- A byte is left in the ring when the reading task meets the end of the input:
the epilogue starts on it, and the post that the reading task still owes leaves
the buffer object as it is. -/
theorem epilogue_alone_unread :
    ∃ s u,Reach (step (small false true).opts) (Sys.init (small false true).buf) s ∧
      s.wpc=.epi .setlinew ∧ fill s.shm.buf=1 ∧ s.rpc.closed=true ∧
      step (small false true).opts s (.reader .tau)=some u ∧ u.rpc=.ended ∧
      u.shm.buf=s.shm.buf := by
  obtain ⟨s,hr,hf⟩ := exec_reach
    (f:=fun s : Sys =>
      (s.wpc,fill s.shm.buf,(step (small false true).opts s (.reader .tau)).isSome))
    (by rfl : (exec (step (small false true).opts) (Sys.init (small false true).buf)
      [.reader (.opened true),.reader .tau,.reader .tau,.reader .tau,.reader (.data [7]),
       .reader .tau,.reader .tau,.reader .tau,.reader .tau,.reader .tau,.reader .eof,.reader .tau,
       .writer (.opened true),.writer .tau,.writer .tau,.writer .tau,.writer .tau]).map
      (fun s : Sys =>
        (s.wpc,fill s.shm.buf,(step (small false true).opts s (.reader .tau)).isSome))=
      some (.epi .setlinew,1,true))
  obtain ⟨hw,hfill,hstep⟩ : s.wpc=.epi .setlinew ∧ fill s.shm.buf=1 ∧
      (step (small false true).opts s (.reader .tau)).isSome=true := by simpa using hf
  obtain ⟨u,hu⟩ := Option.isSome_iff_exists.mp hstep
  obtain ⟨hc,halone⟩ := epilogue_alone (small false true) hr hw
  obtain ⟨-,hread,hkeep⟩ := halone s .refl
  have hended : u.rpc=.ended := by rw [hread .tau u hu]
  exact ⟨s,u,hr,hw,hfill,hc,hu,hended,hkeep _ u hu fun io h => by cases h⟩

end Yancat.TwoTask
